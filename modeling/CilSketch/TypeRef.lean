/-!
Names of types. A qualified name is a namespace and a simple name joined by a dot, and splitting it
at the last dot finds the simple name again.
-/

set_option autoImplicit false

namespace CilSketch

/-- The name inside a namespace. The global namespace is empty and adds no dot. -/
def qualify (space name : String) : String :=
  if space = "" then name else space ++ "." ++ name

/-- The parts before and after the last dot, if there is one. -/
def splitLastDot : List Char → Option (List Char × List Char)
  | [] => none
  | c :: rest =>
      match splitLastDot rest with
      | some (before, after) => some (c :: before, after)
      | none => if c = '.' then some ([], rest) else none

structure TypeRef where
  name : String
  fullName : String
  deriving DecidableEq, Repr

namespace TypeRef

def inNamespace (space name : String) : TypeRef :=
  ⟨name, qualify space name⟩

/-- A name that starts with its only dot is one of the global namespace, so the dot is lost. -/
def ofFullName (fullName : String) : TypeRef :=
  match splitLastDot fullName.toList with
  | some (space, name) => inNamespace (String.ofList space) (String.ofList name)
  | none => inNamespace "" fullName

def void : TypeRef :=
  inNamespace "System" "Void"

def isVoid (ref : TypeRef) : Bool :=
  ref.fullName == "System.Void"

/-- Bases that the kind of a type already implies. -/
def isSynthesizedBase (ref : TypeRef) : Bool :=
  ref.fullName == "System.Object" || ref.fullName == "System.Enum" ||
    ref.fullName == "System.ValueType"

end TypeRef

end CilSketch
