/-!
What a declaration says about itself beside its name: who may use it, what kind of type it is, and
its modifiers. Metadata packs all of this into flag words.
-/

set_option autoImplicit false

namespace CilSketch

/-- Whether any bit of the mask is set. -/
def hasFlag (flags mask : UInt32) : Bool :=
  flags &&& mask != 0

/-- The words of a table whose flag is set, in the order of the table. -/
def flagged (table : List (Bool × String)) : List String :=
  (table.filter Prod.fst).map Prod.snd

/-- Who may use a declaration. -/
inductive Accessibility where
  | unstated | everywhere | withinType | withinAssembly | withinFamily
  deriving DecidableEq, Repr

namespace Accessibility

def keyword? : Accessibility → Option String
  | .unstated => none
  | .everywhere => some "public"
  | .withinType => some "private"
  | .withinAssembly => some "internal"
  | .withinFamily => some "protected"

/-- Fields and methods share one encoding, in the three lowest bits. -/
def ofMemberFlags (flags : UInt32) : Accessibility :=
  match flags.toNat % 8 with
  | 1 => .withinType
  | 2 | 3 => .withinAssembly
  | 4 | 5 => .withinFamily
  | 6 => .everywhere
  | _ => .unstated

/-- A top-level type is either public or internal; nested types have the other values. -/
def ofTypeFlags (flags : UInt32) : Accessibility :=
  match flags.toNat % 8 with
  | 0 | 5 | 6 => .withinAssembly
  | 1 | 2 => .everywhere
  | 3 => .withinType
  | _ => .withinFamily

end Accessibility

inductive TypeKind where
  | referenceType | valueType | interface | enumeration | delegate
  deriving DecidableEq, Repr

namespace TypeKind

/-- A delegate is written as a class. -/
def keyword : TypeKind → String
  | .referenceType | .delegate => "class"
  | .valueType => "struct"
  | .interface => "interface"
  | .enumeration => "enum"

def interfaceFlag : UInt32 := 0x20

/-- Only interfaces have a flag; the other kinds show in the full name of the base. -/
def classify (flags : UInt32) (base : Option String) : TypeKind :=
  if hasFlag flags interfaceFlag then .interface
  else if base = some "System.Enum" then .enumeration
  else if base = some "System.ValueType" then .valueType
  else if base = some "System.MulticastDelegate" then .delegate
  else .referenceType

end TypeKind

structure TypeModifiers where
  isSealed : Bool := false
  isStatic : Bool := false
  isAbstract : Bool := false
  deriving DecidableEq, Repr

namespace TypeModifiers

def union (a b : TypeModifiers) : TypeModifiers where
  isSealed := a.isSealed || b.isSealed
  isStatic := a.isStatic || b.isStatic
  isAbstract := a.isAbstract || b.isAbstract

/-- In the order in which source states them. -/
def table (modifiers : TypeModifiers) : List (Bool × String) :=
  [(modifiers.isSealed, "sealed"),
   (modifiers.isStatic, "static"),
   (modifiers.isAbstract, "abstract")]

def abstractFlag : UInt32 := 0x80

def sealedFlag : UInt32 := 0x100

/-- A type that is abstract and sealed is static and neither; an interface has no modifiers. -/
def ofFlags (flags : UInt32) : TypeModifiers :=
  if hasFlag flags TypeKind.interfaceFlag then {}
  else
    match hasFlag flags abstractFlag, hasFlag flags sealedFlag with
    | true, true => { isStatic := true }
    | isAbstract, isSealed => { isAbstract, isSealed }

end TypeModifiers

structure MethodModifiers where
  isAbstract : Bool := false
  isStatic : Bool := false
  isOverride : Bool := false
  isOperator : Bool := false
  deriving DecidableEq, Repr

namespace MethodModifiers

def union (a b : MethodModifiers) : MethodModifiers where
  isAbstract := a.isAbstract || b.isAbstract
  isStatic := a.isStatic || b.isStatic
  isOverride := a.isOverride || b.isOverride
  isOperator := a.isOperator || b.isOperator

/-- In the order in which source states them. -/
def table (modifiers : MethodModifiers) : List (Bool × String) :=
  [(modifiers.isAbstract, "abstract"),
   (modifiers.isStatic, "static"),
   (modifiers.isOverride, "override"),
   (modifiers.isOperator, "operator")]

def staticFlag : UInt32 := 0x10

def virtualFlag : UInt32 := 0x40

def newSlotFlag : UInt32 := 0x100

def abstractFlag : UInt32 := 0x400

def specialNameFlag : UInt32 := 0x800

def hasOperatorName (name : String) : Bool :=
  "op_".toList.isPrefixOf name.toList

/-- A virtual method overrides unless it asks for a slot of its own; an operator shows in flag and
name together. -/
def ofFlags (flags : UInt32) (name : String) : MethodModifiers where
  isAbstract := hasFlag flags abstractFlag
  isStatic := hasFlag flags staticFlag
  isOverride := hasFlag flags virtualFlag && !hasFlag flags newSlotFlag
  isOperator := hasFlag flags specialNameFlag && hasOperatorName name

end MethodModifiers

end CilSketch
