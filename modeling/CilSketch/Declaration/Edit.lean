import CilSketch.Declaration.Basic

/-!
Declarations made step by step. An edit touches one component: it replaces a single value, adds to
a set of modifiers or appends to a list. The usual accesses and modifiers have edits of their own.
-/

set_option autoImplicit false

namespace CilSketch

/-- The type name whose members stand outside any type unless something else is said. -/
def freeFunctionsName : String := "FreeFunctions"

inductive TypeEdit where
  | inNamespace (name : String)
  | kind (kind : TypeKind)
  | access (access : Accessibility)
  | makePublic
  | makeInternal
  | modify (modifiers : TypeModifiers)
  | makeSealed
  | makeStatic
  | makeAbstract
  | base (ref : TypeRef)
  | field (decl : FieldDecl)
  | method (decl : MethodDecl)
  | freeFunctions (flag : Bool)
  deriving DecidableEq, Repr

namespace TypeDecl

def named (name : String) : TypeDecl :=
  { name, freeFunctions := name == freeFunctionsName }

def withAccess (decl : TypeDecl) (access : Accessibility) : TypeDecl :=
  { decl with access }

def withModifiers (decl : TypeDecl) (modifiers : TypeModifiers) : TypeDecl :=
  { decl with modifiers := decl.modifiers.union modifiers }

def edit (decl : TypeDecl) : TypeEdit → TypeDecl
  | .inNamespace name => { decl with namespaceName := name }
  | .kind kind => { decl with kind }
  | .access access => decl.withAccess access
  | .makePublic => decl.withAccess .everywhere
  | .makeInternal => decl.withAccess .withinAssembly
  | .modify modifiers => decl.withModifiers modifiers
  | .makeSealed => decl.withModifiers { isSealed := true }
  | .makeStatic => decl.withModifiers { isStatic := true }
  | .makeAbstract => decl.withModifiers { isAbstract := true }
  | .base ref => { decl with bases := decl.bases ++ [ref] }
  | .field field => { decl with fields := decl.fields ++ [field] }
  | .method method => { decl with methods := decl.methods ++ [method] }
  | .freeFunctions flag => { decl with freeFunctions := flag }

def editAll (decl : TypeDecl) (edits : List TypeEdit) : TypeDecl :=
  edits.foldl edit decl

end TypeDecl

inductive FieldEdit where
  | access (access : Accessibility)
  | makePublic
  | makePrivate
  | readOnly
  | constant (value : Constant)
  deriving DecidableEq, Repr

namespace FieldDecl

def named (name : String) (type : TypeRef) : FieldDecl :=
  { name, type }

def withAccess (decl : FieldDecl) (access : Accessibility) : FieldDecl :=
  { decl with access }

/-- A constant cannot be assigned, so it makes its field read-only. -/
def edit (decl : FieldDecl) : FieldEdit → FieldDecl
  | .access access => decl.withAccess access
  | .makePublic => decl.withAccess .everywhere
  | .makePrivate => decl.withAccess .withinType
  | .readOnly => { decl with readOnly := true }
  | .constant value => { decl with constant := some value, readOnly := true }

def editAll (decl : FieldDecl) (edits : List FieldEdit) : FieldDecl :=
  edits.foldl edit decl

end FieldDecl

inductive MethodEdit where
  | access (access : Accessibility)
  | makePublic
  | makePrivate
  | makeProtected
  | modify (modifiers : MethodModifiers)
  | makeStatic
  | makeAbstract
  | makeOverride
  | parameter (name : String) (type : TypeRef)
  | returns (type : TypeRef)
  | body (body : Body)
  /-- A body that is known only by its code. -/
  | code (code : Bytes)
  deriving DecidableEq, Repr

namespace MethodDecl

def named (name : String) : MethodDecl :=
  { name }

/-- Constructors have a reserved name in metadata. -/
def constructor : MethodDecl :=
  { name := ".ctor", isConstructor := true }

def withAccess (decl : MethodDecl) (access : Accessibility) : MethodDecl :=
  { decl with access }

def withModifiers (decl : MethodDecl) (modifiers : MethodModifiers) : MethodDecl :=
  { decl with modifiers := decl.modifiers.union modifiers }

def withBody (decl : MethodDecl) (body : Body) : MethodDecl :=
  { decl with body := some body }

def edit (decl : MethodDecl) : MethodEdit → MethodDecl
  | .access access => decl.withAccess access
  | .makePublic => decl.withAccess .everywhere
  | .makePrivate => decl.withAccess .withinType
  | .makeProtected => decl.withAccess .withinFamily
  | .modify modifiers => decl.withModifiers modifiers
  | .makeStatic => decl.withModifiers { isStatic := true }
  | .makeAbstract => decl.withModifiers { isAbstract := true }
  | .makeOverride => decl.withModifiers { isOverride := true }
  | .parameter name type => { decl with parameters := decl.parameters ++ [⟨name, type⟩] }
  | .returns type => { decl with returnType := type }
  | .body body => decl.withBody body
  | .code code => decl.withBody (.ofCode code)

def editAll (decl : MethodDecl) (edits : List MethodEdit) : MethodDecl :=
  edits.foldl edit decl

end MethodDecl

end CilSketch
