import CilSketch.Body
import CilSketch.Constant
import CilSketch.Declaration.Attributes
import CilSketch.TypeRef

/-!
Declarations of types and their members, as metadata describes them.
-/

set_option autoImplicit false

namespace CilSketch

structure FieldDecl where
  name : String
  type : TypeRef
  access : Accessibility := .unstated
  readOnly : Bool := false
  constant : Option Constant := none
  deriving DecidableEq, Repr

structure ParameterDecl where
  name : String
  type : TypeRef
  deriving DecidableEq, Repr

structure MethodDecl where
  name : String
  access : Accessibility := .unstated
  modifiers : MethodModifiers := {}
  isConstructor : Bool := false
  parameters : List ParameterDecl := []
  returnType : TypeRef := .void
  body : Option Body := none
  deriving DecidableEq, Repr

def MethodDecl.hasBody (method : MethodDecl) : Bool :=
  method.body.isSome

structure TypeDecl where
  name : String
  namespaceName : String := ""
  kind : TypeKind := .referenceType
  access : Accessibility := .unstated
  modifiers : TypeModifiers := {}
  bases : List TypeRef := []
  fields : List FieldDecl := []
  methods : List MethodDecl := []
  /-- Whether the type only holds members that stand outside any type in source. -/
  freeFunctions : Bool := false
  deriving DecidableEq, Repr

namespace TypeDecl

def ref (decl : TypeDecl) : TypeRef :=
  .inNamespace decl.namespaceName decl.name

def fullName (decl : TypeDecl) : String :=
  qualify decl.namespaceName decl.name

/-- The bases that source states: not the implied ones, and never the type itself. -/
def visibleBases (decl : TypeDecl) : List TypeRef :=
  decl.bases.filter fun base => !base.isSynthesizedBase && base.fullName != decl.fullName

/-- The name of a member together with its type. -/
def memberName (decl : TypeDecl) (member : String) : String :=
  qualify decl.fullName member

end TypeDecl

/-- What a reference in source points to. -/
inductive Entity where
  | type (ref : TypeRef)
  | definition (decl : TypeDecl)
  | field (decl : FieldDecl)
  | method (decl : MethodDecl)
  deriving DecidableEq, Repr

/-- Types are targets by their full name, members by their own. -/
def Entity.target : Entity → String
  | .type ref => ref.fullName
  | .definition decl => decl.fullName
  | .field decl => decl.name
  | .method decl => decl.name

end CilSketch
