import CilSketch.Declaration.Edit

/-!
Choices that a projection leaves open.
-/

set_option autoImplicit false

namespace CilSketch

structure Options where
  /-- Whether the code of bodies is decoded, which only the journal shows. -/
  decodeBodies : Bool := true
  /-- The type name that marks a container of free functions, if any does. -/
  container : Option String := some freeFunctionsName
  /-- Whether character literals escape what would not stand in source as itself. -/
  escapeChars : Bool := false
  deriving DecidableEq, Repr

namespace Options

def isContainerName (options : Options) (name : String) : Bool :=
  options.container == some name

end Options

/-- Whether the members of a type stand outside any type in source. -/
def TypeDecl.isContainer (decl : TypeDecl) (options : Options) : Bool :=
  decl.freeFunctions || options.isContainerName decl.name

end CilSketch
