import CilSketch.Page
import CilSketch.Projection.Member

/-!
Types as projected source. The fields of a type stand in its own block, and its methods in a block
of their own after it; a container of free functions has neither block nor header.
-/

set_option autoImplicit false

namespace CilSketch

namespace TypeDecl

def projectNamespace (decl : TypeDecl) : Trace :=
  if decl.namespaceName = "" then []
  else keyword "module" ++ [.text decl.namespaceName, .text ";", .lineBreak, .lineBreak]

def projectBases : List TypeRef → Trace
  | [] => []
  | bases => .text ": " :: separatedBy ", " (bases.map TypeRef.project)

def keywords (decl : TypeDecl) : List String :=
  decl.access.keyword?.toList ++ flagged decl.modifiers.table ++ [decl.kind.keyword]

def projectHeader (decl : TypeDecl) : Trace :=
  decl.keywords.flatMap keyword ++
    .referTo (.definition decl) decl.name true :: projectBases decl.visibleBases

def projectFields (decl : TypeDecl) (options : Options) : Trace :=
  decl.fields.flatMap fun field => field.project options

def projectMethods (decl : TypeDecl) : Trace :=
  decl.methods.flatMap MethodDecl.project

/-- The title of the block of the methods. -/
def projectTitle (decl : TypeDecl) : Trace :=
  keyword "implement" ++ [.referTo (.definition decl) decl.name false, .text " \x7b"]

def projectBlocks (decl : TypeDecl) (options : Options) : Trace :=
  decl.projectHeader ++
    .text " " :: Trace.foldedBlock [.text "\x7b"] (.lineBreak :: decl.projectFields options) ++
    .lineBreak :: Trace.foldedBlock decl.projectTitle decl.projectMethods

def project (decl : TypeDecl) (options : Options) : Trace :=
  decl.projectNamespace ++
    if decl.isContainer options then decl.projectFields options ++ decl.projectMethods
    else decl.projectBlocks options

end TypeDecl

/-- Each type on a page of its own, in order. -/
def projectPages (decls : List TypeDecl) (options : Options) : List Page :=
  decls.map fun decl => (Page.blank Page.defaultUnit).play (decl.project options)

end CilSketch
