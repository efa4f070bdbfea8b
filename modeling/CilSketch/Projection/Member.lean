import CilSketch.Alias
import CilSketch.Projection.Literal

/-!
Fields and methods as projected source. The body of a method is shown as an empty block.
-/

set_option autoImplicit false

namespace CilSketch

/-- A reserved word; the blank after it belongs to its span. -/
def keyword (word : String) : Trace :=
  [.beginSpan StyleCategory.keyword.style, .text word, .text " ", .endSpan]

/-- The given traces with a text between each two of them. -/
def separatedBy (separator : String) (items : List Trace) : Trace :=
  List.intercalate [.text separator] items

namespace Trace

/-- Opens a foldable region, and an indented block behind the line of its title. -/
def openBlock (title : Trace) : Trace :=
  .foldStart :: title ++ [.lineBreak, .indent]

/-- The brace that ends a block stands on a line of its own. -/
def brace : Trace :=
  [.unindent, .text "\x7d", .lineBreak]

/-- The line of the brace still belongs to the region. -/
def closeBlock : Trace :=
  brace ++ [.foldEnd]

def foldedBlock (title inner : Trace) : Trace :=
  openBlock title ++ inner ++ closeBlock

end Trace

def TypeRef.project (ref : TypeRef) : Trace :=
  [.beginSpan StyleCategory.type.style, .referTo (.type ref) ref.displayName false, .endSpan]

namespace FieldDecl

def keywords (decl : FieldDecl) : List String :=
  decl.access.keyword?.toList ++ "let" :: flagged [(!decl.readOnly, "mut")]

def projectConstant (decl : FieldDecl) (options : Options) : Trace :=
  match decl.constant with
  | some value => .text " = " :: (Literal.ofConstant options value).project
  | none => []

def projectLine (decl : FieldDecl) (options : Options) : Trace :=
  decl.keywords.flatMap keyword ++ [.referTo (.field decl) decl.name true, .text ": "] ++
    decl.type.project ++ decl.projectConstant options ++ [.text ";"]

def project (decl : FieldDecl) (options : Options) : Trace :=
  decl.projectLine options ++ [.lineBreak]

end FieldDecl

namespace ParameterDecl

def project (decl : ParameterDecl) : Trace :=
  [.text decl.name, .text ": "] ++ decl.type.project

end ParameterDecl

namespace MethodDecl

def keywords (decl : MethodDecl) : List String :=
  decl.access.keyword?.toList ++
    flagged (decl.modifiers.table ++ [(!decl.isConstructor, "func")])

/-- A constructor is named by a reserved word, which is its definition too. -/
def projectName (decl : MethodDecl) : Trace :=
  if decl.isConstructor then
    [.beginSpan StyleCategory.keyword.style, .referTo (.method decl) "constructor" true, .endSpan]
  else
    [.referTo (.method decl) decl.name true]

def projectParameters (decl : MethodDecl) : Trace :=
  separatedBy ", " (decl.parameters.map ParameterDecl.project)

/-- What comes before the parenthesis that ends the parameters. -/
def projectHead (decl : MethodDecl) : Trace :=
  decl.keywords.flatMap keyword ++ decl.projectName ++ .text "(" :: decl.projectParameters

def projectReturn (decl : MethodDecl) : Trace :=
  if decl.returnType.isVoid then [] else .text " -> " :: decl.returnType.project

/-- The rest of the line, from the parenthesis that ends the parameters to the last mark. -/
def projectTail (decl : MethodDecl) (mark : String) : Trace :=
  .text ")" :: decl.projectReturn ++ [.text mark]

/-- What follows the parameters. The foldable region of a body starts before the parenthesis that
ends them. -/
def projectBody (decl : MethodDecl) : Trace :=
  if decl.hasBody then
    Trace.foldedBlock (decl.projectTail " \x7b") [] ++ [.lineBreak, .lineBreak]
  else
    decl.projectTail ";" ++ [.lineBreak]

def project (decl : MethodDecl) : Trace :=
  decl.projectHead ++ decl.projectBody

end MethodDecl

end CilSketch
