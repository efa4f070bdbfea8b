import CilSketch.Projection.Type
import Mathlib.Tactic.FinCases

/-!
Projected source as text, in closed form. The grammar of the surface language is written down
construct by construct, over declarations alone and with every word spelled out: reserved words with
a blank after each, names as they are, short names for the basic types, and lists with separators
between their items. The text of a projection is what the grammar says.
-/

set_option autoImplicit false

namespace CilSketch

/-- A word with a blank after it, if the word is stated. -/
def statedWord (isStated : Bool) (word : String) : String :=
  if isStated then word ++ " " else ""

def Accessibility.source : Accessibility → String
  | .unstated => ""
  | .everywhere => "public "
  | .withinType => "private "
  | .withinAssembly => "internal "
  | .withinFamily => "protected "

def TypeKind.source : TypeKind → String
  | .referenceType | .delegate => "class "
  | .valueType => "struct "
  | .interface => "interface "
  | .enumeration => "enum "

/-- The namespace of a type does not matter. -/
def TypeRef.source (ref : TypeRef) : String :=
  match ref.name with
  | "Boolean" => "bool"
  | "Object" => "obj"
  | "String" => "string"
  | "Char" => "char"
  | "SByte" => "i8"
  | "Byte" => "u8"
  | "Int16" => "i16"
  | "UInt16" => "u16"
  | "Int32" => "i32"
  | "UInt32" => "u32"
  | "Int64" => "i64"
  | "UInt64" => "u64"
  | "Half" => "f16"
  | "Single" => "f32"
  | "Double" => "f64"
  | name => name

/-- A character between quotes where escapes are asked for. -/
def escapedSource (c : Char) : String :=
  if c = '\'' then "\\'"
  else if c = '\\' then "\\\\"
  else if c = '\n' then "\\n"
  else if c = '\r' then "\\r"
  else if c = '\t' then "\\t"
  else if c = '\x00' then "\\0"
  else if c.toNat < 32 ∨ 127 ≤ c.toNat ∧ c.toNat < 160 then
    "\\u\x7b00" ++ String.ofList [Nat.digitChar (c.toNat / 16), Nat.digitChar (c.toNat % 16)] ++
      "\x7d"
  else c.toString

/-- A text changes nothing but its quotes. -/
def Constant.source (options : Options) : Constant → String
  | .string text =>
      "\"" ++ String.join (text.toList.map fun c => if c = '"' then "\\\"" else c.toString) ++ "\""
  | .char c => "'" ++ (if options.escapeChars then escapedSource c else c.toString) ++ "'"
  | .boolean true => "true"
  | .boolean false => "false"
  | .integer number => number.toInt.repr
  | .unsigned number => number.toNat.repr
  | .single number => number.toText
  | .double number => number.toText
  | .other text => text

namespace FieldDecl

def constantSource (decl : FieldDecl) (options : Options) : String :=
  match decl.constant with
  | some value => " = " ++ value.source options
  | none => ""

def source (decl : FieldDecl) (options : Options) : String :=
  decl.access.source ++ "let " ++ statedWord (!decl.readOnly) "mut" ++ decl.name ++ ": " ++
    decl.type.source ++ decl.constantSource options ++ ";\n"

end FieldDecl

def ParameterDecl.source (decl : ParameterDecl) : String :=
  decl.name ++ ": " ++ decl.type.source

namespace MethodDecl

/-- What comes before the parenthesis that ends the parameters. -/
def headSource (decl : MethodDecl) : String :=
  decl.access.source ++ statedWord decl.modifiers.isAbstract "abstract" ++
    statedWord decl.modifiers.isStatic "static" ++
    statedWord decl.modifiers.isOverride "override" ++
    statedWord decl.modifiers.isOperator "operator" ++
    (if decl.isConstructor then "constructor" else "func " ++ decl.name) ++ "(" ++
    ", ".intercalate (decl.parameters.map ParameterDecl.source)

def returnSource (decl : MethodDecl) : String :=
  if decl.returnType.fullName = "System.Void" then "" else " -> " ++ decl.returnType.source

/-- A body is an empty block with two empty lines behind it. -/
def source (decl : MethodDecl) : String :=
  decl.headSource ++ ")" ++ decl.returnSource ++
    if decl.body.isSome then " \x7b\n\x7d\n\n\n" else ";\n"

end MethodDecl

namespace TypeDecl

/-- The bases that are named in source: none that the kind implies, and never the type itself. -/
def namedBases (decl : TypeDecl) : List TypeRef :=
  let ownName :=
    if decl.namespaceName = "" then decl.name else decl.namespaceName ++ "." ++ decl.name
  decl.bases.filter fun base =>
    base.fullName ∉ ["System.Object", "System.Enum", "System.ValueType", ownName]

def basesSource (decl : TypeDecl) : String :=
  if decl.namedBases = [] then ""
  else ": " ++ ", ".intercalate (decl.namedBases.map TypeRef.source)

def headerSource (decl : TypeDecl) : String :=
  decl.access.source ++ statedWord decl.modifiers.isSealed "sealed" ++
    statedWord decl.modifiers.isStatic "static" ++
    statedWord decl.modifiers.isAbstract "abstract" ++ decl.kind.source ++ decl.name ++
    decl.basesSource

def moduleSource (decl : TypeDecl) : String :=
  if decl.namespaceName = "" then "" else "module " ++ decl.namespaceName ++ ";\n\n"

def fieldsSource (decl : TypeDecl) (options : Options) : String :=
  String.join (decl.fields.map fun field => field.source options)

def methodsSource (decl : TypeDecl) : String :=
  String.join (decl.methods.map MethodDecl.source)

/-- The members of a container of free functions stand by themselves. -/
def source (decl : TypeDecl) (options : Options) : String :=
  decl.moduleSource ++
    if decl.freeFunctions ∨ options.container = some decl.name then
      decl.fieldsSource options ++ decl.methodsSource
    else
      decl.headerSource ++ " \x7b\n\n" ++ decl.fieldsSource options ++ "\x7d\n\nimplement " ++
        decl.name ++ " \x7b\n" ++ decl.methodsSource ++ "\x7d\n"

end TypeDecl

/-! The words, short names and literals of the grammar are those that are projected. -/

/-- Words with a blank after each. -/
def spaced (words : List String) : String :=
  String.join (words.map (· ++ " "))

theorem spaced_cons (word : String) (words : List String) :
    spaced (word :: words) = word ++ " " ++ spaced words :=
  String.join_cons

theorem spaced_append (a b : List String) : spaced (a ++ b) = spaced a ++ spaced b := by
  rw [spaced, List.map_append, String.join_append]
  rfl

theorem spaced_flagged (table : List (Bool × String)) :
    spaced (flagged table) = String.join (table.map fun entry => statedWord entry.1 entry.2) := by
  induction table with
  | nil => rfl
  | cons entry rest ih =>
    obtain ⟨isStated, word⟩ := entry
    rw [List.map_cons, String.join_cons, ← ih]
    cases isStated with
    | false => exact String.empty_append.symm
    | true => exact spaced_cons word _

theorem Accessibility.spaced_keyword? (access : Accessibility) :
    spaced access.keyword?.toList = access.source := by
  cases access <;> rfl

theorem TypeKind.spaced_keyword (kind : TypeKind) : spaced [kind.keyword] = kind.source := by
  cases kind <;> rfl

theorem TypeRef.displayName_eq_source (ref : TypeRef) : ref.displayName = ref.source := by
  unfold displayName source aliasFor?
  split
  case h_16 =>
    have unlisted : aliases.find? (fun entry => entry.typeName == ref.name) = none := by
      rw [List.find?_eq_none]
      intro entry member isNamed
      have named : ref.name = entry.typeName := (beq_iff_eq.mp isNamed).symm
      unfold aliases at member
      fin_cases member <;> contradiction
    rw [unlisted]
    rfl
  all_goals
    next named =>
    rw [named]
    rfl

namespace Literal

theorem ofList_escapeQuotes (chars : List Char) :
    String.ofList (escapeQuotes chars) =
      String.join (chars.map fun c => if c = '"' then "\\\"" else c.toString) := by
  fun_induction escapeQuotes chars with
  | case1 => rfl
  | case2 rest ih =>
    rw [List.map_cons, String.join_cons, ← ih, if_pos rfl]
    exact @String.ofList_append ['\\', '"'] _
  | case3 c rest plain ih =>
    rw [List.map_cons, String.join_cons, ← ih, if_neg plain]
    exact @String.ofList_append [c] _

/-- A control character has only two places that are not zero. -/
theorem hex_of_lt {n : Nat} (small : n < 256) :
    Digits.hex 4 n = "00" ++ String.ofList [Nat.digitChar (n / 16), Nat.digitChar (n % 16)] := by
  have thousands : n / 16 / 16 / 16 % 16 = 0 := by omega
  have hundreds : n / 16 / 16 % 16 = 0 := by omega
  have tens : n / 16 % 16 = n / 16 := by omega
  rw [Digits.hex]
  simp only [Digits.places, thousands, hundreds, tens]
  exact @String.ofList_append ['0', '0'] _

theorem escapeChar_eq_source (c : Char) : escapeChar c = escapedSource c := by
  unfold escapeChar escapedSource
  split
  any_goals rfl
  next quote backslash newline carriageReturn tab zero =>
    have control : isControl c = true ↔ c.toNat < 32 ∨ 127 ≤ c.toNat ∧ c.toNat < 160 := by
      simp [isControl]
    have opening : "\\u\x7b00" = "\\u\x7b" ++ "00" := rfl
    rw [if_neg quote, if_neg backslash, if_neg newline, if_neg carriageReturn, if_neg tab,
      if_neg zero]
    simp only [control]
    split
    · rw [hex_of_lt (by omega), opening, ← String.append_assoc]
    · rfl

theorem text_ofConstant (options : Options) (value : Constant) :
    (ofConstant options value).text = value.source options := by
  cases value with
  | string text =>
    rw [Constant.source, ← ofList_escapeQuotes, ofConstant, quoted]
    change String.ofList (['"'] ++ escapeQuotes text.toList ++ ['"']) = _
    rw [String.ofList_append, String.ofList_append]
  | char c =>
    rw [ofConstant, charText, escapeChar_eq_source]
    rfl
  | boolean flag => cases flag <;> rfl
  | integer | unsigned | single | double | other => rfl

theorem text_project (literal : Literal) : literal.project.text = literal.text := by
  unfold project
  split <;> simp [Event.written]

end Literal

namespace Trace

theorem text_flatMap {α : Type} (items : List α) (project : α → Trace) :
    text (items.flatMap project) = String.join (items.map fun item => text (project item)) := by
  induction items with
  | nil => rfl
  | cons item rest ih => simp [ih]

theorem text_separatedBy {α : Type} {project : α → Trace} {shown : α → String}
    (shows : ∀ item, text (project item) = shown item) (separator : String) (items : List α) :
    text (separatedBy separator (items.map project)) =
      separator.intercalate (items.map shown) := by
  induction items with
  | nil => rfl
  | cons item rest ih =>
    cases rest with
    | nil => simp [separatedBy, shows]
    | cons next rest =>
      simp only [separatedBy, List.map_cons, List.intercalate_cons_cons] at ih ⊢
      rw [text_append, text_append, shows, ih, String.intercalate_cons_cons]
      simp [Event.written]

/-- A block shows its title, what is inside, and the brace at the end. -/
theorem text_foldedBlock (title inner : Trace) :
    text (foldedBlock title inner) = text title ++ "\n" ++ text inner ++ "\x7d\n" := by
  simp [foldedBlock, openBlock, closeBlock, brace, Event.written, String.append_assoc]

end Trace

theorem text_keyword (word : String) : (keyword word).text = word ++ " " := by
  simp [keyword, Event.written]

theorem text_keywords (words : List String) :
    Trace.text (words.flatMap keyword) = spaced words := by
  simp only [Trace.text_flatMap, text_keyword, spaced]

theorem TypeRef.text_project (ref : TypeRef) : ref.project.text = ref.source := by
  simp [project, Event.referTo, Event.written, displayName_eq_source]

namespace FieldDecl

theorem text_projectConstant (decl : FieldDecl) (options : Options) :
    (decl.projectConstant options).text = decl.constantSource options := by
  unfold projectConstant constantSource
  cases decl.constant with
  | none => rfl
  | some value => simp [Event.written, Literal.text_project, Literal.text_ofConstant]

theorem spaced_keywords (decl : FieldDecl) :
    spaced decl.keywords = decl.access.source ++ "let " ++ statedWord (!decl.readOnly) "mut" := by
  rw [keywords, spaced_append, spaced_cons, Accessibility.spaced_keyword?, spaced_flagged]
  simp [String.append_assoc]

theorem text_project (decl : FieldDecl) (options : Options) :
    (decl.project options).text = decl.source options := by
  simp [project, projectLine, source, text_keywords, spaced_keywords, TypeRef.text_project,
    text_projectConstant, Event.referTo, Event.written, String.append_assoc]

end FieldDecl

theorem ParameterDecl.text_project (decl : ParameterDecl) : decl.project.text = decl.source := by
  simp [project, source, TypeRef.text_project, Event.written, String.append_assoc]

namespace MethodDecl

theorem spaced_keywords (decl : MethodDecl) :
    spaced decl.keywords =
      decl.access.source ++ statedWord decl.modifiers.isAbstract "abstract" ++
        statedWord decl.modifiers.isStatic "static" ++
        statedWord decl.modifiers.isOverride "override" ++
        statedWord decl.modifiers.isOperator "operator" ++
        statedWord (!decl.isConstructor) "func" := by
  rw [keywords, spaced_append, Accessibility.spaced_keyword?, spaced_flagged]
  simp [MethodModifiers.table, String.append_assoc]

theorem text_projectHead (decl : MethodDecl) : decl.projectHead.text = decl.headSource := by
  have parameters : decl.projectParameters.text = _ :=
    Trace.text_separatedBy ParameterDecl.text_project ", " decl.parameters
  have name : statedWord (!decl.isConstructor) "func" ++ decl.projectName.text =
      if decl.isConstructor then "constructor" else "func " ++ decl.name := by
    cases isConstructor : decl.isConstructor <;>
      simp [statedWord, projectName, isConstructor, Event.referTo, Event.written]
  have opening : (Event.text "(").written = "(" := rfl
  rw [projectHead, Trace.text_append, Trace.text_append, text_keywords, spaced_keywords,
    Trace.text_cons, opening, parameters, headSource, ← name]
  simp only [String.append_assoc]

theorem text_projectReturn (decl : MethodDecl) : decl.projectReturn.text = decl.returnSource := by
  unfold projectReturn returnSource TypeRef.isVoid
  by_cases isVoid : decl.returnType.fullName = "System.Void"
  · simp [isVoid]
  · simp [isVoid, TypeRef.text_project, Event.written]

theorem text_projectTail (decl : MethodDecl) (mark : String) :
    (decl.projectTail mark).text = ")" ++ decl.returnSource ++ mark := by
  simp [projectTail, text_projectReturn, Event.written, String.append_assoc]

theorem text_project (decl : MethodDecl) : decl.project.text = decl.source := by
  unfold project projectBody source hasBody
  split
  · simp [text_projectHead, Trace.text_foldedBlock, text_projectTail, Event.written,
      String.append_assoc]
  · simp [text_projectHead, text_projectTail, Event.written, String.append_assoc]

end MethodDecl

namespace TypeDecl

theorem visibleBases_eq_namedBases (decl : TypeDecl) : decl.visibleBases = decl.namedBases := by
  unfold visibleBases namedBases TypeRef.isSynthesizedBase fullName qualify
  apply List.filter_congr
  intro base _
  rw [Bool.eq_iff_iff]
  simp [and_assoc]

theorem text_projectBases (decl : TypeDecl) :
    (projectBases decl.visibleBases).text = decl.basesSource := by
  rw [visibleBases_eq_namedBases, basesSource]
  cases decl.namedBases with
  | nil => rfl
  | cons base rest =>
    have joined := Trace.text_separatedBy TypeRef.text_project ", " (base :: rest)
    simpa [projectBases, Event.written] using joined

theorem spaced_keywords (decl : TypeDecl) :
    spaced decl.keywords =
      decl.access.source ++ statedWord decl.modifiers.isSealed "sealed" ++
        statedWord decl.modifiers.isStatic "static" ++
        statedWord decl.modifiers.isAbstract "abstract" ++ decl.kind.source := by
  rw [keywords, spaced_append, spaced_append, Accessibility.spaced_keyword?, spaced_flagged,
    TypeKind.spaced_keyword]
  simp [TypeModifiers.table, String.append_assoc]

theorem text_projectHeader (decl : TypeDecl) : decl.projectHeader.text = decl.headerSource := by
  rw [projectHeader, Trace.text_append, text_keywords, spaced_keywords, Trace.text_cons,
    text_projectBases, ← String.append_assoc, headerSource]
  rfl

theorem text_projectTitle (decl : TypeDecl) :
    decl.projectTitle.text = "implement " ++ decl.name ++ " \x7b" := by
  simp [projectTitle, text_keyword, Event.referTo, Event.written, String.append_assoc]

theorem text_projectNamespace (decl : TypeDecl) :
    decl.projectNamespace.text = decl.moduleSource := by
  unfold projectNamespace moduleSource
  split
  · rfl
  · simp [text_keyword, Event.written, String.append_assoc]

theorem text_projectFields (decl : TypeDecl) (options : Options) :
    (decl.projectFields options).text = decl.fieldsSource options := by
  simp only [projectFields, Trace.text_flatMap, FieldDecl.text_project, fieldsSource]

theorem text_projectMethods (decl : TypeDecl) : decl.projectMethods.text = decl.methodsSource := by
  simp only [projectMethods, Trace.text_flatMap, MethodDecl.text_project, methodsSource]

theorem text_projectBlocks (decl : TypeDecl) (options : Options) :
    (decl.projectBlocks options).text =
      decl.headerSource ++ " \x7b\n\n" ++ decl.fieldsSource options ++ "\x7d\n\nimplement " ++
        decl.name ++ " \x7b\n" ++ decl.methodsSource ++ "\x7d\n" := by
  have opening : " \x7b\n\n" = " " ++ "\x7b" ++ "\n" ++ "\n" := rfl
  have between : "\x7d\n\nimplement " = "\x7d\n" ++ "\n" ++ "implement " := rfl
  have title : " \x7b\n" = " \x7b" ++ "\n" := rfl
  rw [opening, between, title]
  simp [projectBlocks, text_projectHeader, Trace.text_foldedBlock, text_projectFields,
    text_projectTitle, text_projectMethods, Event.written, String.append_assoc,
    -String.reduceAppend]

theorem isContainer_iff (decl : TypeDecl) (options : Options) :
    decl.isContainer options = true ↔
      decl.freeFunctions = true ∨ options.container = some decl.name := by
  simp [isContainer, Options.isContainerName]

end TypeDecl

/-- The text of a projected type is what the grammar of the surface language makes of it. -/
theorem projected_text_eq_source (decl : TypeDecl) (options : Options) :
    (decl.project options).text = decl.source options := by
  rw [TypeDecl.project, Trace.text_append, TypeDecl.text_projectNamespace, TypeDecl.source]
  simp only [TypeDecl.isContainer_iff]
  split
  · rw [Trace.text_append, TypeDecl.text_projectFields, TypeDecl.text_projectMethods]
  · rw [TypeDecl.text_projectBlocks]

/-- A base that the kind implies is not named, and a block without members stays. -/
example :
    TypeDecl.source
        { name := "Unit"
          namespaceName := "App"
          kind := .valueType
          bases := [.inNamespace "System" "ValueType"] } {} =
      "module App;\n\nstruct Unit \x7b\n\n\x7d\n\nimplement Unit \x7b\n\x7d\n" := by
  decide

end CilSketch
