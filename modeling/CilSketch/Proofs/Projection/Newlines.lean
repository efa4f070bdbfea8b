import CilSketch.Proofs.Page.Lines
import CilSketch.Proofs.Projection.Legibility

/-!
The newlines that each construct shows inside its tokens. Names and texts are copied as they are, so
their newlines are shown; reserved words, short names of types and numerals have none.
-/

set_option autoImplicit false

namespace CilSketch

section Literals

theorem newlines_ofList (chars : List Char) :
    newlines (String.ofList chars) = chars.count '\n' := by
  rw [newlines, String.toList_ofList]

theorem newlines_toString (c : Char) : newlines c.toString = if c = '\n' then 1 else 0 := by
  simp [newlines, Char.toString, List.count_singleton]

theorem count_toDigits (n : Nat) : (Nat.toDigits 10 n).count '\n' = 0 := by
  rw [List.count_eq_zero]
  intro member
  have digit := Nat.isDigit_of_mem_toDigits (by decide) (by decide) member
  exact absurd digit (by decide)

theorem newlines_repr (n : Nat) : newlines n.repr = 0 := by
  rw [Nat.repr_eq_ofList_toDigits, newlines_ofList, count_toDigits]

theorem Digits.count_places {base : Nat} (small : base ≤ 16) (positive : 0 < base)
    (width n : Nat) : (places base width n).count '\n' = 0 := by
  induction width generalizing n with
  | zero => rfl
  | succ width ih =>
    have digit : ∀ d < 16, Nat.digitChar d ≠ '\n' := by decide
    have below : n % base < 16 := Nat.lt_of_lt_of_le (Nat.mod_lt n positive) small
    rw [places, List.count_append, ih, List.count_singleton]
    simp [digit _ below]

theorem Digits.newlines_hex (width n : Nat) : newlines (hex width n) = 0 := by
  rw [hex, newlines_ofList, count_places (Nat.le_refl 16) (by decide)]

theorem Decimal.newlines_positional (d : Decimal) : newlines d.positional = 0 := by
  unfold positional
  split
  · rw [newlines_ofList, List.count_append, count_toDigits]
    simp [List.count_replicate]
  · rw [newlines_ofList, List.count_append, count_toDigits, List.count_cons,
      Digits.count_places (by decide) (by decide)]
    rfl

theorem Binary.newlines_toText {format : BinaryFormat} (x : Binary format) :
    newlines x.toText = 0 := by
  unfold toText
  split
  · rfl
  · have sign : newlines (if x.isNegative then "-" else "") = 0 := by split <;> rfl
    have magnitude : newlines (if x.isInfinite then "inf" else x.shortest.positional) = 0 := by
      split
      · rfl
      · exact x.shortest.newlines_positional
    rw [newlines_append, sign, magnitude]

namespace Literal

theorem count_escapeQuotes (chars : List Char) :
    (escapeQuotes chars).count '\n' = chars.count '\n' := by
  fun_induction escapeQuotes chars with
  | case1 => rfl
  | case2 rest ih => simp [ih]
  | case3 c rest _ ih => simp [List.count_cons, ih]

theorem newlines_quoted (text : String) : newlines (quoted text) = newlines text := by
  rw [quoted, newlines_ofList]
  simp [count_escapeQuotes, newlines]

theorem newlines_escapeChar (c : Char) : newlines (escapeChar c) = 0 := by
  unfold escapeChar
  split
  any_goals rfl
  next notNewline _ _ _ =>
    split
    · rw [newlines_append, newlines_append, Digits.newlines_hex]
      rfl
    · rw [newlines_toString, if_neg notNewline]

end Literal

end Literals

/-- The newlines of a constant that its literal shows. Those of a text are all shown, and a newline
that is a character itself unless it is escaped. -/
def Constant.shownNewlines (options : Options) : Constant → Nat
  | .string text => newlines text
  | .char c => if options.escapeChars then 0 else if c = '\n' then 1 else 0
  | .other text => newlines text
  | _ => 0

theorem Literal.newlines_ofConstant (options : Options) (value : Constant) :
    newlines (ofConstant options value).text = value.shownNewlines options := by
  cases value with
  | string text => exact newlines_quoted text
  | char c =>
    have quote : newlines "'" = 0 := rfl
    rw [ofConstant, charText, newlines_append, newlines_append, quote, Constant.shownNewlines]
    split
    · rw [newlines_escapeChar]
    · rw [newlines_toString, Nat.zero_add, Nat.add_zero]
  | boolean flag => cases flag <;> simp [ofConstant, newlines, Constant.shownNewlines]
  | integer number =>
    change newlines number.toInt.repr = 0
    cases number.toInt with
    | ofNat n => exact newlines_repr n
    | negSucc n =>
      change newlines ("-" ++ (n + 1).repr) = 0
      rw [newlines_append, newlines_repr]
      rfl
  | unsigned number => exact newlines_repr _
  | single number => exact number.newlines_toText
  | double number => exact number.newlines_toText
  | other text => rfl

/-- No short name and no name that has one holds a newline. -/
theorem TypeRef.newlines_displayName (ref : TypeRef) :
    newlines ref.displayName = newlines ref.name := by
  have plain : ∀ entry ∈ aliases, newlines entry.typeName = 0 ∧ newlines entry.shortName = 0 := by
    decide
  unfold displayName aliasFor?
  cases found : aliases.find? fun entry => entry.typeName == ref.name with
  | none => rfl
  | some entry =>
    have named : entry.typeName = ref.name := by simpa using List.find?_some found
    obtain ⟨long, short⟩ := plain entry (List.mem_of_find?_eq_some found)
    rw [← named, long]
    exact short

def FieldDecl.shownNewlines (decl : FieldDecl) (options : Options) : Nat :=
  newlines decl.name + newlines decl.type.name +
    match decl.constant with
    | some value => value.shownNewlines options
    | none => 0

def ParameterDecl.shownNewlines (decl : ParameterDecl) : Nat :=
  newlines decl.name + newlines decl.type.name

/-- A constructor does not show its name, and no method shows that it returns nothing. -/
def MethodDecl.shownNewlines (decl : MethodDecl) : Nat :=
  (if decl.isConstructor then 0 else newlines decl.name) +
    (decl.parameters.map ParameterDecl.shownNewlines).sum +
    if decl.returnType.isVoid then 0 else newlines decl.returnType.name

theorem sum_map_eq_zero_iff {α : Type} {items : List α} {count : α → Nat} :
    (items.map count).sum = 0 ↔ ∀ item ∈ items, count item = 0 := by
  rw [List.sum_eq_zero_iff_forall_eq_nat, List.forall_mem_map]

open Trace (uncounted)

theorem uncounted_keyword (word : String) : uncounted (keyword word) = newlines word := by
  simp [keyword, Event.uncounted, newlines]

/-- Reserved words have no newlines. -/
theorem uncounted_keywords {words : List String} (reserved : words ⊆ reservedWords) :
    uncounted (words.flatMap keyword) = 0 := by
  have plain : ∀ word ∈ reservedWords, newlines word = 0 := by decide
  simp only [Trace.uncounted_flatMap, uncounted_keyword]
  exact sum_map_eq_zero_iff.mpr fun word member => plain word (reserved member)

theorem uncounted_foldedBlock (title inner : Trace) :
    uncounted (.foldedBlock title inner) = uncounted title + uncounted inner := by
  have brace : newlines "\x7d" = 0 := rfl
  simp [Trace.foldedBlock, Trace.openBlock, Trace.closeBlock, Trace.brace, Event.uncounted, brace]

theorem TypeRef.uncounted_project (ref : TypeRef) :
    uncounted ref.project = newlines ref.name := by
  simp [project, Event.uncounted, Event.referTo, ref.newlines_displayName]

theorem Literal.uncounted_project (literal : Literal) :
    uncounted literal.project = newlines literal.text := by
  unfold project
  split <;> simp [Event.uncounted]

theorem uncounted_separatedBy {α : Type} {project : α → Trace} {shown : α → Nat}
    (shows : ∀ item, uncounted (project item) = shown item) {separator : String}
    (plain : newlines separator = 0) (items : List α) :
    uncounted (separatedBy separator (items.map project)) = (items.map shown).sum := by
  cases items with
  | nil => rfl
  | cons item rest =>
    rw [List.map_cons, separatedBy_cons, Trace.uncounted_append, Trace.uncounted_flatMap]
    simp [Event.uncounted, plain, shows, Function.comp_def]

namespace FieldDecl

theorem uncounted_projectConstant (decl : FieldDecl) (options : Options) :
    uncounted (decl.projectConstant options) =
      match decl.constant with
      | some value => value.shownNewlines options
      | none => 0 := by
  unfold projectConstant
  cases decl.constant with
  | none => rfl
  | some value =>
    have sign : newlines " = " = 0 := rfl
    simp [Event.uncounted, sign, Literal.uncounted_project, Literal.newlines_ofConstant]

theorem uncounted_project (decl : FieldDecl) (options : Options) :
    uncounted (decl.project options) = decl.shownNewlines options := by
  have name : uncounted [.referTo (.field decl) decl.name true, .text ": "] =
      newlines decl.name := rfl
  have mark : uncounted [.text ";"] = 0 := rfl
  have ending : uncounted [.lineBreak] = 0 := rfl
  simp only [project, projectLine, Trace.uncounted_append, uncounted_keywords decl.keywords_subset,
    name, decl.type.uncounted_project, decl.uncounted_projectConstant options, mark, ending,
    Nat.zero_add, Nat.add_zero, shownNewlines]

end FieldDecl

theorem ParameterDecl.uncounted_project (decl : ParameterDecl) :
    uncounted decl.project = decl.shownNewlines := by
  have name : uncounted [.text decl.name, .text ": "] = newlines decl.name := rfl
  rw [project, Trace.uncounted_append, name, decl.type.uncounted_project, shownNewlines]

namespace MethodDecl

theorem uncounted_projectName (decl : MethodDecl) :
    uncounted decl.projectName = if decl.isConstructor then 0 else newlines decl.name := by
  unfold projectName
  split <;> rfl

theorem uncounted_projectReturn (decl : MethodDecl) :
    uncounted decl.projectReturn =
      if decl.returnType.isVoid then 0 else newlines decl.returnType.name := by
  have arrow : newlines " -> " = 0 := rfl
  unfold projectReturn
  split
  · rfl
  · simp [arrow, Event.uncounted, decl.returnType.uncounted_project]

theorem uncounted_projectTail (decl : MethodDecl) {mark : String} (plain : newlines mark = 0) :
    uncounted (decl.projectTail mark) = uncounted decl.projectReturn := by
  have parenthesis : newlines ")" = 0 := rfl
  simp [projectTail, Event.uncounted, plain, parenthesis]

theorem uncounted_projectBody (decl : MethodDecl) :
    uncounted decl.projectBody = uncounted decl.projectReturn := by
  unfold projectBody
  split
  · simp [uncounted_foldedBlock, decl.uncounted_projectTail (show newlines " \x7b" = 0 from rfl),
      Event.uncounted]
  · simp [decl.uncounted_projectTail (show newlines ";" = 0 from rfl), Event.uncounted]

theorem uncounted_project (decl : MethodDecl) :
    uncounted decl.project = decl.shownNewlines := by
  have parameters : uncounted decl.projectParameters = _ :=
    uncounted_separatedBy ParameterDecl.uncounted_project (by rfl) decl.parameters
  have opening : (Event.text "(").uncounted = 0 := rfl
  simp only [project, projectHead, Trace.uncounted_append, Trace.uncounted_cons,
    uncounted_keywords decl.keywords_subset, decl.uncounted_projectName, opening, parameters,
    decl.uncounted_projectBody, decl.uncounted_projectReturn, Nat.zero_add, shownNewlines]

end MethodDecl

namespace TypeDecl

theorem uncounted_projectNamespace (decl : TypeDecl) :
    uncounted decl.projectNamespace = newlines decl.namespaceName := by
  unfold projectNamespace
  split
  next global =>
    rw [global]
    rfl
  next =>
    have word : uncounted (keyword "module") = 0 := rfl
    rw [Trace.uncounted_append, word, Nat.zero_add]
    rfl

theorem uncounted_projectBases (bases : List TypeRef) :
    uncounted (projectBases bases) = (bases.map fun base => newlines base.name).sum := by
  cases bases with
  | nil => rfl
  | cons base rest =>
    have colon : (Event.text ": ").uncounted = 0 := rfl
    rw [projectBases, Trace.uncounted_cons, colon, Nat.zero_add]
    · exact uncounted_separatedBy TypeRef.uncounted_project rfl (base :: rest)
    · simp

theorem uncounted_projectHeader (decl : TypeDecl) :
    uncounted decl.projectHeader =
      newlines decl.name + (decl.visibleBases.map fun base => newlines base.name).sum := by
  rw [projectHeader, Trace.uncounted_append, uncounted_keywords decl.keywords_subset,
    Trace.uncounted_cons, uncounted_projectBases, Nat.zero_add]
  rfl

theorem uncounted_projectTitle (decl : TypeDecl) :
    uncounted decl.projectTitle = newlines decl.name := by
  have word : uncounted (keyword "implement") = 0 := rfl
  rw [projectTitle, Trace.uncounted_append, word, Nat.zero_add]
  rfl

theorem uncounted_projectFields (decl : TypeDecl) (options : Options) :
    uncounted (decl.projectFields options) =
      (decl.fields.map fun field => field.shownNewlines options).sum := by
  simp only [projectFields, Trace.uncounted_flatMap, FieldDecl.uncounted_project]

theorem uncounted_methods (methods : List MethodDecl) :
    uncounted (methods.flatMap MethodDecl.project) =
      (methods.map MethodDecl.shownNewlines).sum := by
  simp only [Trace.uncounted_flatMap, MethodDecl.uncounted_project]

/-- The name of a type is shown twice, in its header and before its methods. -/
theorem uncounted_projectBlocks (decl : TypeDecl) (options : Options) :
    uncounted (decl.projectBlocks options) =
      uncounted decl.projectHeader + uncounted (decl.projectFields options) + newlines decl.name +
        uncounted decl.projectMethods := by
  have brace : uncounted [.text "\x7b"] = 0 := rfl
  have blank : (Event.text " ").uncounted = 0 := rfl
  have lineBreak : Event.lineBreak.uncounted = 0 := rfl
  simp only [projectBlocks, Trace.uncounted_append, Trace.uncounted_cons, uncounted_foldedBlock,
    uncounted_projectTitle, brace, blank, lineBreak, Nat.zero_add]
  omega

end TypeDecl

end CilSketch
