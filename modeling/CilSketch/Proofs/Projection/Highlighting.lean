import CilSketch.Proofs.Projection.Accents
import CilSketch.Proofs.Projection.Source

/-!
How projected source is highlighted. Each construct of the surface language writes the accents that
its declaration lists, so the spans of a page are known one by one: reserved words, the types that
are shown, and the literals of strings and characters. No name is ever highlighted, and no span
reaches over the end of a line.
-/

set_option autoImplicit false

namespace CilSketch

open Trace (Accented)

namespace Trace.Accented

variable {a b : Trace} {as bs : List Accent}

theorem text (shown : String) (accented : Accented a as) : Accented (.text shown :: a) as :=
  .plain rfl accented

theorem lineBreak (accented : Accented a as) : Accented (.lineBreak :: a) as :=
  .plain rfl accented

theorem single (accent : Accent) : Accented accent.trace [accent] := by
  simpa using Accented.accent accent .nil

theorem append (left : Accented a as) (right : Accented b bs) : Accented (a ++ b) (as ++ bs) := by
  induction left with
  | nil => exact right
  | plain isPlain _ ih => exact .plain isPlain ih
  | accent accent _ ih =>
    rw [List.append_assoc]
    exact .accent accent ih

section Items

variable {α : Type} {project : α → Trace} {accents : α → List Accent}
  (accented : ∀ item, Accented (project item) (accents item))

include accented

theorem flatMap (items : List α) : Accented (items.flatMap project) (items.flatMap accents) := by
  induction items with
  | nil => exact .nil
  | cons item rest ih => exact (accented item).append ih

theorem separatedBy (separator : String) (items : List α) :
    Accented (separatedBy separator (items.map project)) (items.flatMap accents) := by
  cases items with
  | nil => exact .nil
  | cons item rest =>
    rw [List.map_cons, separatedBy_cons, List.flatMap_map, List.flatMap_cons]
    refine (accented item).append (.flatMap ?_ rest)
    intro other
    exact .text separator (accented other)

end Items

end Trace.Accented

theorem accented_keyword (word : String) : Accented (keyword word) [.word word] :=
  .single (.word word)

theorem accented_keywords (words : List String) :
    Accented (words.flatMap keyword) (words.map .word) := by
  rw [List.map_eq_flatMap]
  exact .flatMap accented_keyword words

theorem Trace.Accented.foldedBlock {title inner : Trace} {as bs : List Accent}
    (accentedTitle : Accented title as) (accentedInner : Accented inner bs) :
    Accented (.foldedBlock title inner) (as ++ bs) := by
  have start : Accented (.foldStart :: title) as := .plain rfl accentedTitle
  have step : Accented [.lineBreak, .indent] [] := .lineBreak (.plain rfl .nil)
  have opening := start.append step
  have closing : Accented .closeBlock [] :=
    .plain rfl (.text _ (.lineBreak (.plain rfl .nil)))
  simpa [Trace.foldedBlock, Trace.openBlock] using (opening.append accentedInner).append closing

theorem TypeRef.accented_project (ref : TypeRef) : Accented ref.project [.type ref] :=
  .single (.type ref)

/-- Numbers and unknown constants do not stand out. -/
def Constant.accents (value : Constant) (options : Options) : List Accent :=
  match value with
  | .string _ | .char _ => [.quotation (value.source options)]
  | .boolean flag => [.flag flag]
  | _ => []

theorem Constant.accented_literal (value : Constant) (options : Options) :
    Accented (Literal.ofConstant options value).project (value.accents options) := by
  cases value with
  | string | char =>
    rw [accents, ← Literal.text_ofConstant]
    exact .single (.quotation _)
  | boolean flag => exact .single (.flag flag)
  | integer | unsigned | single | double | other => exact .text _ .nil

namespace FieldDecl

def accents (decl : FieldDecl) (options : Options) : List Accent :=
  decl.keywords.map .word ++ [.fieldName decl, .type decl.type] ++
    decl.constant.toList.flatMap fun value => value.accents options

/-- The literal of the constant, if that is a string or a character. -/
def textLiteral? (decl : FieldDecl) (options : Options) : Option String :=
  match decl.constant with
  | some (.string text) => some (Constant.source options (.string text))
  | some (.char c) => some (Constant.source options (.char c))
  | _ => none

theorem accented_projectConstant (decl : FieldDecl) (options : Options) :
    Accented (decl.projectConstant options)
      (decl.constant.toList.flatMap fun value => value.accents options) := by
  unfold projectConstant
  cases decl.constant with
  | none => exact .nil
  | some value => simpa using Accented.text _ (value.accented_literal options)

theorem accented_project (decl : FieldDecl) (options : Options) :
    Accented (decl.project options) (decl.accents options) := by
  have name : Accented [.referTo (.field decl) decl.name true, .text ": "] [.fieldName decl] :=
    (Accented.single (.fieldName decl)).append (.text ": " .nil)
  have type := ((accented_keywords decl.keywords).append name).append decl.type.accented_project
  have line := (type.append (decl.accented_projectConstant options)).append (.text ";" .nil)
  simpa [project, projectLine, accents] using line.append (.lineBreak .nil)

end FieldDecl

theorem ParameterDecl.accented_project (decl : ParameterDecl) :
    Accented decl.project [.type decl.type] :=
  .text _ (.text _ decl.type.accented_project)

namespace MethodDecl

def accents (decl : MethodDecl) : List Accent :=
  decl.keywords.map .word ++
    (if decl.isConstructor then .constructorName decl else .methodName decl) ::
      decl.signatureTypes.map .type

theorem accented_projectName (decl : MethodDecl) :
    Accented decl.projectName
      [if decl.isConstructor then .constructorName decl else .methodName decl] := by
  unfold projectName
  split
  · exact .single (.constructorName decl)
  · exact .single (.methodName decl)

theorem accented_projectParameters (decl : MethodDecl) :
    Accented decl.projectParameters
      (decl.parameters.map fun parameter => .type parameter.type) := by
  have separated := Accented.separatedBy ParameterDecl.accented_project ", " decl.parameters
  rwa [← List.map_eq_flatMap] at separated

theorem accented_projectReturn (decl : MethodDecl) :
    Accented decl.projectReturn
      ((if decl.returnType.isVoid then [] else [decl.returnType]).map .type) := by
  unfold projectReturn
  split
  · exact .nil
  · exact .text _ decl.returnType.accented_project

theorem accented_projectTail (decl : MethodDecl) (mark : String) :
    Accented (decl.projectTail mark)
      ((if decl.returnType.isVoid then [] else [decl.returnType]).map .type) := by
  have tail := decl.accented_projectReturn.append (.text mark .nil)
  rw [List.append_nil] at tail
  exact .text ")" tail

theorem accented_projectBody (decl : MethodDecl) :
    Accented decl.projectBody
      ((if decl.returnType.isVoid then [] else [decl.returnType]).map .type) := by
  unfold projectBody
  split
  · have block := (decl.accented_projectTail " \x7b").foldedBlock .nil
    simpa using block.append (.lineBreak (.lineBreak .nil))
  · simpa using (decl.accented_projectTail ";").append (.lineBreak .nil)

theorem accented_project (decl : MethodDecl) : Accented decl.project decl.accents := by
  have name := (accented_keywords decl.keywords).append decl.accented_projectName
  have head := name.append (.text "(" decl.accented_projectParameters)
  simpa [project, projectHead, accents, signatureTypes, Function.comp_def] using
    head.append decl.accented_projectBody

end MethodDecl

namespace TypeDecl

def accents (decl : TypeDecl) (options : Options) : List Accent :=
  let fields := decl.fields.flatMap fun field => field.accents options
  let methods := decl.methods.flatMap MethodDecl.accents
  (if decl.namespaceName = "" then [] else [.word "module"]) ++
    if decl.isContainer options then fields ++ methods
    else
      decl.keywords.map .word ++ [.ownName decl true] ++ decl.visibleBases.map .type ++ fields ++
        [.word "implement", .ownName decl false] ++ methods

theorem accented_projectNamespace (decl : TypeDecl) :
    Accented decl.projectNamespace
      (if decl.namespaceName = "" then [] else [.word "module"]) := by
  unfold projectNamespace
  split
  · exact .nil
  · exact (accented_keyword "module").append
      (.text _ (.text _ (.lineBreak (.lineBreak .nil))))

theorem accented_projectBases (bases : List TypeRef) :
    Accented (projectBases bases) (bases.map .type) := by
  cases bases with
  | nil => exact .nil
  | cons base rest =>
    rw [List.map_eq_flatMap]
    exact .text ": " (.separatedBy TypeRef.accented_project ", " (base :: rest))

theorem accented_projectHeader (decl : TypeDecl) :
    Accented decl.projectHeader
      (decl.keywords.map .word ++ [.ownName decl true] ++ decl.visibleBases.map .type) := by
  have name := (accented_keywords decl.keywords).append (.single (.ownName decl true))
  have whole := name.append (accented_projectBases decl.visibleBases)
  simpa [projectHeader, Accent.trace, Accent.category?, Accent.tokens] using whole

theorem accented_projectTitle (decl : TypeDecl) :
    Accented decl.projectTitle [.word "implement", .ownName decl false] := by
  have name := (Accented.single (.ownName decl false)).append (.text " \x7b" .nil)
  exact (accented_keyword "implement").append name

theorem accented_projectBlocks (decl : TypeDecl) (options : Options) :
    Accented (decl.projectBlocks options)
      (decl.keywords.map .word ++ [.ownName decl true] ++ decl.visibleBases.map .type ++
        (decl.fields.flatMap fun field => field.accents options) ++
        [.word "implement", .ownName decl false] ++ decl.methods.flatMap MethodDecl.accents) := by
  have brace : Accented [.text "\x7b"] [] := .text _ .nil
  have fields := brace.foldedBlock (.lineBreak
    (.flatMap (fun field => field.accented_project options) decl.fields))
  have methods := decl.accented_projectTitle.foldedBlock
    (.flatMap MethodDecl.accented_project decl.methods)
  have whole := (decl.accented_projectHeader.append (.text " " fields)).append (.lineBreak methods)
  simpa [projectBlocks, projectFields, projectMethods] using whole

theorem accented_project (decl : TypeDecl) (options : Options) :
    Accented (decl.project options) (decl.accents options) := by
  refine decl.accented_projectNamespace.append ?_
  split
  · exact (Accented.flatMap (fun field => field.accented_project options) decl.fields).append
      (.flatMap MethodDecl.accented_project decl.methods)
  · exact decl.accented_projectBlocks options

/-- What references are made for, in order. -/
def mentions (decl : TypeDecl) (options : Options) : List Mention :=
  (decl.accents options).filterMap Accent.mention?

/-- The types that source shows: bases, types of fields, and those of signatures. -/
def shownTypes (decl : TypeDecl) (options : Options) : List TypeRef :=
  (if decl.isContainer options then [] else decl.visibleBases) ++ decl.fields.map FieldDecl.type ++
    decl.methods.flatMap MethodDecl.signatureTypes

/-- The literals of the strings and characters among the constants of the fields. -/
def textLiterals (decl : TypeDecl) (options : Options) : List String :=
  decl.fields.filterMap fun field => field.textLiteral? options

end TypeDecl

/-- What may have the style of keywords. -/
def IsReservedText (text : String) : Prop :=
  (∃ word ∈ reservedWords, text = word ++ " ") ∨ text ∈ ["constructor", "true", "false"]

namespace Accent

def type? : Accent → Option TypeRef
  | .type ref => some ref
  | _ => none

def quotation? : Accent → Option String
  | .quotation shown => some shown
  | _ => none

theorem type?_mention? (accent : Accent) :
    accent.mention?.bind Mention.type? = accent.type? := by
  cases accent <;> rfl

theorem isSome_type?_iff {accent : Accent} {mention : Mention}
    (mentions : accent.mention? = some mention) :
    mention.type?.isSome = true ↔ accent.category? = some .type := by
  cases accent <;> cases mentions <;> simp [Mention.type?, category?]

/-- The texts in one style, if a view tells of each accent whether it has the style and which text.
-/
theorem map_text_filter {β : Type} {view : Accent → Option β} {shown : β → String}
    {category : StyleCategory}
    (views : ∀ accent : Accent, (view accent).map shown =
      if accent.category? = some category then some accent.text else none)
    (accents : List Accent) :
    (accents.filter (·.category? = some category)).map text =
      (accents.filterMap view).map shown := by
  rw [List.map_filterMap, funext views]
  induction accents with
  | nil => rfl
  | cons accent rest ih => by_cases styled : accent.category? = some category <;> simp [styled, ih]

theorem map_text_types (accents : List Accent) :
    (accents.filter (·.category? = some .type)).map text =
      (accents.filterMap type?).map TypeRef.source := by
  apply map_text_filter
  intro accent
  cases accent with
  | type ref => exact congrArg some ref.displayName_eq_source.symm
  | word | flag | quotation | constructorName | ownName | fieldName | methodName => rfl

theorem map_text_quotations (accents : List Accent) :
    (accents.filter (·.category? = some .string)).map text = accents.filterMap quotation? := by
  rw [← List.map_id (accents.filterMap quotation?)]
  apply map_text_filter
  intro accent
  cases accent <;> rfl

end Accent

/-- A view of accents that sees neither words nor names. -/
structure Accent.Overlooks {β : Type} (view : Accent → Option β) : Prop where
  word : ∀ spelled, view (.word spelled) = none
  constructorName : ∀ decl, view (.constructorName decl) = none
  ownName : ∀ decl isDefinition, view (.ownName decl isDefinition) = none
  fieldName : ∀ decl, view (.fieldName decl) = none
  methodName : ∀ decl, view (.methodName decl) = none

section Views

variable {β : Type} {view : Accent → Option β} (overlooks : Accent.Overlooks view)

include overlooks

theorem filterMap_words (words : List String) : (words.map Accent.word).filterMap view = [] := by
  rw [List.filterMap_map]
  exact List.filterMap_eq_nil_iff.mpr fun spelled _ => overlooks.word spelled

theorem FieldDecl.filterMap_accents (decl : FieldDecl) (options : Options) :
    (decl.accents options).filterMap view =
      (view (.type decl.type)).toList ++
        (decl.constant.toList.flatMap fun value => value.accents options).filterMap view := by
  rw [accents, List.filterMap_append, List.filterMap_append, filterMap_words overlooks,
    List.filterMap_cons_none (overlooks.fieldName decl), List.filterMap_cons]
  cases view (.type decl.type) <;> rfl

theorem MethodDecl.filterMap_accents (decl : MethodDecl) :
    decl.accents.filterMap view = (decl.signatureTypes.map .type).filterMap view := by
  have name : view (if decl.isConstructor then .constructorName decl else .methodName decl) =
      none := by
    split <;> simp [overlooks.constructorName, overlooks.methodName]
  rw [accents, List.filterMap_append, filterMap_words overlooks, List.filterMap_cons_none name]
  rfl

theorem TypeDecl.filterMap_accents (decl : TypeDecl) (options : Options) :
    (decl.accents options).filterMap view =
      (if decl.isContainer options then [] else (decl.visibleBases.map .type).filterMap view) ++
        (decl.fields.flatMap fun field => (field.accents options).filterMap view) ++
        decl.methods.flatMap fun method => method.accents.filterMap view := by
  have front : (if decl.namespaceName = "" then [] else [Accent.word "module"]).filterMap view =
      [] := by
    split <;> simp [overlooks.word]
  have own (isDefinition : Bool) : [Accent.ownName decl isDefinition].filterMap view = [] := by
    simp [overlooks.ownName]
  have between : [.word "implement", .ownName decl false].filterMap view = [] := by
    simp [overlooks.word, overlooks.ownName]
  unfold accents
  rw [List.filterMap_append, front, List.nil_append]
  split
  · simp only [List.filterMap_append, List.filterMap_flatMap, List.nil_append]
  · simp only [List.filterMap_append, List.filterMap_flatMap, filterMap_words overlooks, own,
      between, List.nil_append, List.append_nil]

end Views

namespace TypeDecl

theorem filterMap_type?_accents (decl : TypeDecl) (options : Options) :
    (decl.accents options).filterMap Accent.type? = decl.shownTypes options := by
  have overlooks : Accent.Overlooks Accent.type? := by constructor <;> intros <;> rfl
  have types (refs : List TypeRef) : (refs.map .type).filterMap Accent.type? = refs := by
    rw [List.filterMap_map]
    exact List.filterMap_some
  have constant (field : FieldDecl) : (field.constant.toList.flatMap fun value =>
      value.accents options).filterMap Accent.type? = [] := by
    cases field.constant with
    | none => rfl
    | some value => cases value <;> rfl
  simp only [filterMap_accents overlooks, FieldDecl.filterMap_accents overlooks,
    MethodDecl.filterMap_accents overlooks, types, constant, Accent.type?, Option.toList_some,
    List.append_nil, ← List.map_eq_flatMap]
  rfl

theorem filterMap_quotation?_accents (decl : TypeDecl) (options : Options) :
    (decl.accents options).filterMap Accent.quotation? = decl.textLiterals options := by
  have overlooks : Accent.Overlooks Accent.quotation? := by constructor <;> intros <;> rfl
  have types (refs : List TypeRef) : (refs.map .type).filterMap Accent.quotation? = [] := by
    rw [List.filterMap_map]
    exact List.filterMap_eq_nil_iff.mpr fun ref _ => rfl
  have constant (field : FieldDecl) : (field.constant.toList.flatMap fun value =>
      value.accents options).filterMap Accent.quotation? =
        (field.textLiteral? options).toList := by
    unfold FieldDecl.textLiteral?
    cases field.constant with
    | none => rfl
    | some value => cases value <;> rfl
  simp only [filterMap_accents overlooks, FieldDecl.filterMap_accents overlooks,
    MethodDecl.filterMap_accents overlooks, types, constant, Accent.quotation?, textLiterals,
    List.filterMap_eq_flatMap_toList]
  simp

end TypeDecl

section Words

theorem FieldDecl.mem_reservedWords {decl : FieldDecl} {options : Options} {spelled : String}
    (member : .word spelled ∈ decl.accents options) : spelled ∈ reservedWords := by
  apply decl.keywords_subset
  cases isConstant : decl.constant with
  | none => simpa [accents, isConstant] using member
  | some value => cases value <;> simpa [accents, isConstant, Constant.accents] using member

theorem MethodDecl.mem_reservedWords {decl : MethodDecl} {spelled : String}
    (member : .word spelled ∈ decl.accents) : spelled ∈ reservedWords := by
  apply decl.keywords_subset
  cases isConstructor : decl.isConstructor <;> simpa [accents, isConstructor] using member

theorem TypeDecl.mem_reservedWords {decl : TypeDecl} {options : Options} {spelled : String}
    (member : .word spelled ∈ decl.accents options) : spelled ∈ reservedWords := by
  have words : spelled = "module" ∨ spelled ∈ decl.keywords ∨
      (∃ field ∈ decl.fields, .word spelled ∈ field.accents options) ∨ spelled = "implement" ∨
      ∃ method ∈ decl.methods, .word spelled ∈ method.accents := by
    rcases List.mem_append.mp member with front | rest
    · split at front <;> simp_all
    · split at rest
      · rcases List.mem_append.mp rest with inField | inMethod
        · exact .inr (.inr (.inl (List.mem_flatMap.mp inField)))
        · exact .inr (.inr (.inr (.inr (List.mem_flatMap.mp inMethod))))
      · exact .inr (by simpa using rest)
  rcases words with rfl | own | ⟨field, -, inField⟩ | rfl | ⟨method, -, inMethod⟩
  · decide
  · exact decl.keywords_subset own
  · exact FieldDecl.mem_reservedWords inField
  · decide
  · exact MethodDecl.mem_reservedWords inMethod

/-- Only words of the language have the style of keywords. -/
theorem TypeDecl.isReservedText_of_mem {decl : TypeDecl} {options : Options} {accent : Accent}
    (member : accent ∈ decl.accents options) (styled : accent.category? = some .keyword) :
    IsReservedText accent.text := by
  cases accent with
  | word spelled => exact .inl ⟨spelled, decl.mem_reservedWords member, rfl⟩
  | flag value => cases value <;> exact .inr (by simp [Accent.text])
  | constructorName => exact .inr (by simp [Accent.text])
  | quotation | type | ownName | fieldName | methodName => cases styled

end Words

def Reference.extent (reference : Reference) : Interval :=
  ⟨reference.start, reference.stop⟩

namespace Page

def spansIn (page : Page) (category : StyleCategory) : List Span :=
  page.spans.filter (·.style = category.style)

def shownBy (page : Page) (span : Span) : String :=
  page.slice span.start span.stop

/-- The references of a page to types, where the mentions say what each was made for. -/
def typeReferences (page : Page) (mentions : List Mention) : List Reference :=
  ((mentions.zip page.references).filter fun made => made.1.type?.isSome).map Prod.snd

end Page

namespace Placed

theorem extent_of_span? {placed : Placed} {span : Span} (spanned : placed.span? = some span) :
    placed.extent = span.extent := by
  obtain ⟨category, -, rfl⟩ := Option.map_eq_some_iff.mp spanned
  rfl

theorem filter_span? (places : List Placed) (category : StyleCategory) :
    (places.filterMap span?).filter (·.style = category.style) =
      (places.filter (·.accent.category? = some category)).map fun placed =>
        ⟨placed.extent.start, placed.extent.stop, category.style⟩ := by
  induction places with
  | nil => rfl
  | cons placed rest ih =>
    cases styled : placed.accent.category? with
    | none => simp [span?, styled, ih]
    | some own =>
      have same : own.style = category.style ↔ own = category :=
        StyleCategory.style_injective.eq_iff
      by_cases equal : own = category <;> simp [span?, styled, ih, same, equal]

theorem filter_reference? (places : List Placed) :
    ((((places.map accent).filterMap Accent.mention?).zip (places.filterMap reference?)).filter
      fun made => made.1.type?.isSome).map (Reference.extent ∘ Prod.snd) =
        (places.filter (·.accent.category? = some .type)).map extent := by
  induction places with
  | nil => rfl
  | cons placed rest ih =>
    cases mentions : placed.accent.mention? with
    | none =>
      have unstyled : placed.accent.category? ≠ some .type := by
        intro styled
        cases isAccent : placed.accent <;> simp_all [Accent.mention?, Accent.category?]
      simpa [reference?, mentions, unstyled] using ih
    | some mention =>
      have isType := Accent.isSome_type?_iff mentions
      by_cases styled : placed.accent.category? = some .type
      · simpa [reference?, mentions, styled, isType.mpr styled, Reference.extent] using ih
      · have other : mention.type?.isSome = false := by
          simpa using fun isSome => styled (isType.mp isSome)
        simpa [reference?, mentions, styled, other] using ih

end Placed

namespace Page

/-- The highlighting of a page that shows a declaration. -/
structure Highlights (page : Page) (decl : TypeDecl) (options : Options) : Prop where
  forward : ∀ span ∈ page.spans, span.start ≤ span.stop
  ordered : page.spans.Pairwise fun earlier later => earlier.stop ≤ later.start
  references : page.references.map page.readBack = (decl.mentions options).map Mention.event
  types : (page.spansIn .type).map Span.extent =
    (page.typeReferences (decl.mentions options)).map Reference.extent
  typeNames : (page.spansIn .type).map page.shownBy =
    (decl.shownTypes options).map TypeRef.source
  keywords : ∀ span ∈ page.spansIn .keyword, IsReservedText (page.shownBy span)
  quotations : (page.spansIn .string).map page.shownBy = decl.textLiterals options

section Places

variable {page : Page} {places : List Placed}
  (spans : page.spans = places.filterMap Placed.span?)
  (covers : ∀ placed ∈ places,
    IsPart page.text placed.extent.start placed.extent.stop placed.accent.text)

include spans

theorem pairwise_spans
    (ordered : places.Pairwise fun earlier later => earlier.extent.stop ≤ later.extent.start) :
    page.spans.Pairwise fun earlier later => earlier.stop ≤ later.start := by
  rw [spans]
  refine List.pairwise_filterMap.mpr (ordered.imp ?_)
  intro earlier later apart first isFirst second isSecond
  rwa [Placed.extent_of_span? isFirst, Placed.extent_of_span? isSecond] at apart

theorem map_extent_spansIn (category : StyleCategory) :
    (page.spansIn category).map Span.extent =
      (places.filter (·.accent.category? = some category)).map Placed.extent := by
  rw [spansIn, spans, Placed.filter_span?, List.map_map]
  rfl

include covers

theorem start_le_stop_of_mem_spans {span : Span} (member : span ∈ page.spans) :
    span.start ≤ span.stop := by
  rw [spans] at member
  obtain ⟨placed, inPlaces, spanned⟩ := List.mem_filterMap.mp member
  have forward := (covers placed inPlaces).start_le_stop
  rwa [Placed.extent_of_span? spanned] at forward

theorem map_shownBy_spansIn (category : StyleCategory) :
    (page.spansIn category).map page.shownBy =
      ((places.map Placed.accent).filter (·.category? = some category)).map Accent.text := by
  rw [spansIn, spans, Placed.filter_span?, List.map_map, List.filter_map, List.map_map]
  refine List.map_congr_left ?_
  intro placed member
  exact (covers placed (List.mem_of_mem_filter member)).page_slice_eq

end Places

end Page

/-- The references that an accented trace makes are those of its accents. -/
theorem Trace.Accented.filter_isReference {trace : Trace} {accents : List Accent}
    (accented : trace.Accented accents) :
    trace.filter Event.isReference = (accents.filterMap Accent.mention?).map Mention.event := by
  induction accented with
  | nil => rfl
  | @plain event rest accents isPlain _ ih =>
    have other : event.isReference = false := by
      simp_all [Event.isPlain]
    simp [other, ih]
  | accent accent _ ih =>
    rw [List.filter_append, ih, accent.filter_isReference_trace, ← List.map_append,
      List.filterMap_cons]
    cases accent.mention? <;> rfl

/-- A page that a declaration is projected to is highlighted as the declaration says, and no line
ends inside a span. -/
theorem projection_highlighted_exactly (unit : String) (decl : TypeDecl) (options : Options) :
    ((Page.blank unit).play (decl.project options)).Highlights decl options ∧
      (decl.mentions options).filterMap Mention.type? = decl.shownTypes options ∧
      ∀ before later, decl.project options = before ++ .lineBreak :: later →
        ((Page.blank unit).play before).openSpans = [] := by
  let page := (Page.blank unit).play (decl.project options)
  have accented := decl.accented_project options
  obtain ⟨places, accents, placed⟩ :=
    Page.PlacesAccents.of_accented accented (Page.blank unit)
  have spans : page.spans = places.filterMap Placed.span? := placed.spans_eq
  have references : page.references = places.filterMap Placed.reference? := placed.references_eq
  have shown := Page.map_shownBy_spansIn spans placed.covers
  refine ⟨⟨?_, ?_, ?_, ?_, ?_, ?_, ?_⟩, ?_, placed.unbroken⟩
  · exact fun span => Page.start_le_stop_of_mem_spans spans placed.covers
  · exact Page.pairwise_spans spans placed.ordered
  · have indexes := (Page.IndexesReferences.blank unit).play (decl.project options)
    rw [indexes.readBack]
    exact accented.filter_isReference
  · rw [Page.map_extent_spansIn spans, ← Placed.filter_reference?, Page.typeReferences,
      references, TypeDecl.mentions, ← accents, List.map_map]
  · rw [shown, accents, Accent.map_text_types, decl.filterMap_type?_accents]
  · intro span member
    have covered := List.mem_map_of_mem (f := page.shownBy) member
    rw [shown, accents] at covered
    obtain ⟨accent, styled, text⟩ := List.mem_map.mp covered
    obtain ⟨inAccents, isKeyword⟩ := List.mem_filter.mp styled
    rw [← text]
    exact TypeDecl.isReservedText_of_mem inAccents (by simpa using isKeyword)
  · rw [shown, accents, Accent.map_text_quotations, decl.filterMap_quotation?_accents]
  · rw [TypeDecl.mentions, List.filterMap_filterMap, funext Accent.type?_mention?,
      decl.filterMap_type?_accents]

/-- A type whose names are reserved words, with a constant of two lines. -/
def reservedNames : TypeDecl where
  name := "class"
  fields := [{ name := "let", type := ⟨"mut", "mut"⟩, constant := some (.string "a\nb") }]

theorem reservedNames_highlighted :
    let page := (Page.blank "\t").play (reservedNames.project {})
    (page.spansIn .type).map page.shownBy = ["mut"] ∧
      (page.spansIn .string).map page.shownBy = ["\"a\nb\""] ∧
      ∃ before later, reservedNames.project {} = before ++ .lineBreak :: later ∧
        ((Page.blank "\t").play before).openSpans = [] := by
  intro page
  obtain ⟨highlights, -, unbroken⟩ := projection_highlighted_exactly "\t" reservedNames {}
  have split : reservedNames.project {} =
      (reservedNames.project {}).take 8 ++ .lineBreak :: (reservedNames.project {}).drop 9 := by
    rfl
  refine ⟨?_, ?_, _, _, split, unbroken _ _ split⟩
  · rw [highlights.typeNames]
    decide
  · rw [highlights.quotations]
    decide

end CilSketch
