import CilSketch.Proofs.Page.Blocks
import CilSketch.Proofs.Page.Laminar
import CilSketch.Proofs.Projection.Members

/-!
What stands out in projected source: reserved words, literals with a style, names and types. A trace
is accented by a list of these if it writes them in order and has only plain text and layout between
them. On a page every accent then has a place of its own, and the spans and references of the page
are those of the accents, at their places.
-/

set_option autoImplicit false

namespace CilSketch

/-- Something that a reference is made for, and the text that shows it. -/
structure Mention where
  entity : Entity
  shown : String
  isDefinition : Bool
  deriving DecidableEq, Repr

namespace Mention

def event (mention : Mention) : Event :=
  .referTo mention.entity mention.shown mention.isDefinition

def type? (mention : Mention) : Option TypeRef :=
  match mention.entity with
  | .type ref => some ref
  | _ => none

end Mention

namespace Event

def isSpan : Event → Bool
  | .beginSpan _ | .endSpan => true
  | _ => false

theorem opens?_ne_span {event : Event} (other : event.isSpan = false) :
    event.opens? ≠ some .span := by
  intro opens
  obtain ⟨style, rfl⟩ := opens?_eq_span_iff.mp opens
  simp [isSpan] at other

theorem closes?_ne_span {event : Event} (other : event.isSpan = false) :
    event.closes? ≠ some .span := by
  intro closes
  obtain rfl := closes?_eq_span_iff.mp closes
  simp [isSpan] at other

end Event

inductive Accent where
  | word (spelled : String)
  | flag (value : Bool)
  /-- The literal of a string or a character. -/
  | quotation (shown : String)
  | type (ref : TypeRef)
  | constructorName (decl : MethodDecl)
  | ownName (decl : TypeDecl) (isDefinition : Bool)
  | fieldName (decl : FieldDecl)
  | methodName (decl : MethodDecl)
  deriving DecidableEq, Repr

namespace Accent

/-- Names have no style, unless a reserved word stands for the name. -/
def category? : Accent → Option StyleCategory
  | .word _ | .flag _ | .constructorName _ => some .keyword
  | .quotation _ => some .string
  | .type _ => some .type
  | .ownName _ _ | .fieldName _ | .methodName _ => none

def mention? : Accent → Option Mention
  | .word _ | .flag _ | .quotation _ => none
  | .type ref => some ⟨.type ref, ref.displayName, false⟩
  | .constructorName decl => some ⟨.method decl, "constructor", true⟩
  | .ownName decl isDefinition => some ⟨.definition decl, decl.name, isDefinition⟩
  | .fieldName decl => some ⟨.field decl, decl.name, true⟩
  | .methodName decl => some ⟨.method decl, decl.name, true⟩

def text : Accent → String
  | .word spelled => spelled ++ " "
  | .flag value => if value then "true" else "false"
  | .quotation shown => shown
  | .type ref => ref.displayName
  | .constructorName _ => "constructor"
  | .ownName decl _ => decl.name
  | .fieldName decl => decl.name
  | .methodName decl => decl.name

def tokens : Accent → Trace
  | .word spelled => [.text spelled, .text " "]
  | .flag value => [.text (if value then "true" else "false")]
  | .quotation shown => [.text shown]
  | .type ref => [.referTo (.type ref) ref.displayName false]
  | .constructorName decl => [.referTo (.method decl) "constructor" true]
  | .ownName decl isDefinition => [.referTo (.definition decl) decl.name isDefinition]
  | .fieldName decl => [.referTo (.field decl) decl.name true]
  | .methodName decl => [.referTo (.method decl) decl.name true]

def trace (accent : Accent) : Trace :=
  match accent.category? with
  | some category => .beginSpan category.style :: accent.tokens ++ [.endSpan]
  | none => accent.tokens

theorem text_tokens (accent : Accent) : accent.tokens.text = accent.text := by
  cases accent <;> simp [tokens, text, Event.referTo, Event.written]

theorem staysInLine_tokens (accent : Accent) :
    ∀ event ∈ accent.tokens, event.staysInLine = true ∧ event.isSpan = false := by
  cases accent <;> simp [tokens, Event.referTo, Event.staysInLine, Event.isSpan]

theorem tokens_of_mention? {accent : Accent} {mention : Mention}
    (mentions : accent.mention? = some mention) :
    accent.tokens = [mention.event] ∧ accent.text = mention.shown := by
  cases accent <;> cases mentions <;> exact ⟨rfl, rfl⟩

theorem filter_isReference_trace (accent : Accent) :
    accent.trace.filter Event.isReference = accent.mention?.toList.map Mention.event := by
  cases accent <;> rfl

theorem trace_of_category? {accent : Accent} {category : StyleCategory}
    (styled : accent.category? = some category) :
    accent.trace = .beginSpan category.style :: accent.tokens ++ [.endSpan] := by
  rw [trace, styled]

theorem trace_of_unstyled {accent : Accent} (unstyled : accent.category? = none) :
    accent.trace = accent.tokens := by
  rw [trace, unstyled]

/-- Whatever has no style is a name. -/
theorem exists_mention_of_unstyled {accent : Accent} (unstyled : accent.category? = none) :
    ∃ mention, accent.mention? = some mention := by
  cases accent <;> simp_all [category?, mention?]

theorem inLine_trace (accent : Accent) : accent.trace.InLine := by
  have tokens : accent.tokens.InLine := fun event member =>
    (accent.staysInLine_tokens event member).1
  cases styled : accent.category? with
  | none => rwa [trace_of_unstyled styled]
  | some category =>
    rw [trace_of_category? styled]
    exact .append (.cons rfl tokens) (.cons rfl .nil)

/-- No line ends inside an accent, so a line break comes behind all of it. -/
theorem exists_behind_of_lineBreak {accent : Accent} {rest before later : Trace}
    (split : accent.trace ++ rest = before ++ .lineBreak :: later) :
    ∃ behind, before = accent.trace ++ behind ∧ rest = behind ++ .lineBreak :: later := by
  rcases List.append_eq_append_iff.mp split with ⟨behind, front, back⟩ | ⟨inside, front, back⟩
  · exact ⟨behind, front, back⟩
  · cases inside with
    | nil => exact ⟨[], by simpa using front.symm, back.symm⟩
    | cons event inside =>
      obtain ⟨rfl, -⟩ := List.cons.inj back
      have stays := accent.inLine_trace .lineBreak (by simp [front])
      exact absurd rfl (Event.ne_lineBreak_of_staysInLine stays)

theorem text_trace (accent : Accent) : accent.trace.text = accent.text := by
  cases styled : accent.category? with
  | none => rw [trace_of_unstyled styled, text_tokens]
  | some category =>
    rw [trace_of_category? styled, Trace.text_append, Trace.text_cons, text_tokens]
    simp [Event.written]

theorem startsLine_trace (accent : Accent) : accent.trace.any Event.startsLine = true := by
  cases styled : accent.category? with
  | none =>
    obtain ⟨mention, mentions⟩ := exists_mention_of_unstyled styled
    rw [trace_of_unstyled styled, (tokens_of_mention? mentions).1]
    rfl
  | some category =>
    rw [trace_of_category? styled]
    rfl

end Accent

/-- Text and layout: all that makes neither a span nor a reference. -/
def Event.isPlain (event : Event) : Bool :=
  !event.isSpan && !event.isReference

/-- A trace that writes the accents of a list, in order. -/
inductive Trace.Accented : Trace → List Accent → Prop where
  | nil : Accented [] []
  | plain {event : Event} {rest : Trace} {accents : List Accent} :
      event.isPlain = true → Accented rest accents → Accented (event :: rest) accents
  | accent (accent : Accent) {rest : Trace} {accents : List Accent} :
      Accented rest accents → Accented (accent.trace ++ rest) (accent :: accents)

/-- An accent and where it stands on a page. -/
structure Placed where
  accent : Accent
  extent : Interval

namespace Placed

def span? (placed : Placed) : Option Span :=
  placed.accent.category?.map fun category =>
    ⟨placed.extent.start, placed.extent.stop, category.style⟩

def reference? (placed : Placed) : Option Reference :=
  placed.accent.mention?.map fun mention =>
    ⟨placed.extent.start, placed.extent.stop, mention.entity.target, mention.isDefinition⟩

end Placed

namespace Page

/-- Where an accent comes to stand that is written next. -/
def place (page : Page) (accent : Accent) : Placed :=
  ⟨accent, page.startLine.size, (page.startLine.append accent.text).size⟩

/-- An accent starts its line, so that the indentation stays outside. -/
theorem text_play_accent (page : Page) (accent : Accent) :
    (page.play accent.trace).text = page.startLine.text ++ accent.text := by
  rw [text_play_words accent.inLine_trace, accent.startsLine_trace, if_pos rfl, accent.text_trace,
    startLine_eq, String.append_assoc]

theorem size_play_accent (page : Page) (accent : Accent) :
    (page.play accent.trace).size = (page.place accent).extent.stop := by
  rw [size, text_play_accent]
  rfl

theorem spans_play_other {trace : Trace} (other : ∀ event ∈ trace, event.isSpan = false)
    (page : Page) :
    (page.play trace).openSpans = page.openSpans ∧ (page.play trace).spans = page.spans := by
  induction trace generalizing page with
  | nil => exact ⟨rfl, rfl⟩
  | cons event rest ih =>
    obtain ⟨first, others⟩ := List.forall_mem_cons.mp other
    obtain ⟨opened, closed⟩ := spanKind.step_other page event
      (Event.opens?_ne_span first) (Event.closes?_ne_span first)
    obtain ⟨openSpans, spans⟩ := ih others (page.step event)
    exact ⟨openSpans.trans opened, spans.trans closed⟩

/-- A stretch in one style makes one span, from behind the indentation to its end. -/
theorem spans_play_styled (page : Page) (style : Style) {tokens : Trace}
    (other : ∀ event ∈ tokens, event.isSpan = false) :
    let after := page.play (.beginSpan style :: tokens ++ [.endSpan])
    after.openSpans = page.openSpans ∧
      after.spans = page.spans ++ [⟨page.startLine.size, after.size, style⟩] := by
  intro after
  let inside := (page.step (.beginSpan style)).play tokens
  have whole : after = inside.step .endSpan := by rw [← play_concat]; rfl
  have begun : (page.step (.beginSpan style)).openSpans =
      ⟨style, page.startLine.size⟩ :: page.openSpans ∧
        (page.step (.beginSpan style)).spans = page.spans := by
    simp [step, startLine_eq]
  obtain ⟨openSpans, spans⟩ := spans_play_other other (page.step (.beginSpan style))
  have size : after.size = inside.size := by
    rw [whole, Page.size, text_step]
    simp [Event.startsLine, Event.written, Page.size]
  obtain ⟨popped, recorded⟩ := spanKind.step_closer inside .endSpan _ _ rfl
    (openSpans.trans begun.1)
  rw [size, whole]
  refine ⟨popped, ?_⟩
  rw [← begun.2, ← spans]
  exact recorded

theorem spans_play_accent (page : Page) (accent : Accent) :
    (page.play accent.trace).openSpans = page.openSpans ∧
      (page.play accent.trace).spans = page.spans ++ (page.place accent).span?.toList := by
  have place : (page.place accent).span? = accent.category?.map fun category =>
      ⟨page.startLine.size, (page.play accent.trace).size, category.style⟩ := by
    rw [size_play_accent]
    rfl
  rw [place]
  have other := fun event member => (accent.staysInLine_tokens event member).2
  cases styled : accent.category? with
  | none =>
    rw [Accent.trace_of_unstyled styled]
    simpa using spans_play_other other page
  | some category =>
    rw [Accent.trace_of_category? styled]
    exact page.spans_play_styled category.style other

theorem references_play_other {trace : Trace} (other : ∀ event ∈ trace, event.isReference = false)
    (page : Page) : (page.play trace).references = page.references := by
  induction trace generalizing page with
  | nil => rfl
  | cons event rest ih =>
    obtain ⟨first, others⟩ := List.forall_mem_cons.mp other
    rw [play_cons, ih others, references_step_other page first]

theorem references_step_mention (page : Page) (mention : Mention) :
    (page.step mention.event).references =
      page.references ++ [⟨page.startLine.size, (page.startLine.append mention.shown).size,
        mention.entity.target, mention.isDefinition⟩] := by
  simp [Mention.event, Event.referTo, step, addReference, startLine_eq]

theorem references_play_accent (page : Page) (accent : Accent) :
    (page.play accent.trace).references =
      page.references ++ (page.place accent).reference?.toList := by
  cases mentions : accent.mention? with
  | none =>
    have other : ∀ event ∈ accent.trace, event.isReference = false := by
      simpa [mentions] using accent.filter_isReference_trace
    rw [references_play_other other]
    simp [Placed.reference?, place, mentions]
  | some mention =>
    obtain ⟨tokens, shown⟩ := Accent.tokens_of_mention? mentions
    have recorded := page.references_step_mention mention
    have place : (page.place accent).reference? = some ⟨page.startLine.size,
        (page.startLine.append mention.shown).size, mention.entity.target,
        mention.isDefinition⟩ := by
      simp [Placed.reference?, Page.place, mentions, shown]
    rw [place]
    cases styled : accent.category? with
    | none =>
      rw [Accent.trace_of_unstyled styled, tokens]
      exact recorded
    | some category =>
      -- Opening the span has started the line already, as the reference would have done.
      let begun := page.step (.beginSpan category.style)
      have started : begun.startLine.text = page.startLine.text := by
        simp [begun, step, startLine_eq, pendingIndentation]
      have after : page.play [.beginSpan category.style, mention.event, .endSpan] =
          (begun.step mention.event).step .endSpan := rfl
      rw [Accent.trace_of_category? styled, tokens, List.cons_append, List.singleton_append, after,
        references_step_other _ rfl, references_step_mention, references_step_other _ rfl]
      simp only [size, append, started]
      rfl

/-- The accents of a trace stand on the page at some places, in order and apart from each other, and
no line ends inside one. All spans and references that the trace adds are theirs. -/
structure PlacesAccents (page : Page) (trace : Trace) (places : List Placed) : Prop where
  openSpans_eq : (page.play trace).openSpans = page.openSpans
  spans_eq : (page.play trace).spans = page.spans ++ places.filterMap Placed.span?
  references_eq :
    (page.play trace).references = page.references ++ places.filterMap Placed.reference?
  covers : ∀ placed ∈ places,
    IsPart (page.play trace).text placed.extent.start placed.extent.stop placed.accent.text
  ordered : places.Pairwise fun earlier later => earlier.extent.stop ≤ later.extent.start
  behind : ∀ placed ∈ places, page.size ≤ placed.extent.start
  unbroken : ∀ before later, trace = before ++ .lineBreak :: later →
    (page.play before).openSpans = page.openSpans

namespace PlacesAccents

variable {page : Page} {rest : Trace} {places : List Placed}

theorem nil (page : Page) : page.PlacesAccents [] [] := by
  constructor <;> simp

theorem plain {event : Event} (isPlain : event.isPlain = true)
    (placed : (page.step event).PlacesAccents rest places) :
    page.PlacesAccents (event :: rest) places := by
  obtain ⟨noSpan, noReference⟩ : event.isSpan = false ∧ event.isReference = false := by
    simpa [Event.isPlain] using isPlain
  obtain ⟨openSpans, spans⟩ := spanKind.step_other page event (Event.opens?_ne_span noSpan)
    (Event.closes?_ne_span noSpan)
  have references := references_step_other page noReference
  refine ⟨?_, ?_, ?_, placed.covers, placed.ordered, ?_, ?_⟩
  · exact placed.openSpans_eq.trans openSpans
  · rw [play_cons, placed.spans_eq]
    exact congrArg (· ++ _) spans
  · rw [play_cons, placed.references_eq, references]
  · intro accent member
    exact (page.size_le_step event).trans (placed.behind accent member)
  · intro before later split
    cases before with
    | nil => rfl
    | cons first before =>
      obtain ⟨rfl, inRest⟩ := List.cons.inj split
      exact (placed.unbroken before later inRest).trans openSpans

theorem accent (accent : Accent) (placed : (page.play accent.trace).PlacesAccents rest places) :
    page.PlacesAccents (accent.trace ++ rest) (page.place accent :: places) := by
  obtain ⟨openSpans, spans⟩ := page.spans_play_accent accent
  have references := page.references_play_accent accent
  have stop := page.size_play_accent accent
  refine ⟨?_, ?_, ?_, ?_, ?_, ?_, ?_⟩
  · rw [play_append]
    exact placed.openSpans_eq.trans openSpans
  · rw [play_append, placed.spans_eq, spans, List.append_assoc, List.filterMap_cons]
    cases (page.place accent).span? <;> rfl
  · rw [play_append, placed.references_eq, references, List.append_assoc, List.filterMap_cons]
    cases (page.place accent).reference? <;> rfl
  · rw [play_append]
    intro other member
    rcases List.mem_cons.mp member with rfl | member
    · obtain ⟨added, grown⟩ := (page.play accent.trace).exists_text_play rest
      rw [grown, text_play_accent]
      exact ⟨page.startLine.text, added, rfl, rfl, rfl⟩
    · exact placed.covers other member
  · refine List.pairwise_cons.mpr ⟨?_, placed.ordered⟩
    intro other member
    rw [← stop]
    exact placed.behind other member
  · intro other member
    rcases List.mem_cons.mp member with rfl | member
    · exact page.size_le_startLine
    · exact (page.size_le_play accent.trace).trans (placed.behind other member)
  · intro before later split
    obtain ⟨behind, rfl, inRest⟩ := accent.exists_behind_of_lineBreak split
    rw [play_append]
    exact (placed.unbroken behind later inRest).trans openSpans

theorem of_accented {trace : Trace} {accents : List Accent} (accented : trace.Accented accents)
    (page : Page) :
    ∃ places, places.map Placed.accent = accents ∧ page.PlacesAccents trace places := by
  induction accented generalizing page with
  | nil => exact ⟨[], rfl, .nil page⟩
  | plain isPlain _ ih =>
    obtain ⟨places, rfl, placed⟩ := ih (page.step _)
    exact ⟨places, rfl, placed.plain isPlain⟩
  | accent accent _ ih =>
    obtain ⟨places, rfl, placed⟩ := ih (page.play accent.trace)
    exact ⟨page.place accent :: places, rfl, placed.accent accent⟩

end PlacesAccents

end Page

end CilSketch
