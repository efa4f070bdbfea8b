import CilSketch.Proofs.Page.Indentation
import CilSketch.Proofs.Page.Matching
import CilSketch.Proofs.Text.Slice

/-!
The index of a page is faithful to its text. Text and index only grow at their ends, so whatever
was a part of the text stays one. A reference covers the token that made it, and a region covers
what was written between its opener and the closer that matches it.
-/

set_option autoImplicit false

namespace CilSketch

namespace Event

def isReference : Event → Bool
  | .reference .. => true
  | _ => false

theorem exists_eq_reference {event : Event} (isReference : event.isReference = true) :
    ∃ target shown isDefinition, event = .reference target shown isDefinition := by
  cases event <;> simp_all [Event.isReference]

end Event

namespace Page

/-- Nothing that was on a page is changed; things are only added behind it. -/
structure Extends (before after : Page) : Prop where
  text : ∃ added, after.text = before.text ++ added
  folds : before.folds <+: after.folds
  spans : before.spans <+: after.spans
  references : before.references <+: after.references

/-- Two offsets that mark a part of the text: in order, and both at the edge of a character. -/
structure Marks (page : Page) (start stop : Nat) : Prop where
  start_le_stop : start ≤ stop
  stop_le_size : stop ≤ page.size
  start_isValid : String.Pos.Raw.IsValid page.text ⟨start⟩
  stop_isValid : String.Pos.Raw.IsValid page.text ⟨stop⟩

/-- The event that a reference reads back as. -/
def readBack (page : Page) (reference : Reference) : Event :=
  .reference reference.target (page.slice reference.start reference.stop) reference.isDefinition

end Page

theorem IsPart.marks {page : Page} {start stop : Nat} {part : String}
    (isPart : IsPart page.text start stop part) : page.Marks start stop where
  start_le_stop := isPart.start_le_stop
  stop_le_size := isPart.isValid_stop.le_utf8ByteSize
  start_isValid := isPart.isValid_start
  stop_isValid := isPart.isValid_stop

theorem IsPart.page_slice_eq {page : Page} {start stop : Nat} {part : String}
    (isPart : IsPart page.text start stop part) : page.slice start stop = part := by
  rw [Page.slice, isPart.slice?_eq, Option.getD_some]

namespace Page

theorem exists_text_play (page : Page) (trace : Trace) :
    ∃ added, (page.play trace).text = page.text ++ added := by
  induction trace generalizing page with
  | nil => exact ⟨"", by simp⟩
  | cons event rest ih =>
    obtain ⟨added, whole⟩ := ih (page.step event)
    rw [text_step, String.append_assoc, String.append_assoc] at whole
    exact ⟨_, whole⟩

theorem references_step_other (page : Page) {event : Event} (other : event.isReference = false) :
    (page.step event).references = page.references := by
  cases event with
  | text shown =>
    simp only [step, startLine_eq, append]
    split <;> rfl
  | reference => simp [Event.isReference] at other
  | beginSpan => simp [step, startLine_eq]
  | endSpan | unindent | foldEnd =>
    simp only [step]
    split <;> rfl
  | lineBreak | indent | foldStart => rfl

theorem size_le_startLine (page : Page) : page.size ≤ page.startLine.size := by
  rw [size, size, startLine_eq, String.utf8ByteSize_append]
  exact Nat.le_add_right _ _

/-- A reference is recorded after the indentation and covers the whole token. -/
theorem references_step_reference (page : Page) (target shown : String) (isDefinition : Bool) :
    ∃ recorded : Reference,
      (page.step (.reference target shown isDefinition)).references =
        page.references ++ [recorded] ∧
      recorded.target = target ∧ recorded.isDefinition = isDefinition ∧
      page.size ≤ recorded.start ∧
      IsPart (page.step (.reference target shown isDefinition)).text recorded.start recorded.stop
        shown := by
  refine ⟨⟨page.startLine.size, (page.startLine.append shown).size, target, isDefinition⟩, ?_, rfl,
    rfl, ?_, ?_⟩
  · simp [step, addReference, startLine_eq]
  · exact page.size_le_startLine
  · exact ⟨page.startLine.text, "", by simp [step, addReference, append], rfl, rfl⟩

theorem extends_step (page : Page) (event : Event) : page.Extends (page.step event) where
  text := page.exists_text_play [event]
  folds := foldKind.closed_prefix_play page [event]
  spans := spanKind.closed_prefix_play page [event]
  references := by
    cases isReference : event.isReference with
    | false => simp [references_step_other page isReference]
    | true =>
      obtain ⟨target, shown, isDefinition, rfl⟩ := Event.exists_eq_reference isReference
      obtain ⟨recorded, added, -⟩ := page.references_step_reference target shown isDefinition
      rw [added]
      exact List.prefix_append _ _

/-- What the references of a page know of the events played on it so far. -/
structure IndexesReferences (earlier : Trace) (page : Page) : Prop where
  parts : ∀ reference ∈ page.references,
    ∃ part, IsPart page.text reference.start reference.stop part
  readBack : page.references.map page.readBack = earlier.filter Event.isReference
  ordered : page.references.Pairwise fun former latter => former.stop ≤ latter.start

namespace IndexesReferences

theorem blank (unit : String) : IndexesReferences [] (blank unit) := by
  constructor <;> simp [Page.blank]

theorem step {earlier : Trace} {page : Page} (indexes : IndexesReferences earlier page)
    (event : Event) : IndexesReferences (earlier ++ [event]) (page.step event) := by
  obtain ⟨added, grown⟩ := (page.extends_step event).text
  have still : ∀ {start stop : Nat} {part : String}, IsPart page.text start stop part →
      IsPart (page.step event).text start stop part := by
    intro start stop part isPart
    rw [grown]
    exact isPart.append added
  have kept : ∀ reference ∈ page.references,
      ∃ part, IsPart (page.step event).text reference.start reference.stop part := by
    intro reference member
    obtain ⟨part, isPart⟩ := indexes.parts reference member
    exact ⟨part, still isPart⟩
  have same : page.references.map (page.step event).readBack =
      page.references.map page.readBack := by
    apply List.map_congr_left
    intro reference member
    obtain ⟨part, isPart⟩ := indexes.parts reference member
    rw [Page.readBack, Page.readBack, isPart.page_slice_eq, (still isPart).page_slice_eq]
  cases isReference : event.isReference with
  | false =>
    refine ⟨?_, ?_, ?_⟩ <;> rw [references_step_other page isReference]
    · exact kept
    · simp [same, indexes.readBack, isReference]
    · exact indexes.ordered
  | true =>
    obtain ⟨target, shown, isDefinition, rfl⟩ := Event.exists_eq_reference isReference
    obtain ⟨recorded, grows, rfl, rfl, start, isPart⟩ :=
      page.references_step_reference target shown isDefinition
    refine ⟨?_, ?_, ?_⟩ <;> rw [grows]
    · intro reference member
      rcases List.mem_append.mp member with member | member
      · exact kept reference member
      · rw [List.mem_singleton.mp member]
        exact ⟨shown, isPart⟩
    · rw [List.map_append, same, indexes.readBack, List.filter_append, List.map_singleton,
        Page.readBack, isPart.page_slice_eq]
      rfl
    · rw [List.pairwise_append]
      refine ⟨indexes.ordered, List.pairwise_singleton _ _, ?_⟩
      intro former member latter isLast
      rw [List.mem_singleton.mp isLast]
      obtain ⟨part, former⟩ := indexes.parts former member
      exact former.marks.stop_le_size.trans start

theorem play {earlier : Trace} {page : Page} (indexes : IndexesReferences earlier page)
    (trace : Trace) : IndexesReferences (earlier ++ trace) (page.play trace) := by
  induction trace generalizing page earlier with
  | nil => simpa using indexes
  | cons event rest ih => simpa using ih (indexes.step event)

end IndexesReferences

end Page

/-- What was written between the two brackets of a pair, as a part of the final text. -/
theorem Trace.Pair.exists_isPart {bracket : Bracket} {trace : Trace} (pair : trace.Pair bracket)
    (page : Page) :
    ∃ part, (pair.closing page).text = (pair.opening page).text ++ part ∧
      IsPart (page.play trace).text (pair.opening page).size (pair.closing page).size part := by
  obtain ⟨part, written⟩ := (pair.opening page).exists_text_play pair.inner
  rw [← pair.closing_eq] at written
  obtain ⟨rest, whole⟩ := (pair.closing page).exists_text_play (pair.closer :: pair.later)
  rw [Page.play_cons, ← pair.play_eq] at whole
  refine ⟨part, written, (pair.opening page).text, rest, ?_, rfl, ?_⟩
  · rw [whole, written]
  · rw [Page.size, written]

namespace Page

/-- A part of a page, and two moments at which it was about to be written and written. -/
structure Covers (page opening closing : Page) (start stop : Nat) : Prop where
  start_eq : start = opening.size
  stop_eq : stop = closing.size
  text_eq : closing.text = opening.text ++ page.slice start stop

/-- How the index of a page relates to its text and to the trace that was played on it. -/
structure FaithfulIndex (unit : String) (trace : Trace) (page : Page) : Prop where
  extends_step : ∀ event, page.Extends (page.step event)
  folds_marked : ∀ fold ∈ page.folds, page.Marks fold.start fold.stop
  spans_marked : ∀ span ∈ page.spans, page.Marks span.start span.stop
  references_marked : ∀ reference ∈ page.references, page.Marks reference.start reference.stop
  references_readBack : page.references.map page.readBack = trace.filter Event.isReference
  references_ordered : page.references.Pairwise fun former latter => former.stop ≤ latter.start
  spans_paired : ∀ (index : Nat) (span : Span), page.spans[index]? = some span ↔
    ∃ pair : trace.Pair .span, pair.opener = .beginSpan span.style ∧
      (pair.closing (blank unit)).spans.length = index ∧
      page.Covers (pair.opening (blank unit)) (pair.closing (blank unit)) span.start span.stop
  folds_paired : ∀ (index : Nat) (fold : Fold), page.folds[index]? = some fold ↔
    ∃ pair : trace.Pair .fold, fold.startLine = (pair.opening (blank unit)).line ∧
      fold.stopLine = (pair.closing (blank unit)).line ∧
      (pair.closing (blank unit)).folds.length = index ∧
      page.Covers (pair.opening (blank unit)) (pair.closing (blank unit)) fold.start fold.stop

end Page

/-- A pair covers what it encloses, on the page at the end of the trace. -/
theorem Trace.Pair.covers {bracket : Bracket} {trace : Trace} (pair : trace.Pair bracket)
    (page : Page) :
    (page.play trace).Covers (pair.opening page) (pair.closing page) (pair.opening page).size
      (pair.closing page).size := by
  obtain ⟨part, written, isPart⟩ := pair.exists_isPart page
  refine ⟨rfl, rfl, ?_⟩
  rw [isPart.page_slice_eq]
  exact written

theorem Trace.Pair.marks {bracket : Bracket} {trace : Trace} (pair : trace.Pair bracket)
    (page : Page) :
    (page.play trace).Marks (pair.opening page).size (pair.closing page).size := by
  obtain ⟨part, -, isPart⟩ := pair.exists_isPart page
  exact isPart.marks

namespace Page

theorem getElem?_spans_iff (unit : String) (trace : Trace) (index : Nat) (span : Span) :
    ((blank unit).play trace).spans[index]? = some span ↔
      ∃ pair : trace.Pair .span, pair.opener = .beginSpan span.style ∧
        (pair.closing (blank unit)).spans.length = index ∧
        ((blank unit).play trace).Covers (pair.opening (blank unit)) (pair.closing (blank unit))
          span.start span.stop := by
  refine (spanKind.getElem?_closed_iff unit trace index span).trans ?_
  constructor
  · rintro ⟨pair, mark, marked, rfl, place⟩
    obtain ⟨opener, start⟩ := spanKind_mark_eq_some_iff.mp marked
    refine ⟨pair, opener, place, ?_⟩
    have covers := pair.covers (blank unit)
    rw [← start] at covers
    exact covers
  · rintro ⟨pair, opener, place, covers⟩
    refine ⟨pair, ⟨span.style, span.start⟩, ?_, ?_, place⟩
    · exact spanKind_mark_eq_some_iff.mpr ⟨opener, covers.start_eq⟩
    · exact congrArg (Span.mk span.start · span.style) covers.stop_eq

theorem getElem?_folds_iff (unit : String) (trace : Trace) (index : Nat) (fold : Fold) :
    ((blank unit).play trace).folds[index]? = some fold ↔
      ∃ pair : trace.Pair .fold, fold.startLine = (pair.opening (blank unit)).line ∧
        fold.stopLine = (pair.closing (blank unit)).line ∧
        (pair.closing (blank unit)).folds.length = index ∧
        ((blank unit).play trace).Covers (pair.opening (blank unit)) (pair.closing (blank unit))
          fold.start fold.stop := by
  refine (foldKind.getElem?_closed_iff unit trace index fold).trans ?_
  constructor
  · rintro ⟨pair, mark, marked, rfl, place⟩
    obtain ⟨opener, start, startLine⟩ := foldKind_mark_eq_some_iff.mp marked
    refine ⟨pair, startLine, rfl, place, ?_⟩
    have covers := pair.covers (blank unit)
    rw [← start] at covers
    exact covers
  · rintro ⟨pair, startLine, stopLine, place, covers⟩
    have opener := Event.opens?_eq_fold_iff.mp pair.opens
    refine ⟨pair, ⟨fold.start, fold.startLine⟩, ?_, ?_, place⟩
    · exact foldKind_mark_eq_some_iff.mpr ⟨opener, covers.start_eq, startLine⟩
    · exact congrArg₂ (Fold.mk fold.start · fold.startLine ·) covers.stop_eq stopLine

end Page

/-- After every trace the index of the page is faithful to its text. -/
theorem page_index_faithful (unit : String) (trace : Trace) :
    Page.FaithfulIndex unit trace ((Page.blank unit).play trace) := by
  have references := (Page.IndexesReferences.blank unit).play trace
  constructor
  · exact Page.extends_step _
  · intro fold member
    obtain ⟨index, found⟩ := List.getElem?_of_mem member
    obtain ⟨pair, -, -, -, covers⟩ := (Page.getElem?_folds_iff unit trace index fold).mp found
    rw [covers.start_eq, covers.stop_eq]
    exact pair.marks (.blank unit)
  · intro span member
    obtain ⟨index, found⟩ := List.getElem?_of_mem member
    obtain ⟨pair, -, -, covers⟩ := (Page.getElem?_spans_iff unit trace index span).mp found
    rw [covers.start_eq, covers.stop_eq]
    exact pair.marks (.blank unit)
  · intro reference member
    obtain ⟨part, isPart⟩ := references.parts reference member
    exact isPart.marks
  · exact references.readBack
  · exact references.ordered
  · exact Page.getElem?_spans_iff unit trace
  · exact Page.getElem?_folds_iff unit trace

end CilSketch
