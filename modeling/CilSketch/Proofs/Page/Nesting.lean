import CilSketch.Proofs.Trace.Nesting

/-!
What a page and the depths of a trace have open, as a view of the one stack of brackets. A step
that the stack allows pushes and pops the same thing on the page, so a nested trace leaves
everything below it alone.
-/

set_option autoImplicit false

namespace CilSketch

namespace Page

/-- The same levels, regions and spans are open, and no stray closer came between. -/
structure SameOpen (before after : Page) : Prop where
  level : after.level = before.level
  openFolds : after.openFolds = before.openFolds
  openSpans : after.openSpans = before.openSpans
  overclosed : after.overclosed = before.overclosed

theorem SameOpen.trans {a b c : Page} (first : a.SameOpen b) (second : b.SameOpen c) :
    a.SameOpen c where
  level := second.level.trans first.level
  openFolds := second.openFolds.trans first.openFolds
  openSpans := second.openSpans.trans first.openSpans
  overclosed := second.overclosed.trans first.overclosed

/-- Whatever one page has open is still open on the other, below what was opened since. -/
structure KeepsOpen (before after : Page) : Prop where
  level : before.level ≤ after.level
  openFolds : before.openFolds <:+ after.openFolds
  openSpans : before.openSpans <:+ after.openSpans
  overclosed : after.overclosed = before.overclosed

/-- A page that has the brackets of a stack open, on top of all that another page has open. -/
structure OpenAbove (base : Page) (stack : List Bracket) (page : Page) : Prop where
  level : page.level = base.level + stack.count .block
  openFolds : ∃ added, page.openFolds = added ++ base.openFolds ∧ added.length = stack.count .fold
  openSpans : ∃ added, page.openSpans = added ++ base.openSpans ∧ added.length = stack.count .span
  overclosed : page.overclosed = base.overclosed

theorem sameOpen_step {event : Event} (opens : event.opens? = none) (closes : event.closes? = none)
    (page : Page) : page.SameOpen (page.step event) := by
  cases event with
  | text shown =>
    simp only [step, startLine_eq, append]
    split <;> exact ⟨rfl, rfl, rfl, rfl⟩
  | lineBreak => exact ⟨rfl, rfl, rfl, rfl⟩
  | reference target shown isDefinition =>
    simp only [step, startLine_eq, addReference, append]
    exact ⟨rfl, rfl, rfl, rfl⟩
  | beginSpan | indent | foldStart => simp [Event.opens?] at opens
  | endSpan | unindent | foldEnd => simp [Event.closes?] at closes

namespace OpenAbove

variable {base page : Page} {stack : List Bracket}

theorem refl (page : Page) : OpenAbove page [] page :=
  ⟨rfl, ⟨[], rfl, rfl⟩, ⟨[], rfl, rfl⟩, rfl⟩

theorem trans_sameOpen {after : Page} (above : OpenAbove base stack page)
    (same : page.SameOpen after) : OpenAbove base stack after where
  level := same.level.trans above.level
  openFolds := same.openFolds ▸ above.openFolds
  openSpans := same.openSpans ▸ above.openSpans
  overclosed := same.overclosed.trans above.overclosed

theorem step_opener {event : Event} {bracket : Bracket} (above : OpenAbove base stack page)
    (opens : event.opens? = some bracket) :
    OpenAbove base (bracket :: stack) (page.step event) := by
  obtain ⟨level, ⟨folds, foldsOpen, foldCount⟩, ⟨spans, spansOpen, spanCount⟩, overclosed⟩ := above
  cases event with
  | beginSpan style =>
    obtain rfl : Bracket.span = bracket := by simpa [Event.opens?] using opens
    simp only [step, startLine_eq]
    refine ⟨by simpa using level, ⟨folds, foldsOpen, by simpa using foldCount⟩, ?_, overclosed⟩
    exact ⟨_ :: spans, congrArg (List.cons _) spansOpen, by simp [spanCount]⟩
  | indent =>
    obtain rfl : Bracket.block = bracket := by simpa [Event.opens?] using opens
    refine ⟨?_, ⟨folds, foldsOpen, by simpa using foldCount⟩,
      ⟨spans, spansOpen, by simpa using spanCount⟩, overclosed⟩
    simp [step, level, Nat.add_assoc]
  | foldStart =>
    obtain rfl : Bracket.fold = bracket := by simpa [Event.opens?] using opens
    refine ⟨by simpa [step] using level, ?_, ⟨spans, spansOpen, by simpa using spanCount⟩,
      overclosed⟩
    exact ⟨_ :: folds, congrArg (List.cons _) foldsOpen, by simp [foldCount]⟩
  | text | lineBreak | reference | endSpan | unindent | foldEnd => simp [Event.opens?] at opens

theorem step_closer {event : Event} {bracket : Bracket}
    (above : OpenAbove base (bracket :: stack) page) (closes : event.closes? = some bracket) :
    OpenAbove base stack (page.step event) := by
  obtain ⟨level, ⟨folds, foldsOpen, foldCount⟩, ⟨spans, spansOpen, spanCount⟩, overclosed⟩ := above
  -- The bracket on top of the stack is counted, so the page has one of its kind to close.
  cases event with
  | endSpan =>
    obtain rfl : Bracket.span = bracket := by simpa [Event.closes?] using closes
    obtain _ | ⟨span, spans⟩ := spans
    · simp at spanCount
    · simp only [step, spansOpen, List.cons_append]
      exact ⟨by simpa using level, ⟨folds, foldsOpen, by simpa using foldCount⟩,
        ⟨spans, rfl, by simpa using spanCount⟩, overclosed⟩
  | unindent =>
    obtain rfl : Bracket.block = bracket := by simpa [Event.closes?] using closes
    have positive : page.level = base.level + stack.count .block + 1 := by
      simpa [Nat.add_assoc] using level
    simp only [step, positive]
    exact ⟨rfl, ⟨folds, foldsOpen, by simpa using foldCount⟩,
      ⟨spans, spansOpen, by simpa using spanCount⟩, overclosed⟩
  | foldEnd =>
    obtain rfl : Bracket.fold = bracket := by simpa [Event.closes?] using closes
    obtain _ | ⟨fold, folds⟩ := folds
    · simp at foldCount
    · simp only [step, foldsOpen, List.cons_append]
      exact ⟨by simpa using level, ⟨folds, rfl, by simpa using foldCount⟩,
        ⟨spans, spansOpen, by simpa using spanCount⟩, overclosed⟩
  | text | lineBreak | reference | beginSpan | indent | foldStart => simp [Event.closes?] at closes

theorem step {event : Event} {after : List Bracket} (above : OpenAbove base stack page)
    (stepped : Bracket.step stack event = some after) :
    OpenAbove base after (page.step event) := by
  match opens : event.opens?, closes : event.closes? with
  | some bracket, _ =>
    rw [Bracket.step_opener opens, Option.some.injEq] at stepped
    exact stepped ▸ above.step_opener opens
  | none, some bracket =>
    rw [Bracket.step_closer closes] at stepped
    obtain _ | ⟨top, below⟩ := stack
    · simp at stepped
    · simp only [List.head?_cons, Option.some.injEq, List.tail_cons] at stepped
      split at stepped
      next same =>
        rw [Option.some.injEq] at stepped
        subst same stepped
        exact above.step_closer closes
      next => simp at stepped
  | none, none =>
    rw [Bracket.step_plain opens closes, Option.some.injEq] at stepped
    exact stepped ▸ above.trans_sameOpen (sameOpen_step opens closes page)

theorem play {after : List Bracket} (trace : Trace) (above : OpenAbove base stack page)
    (closed : trace.unclosed stack = some after) : OpenAbove base after (page.play trace) := by
  induction trace generalizing stack page with
  | nil =>
    rw [Trace.unclosed_nil, Option.some.injEq] at closed
    exact closed ▸ above
  | cons event rest ih =>
    rw [Trace.unclosed_cons, Option.bind_eq_some_iff] at closed
    obtain ⟨middle, stepped, closed⟩ := closed
    exact ih (above.step stepped) closed

theorem keepsOpen (above : OpenAbove base stack page) : base.KeepsOpen page := by
  obtain ⟨level, ⟨folds, foldsOpen, _⟩, ⟨spans, spansOpen, _⟩, overclosed⟩ := above
  exact ⟨by omega, ⟨folds, foldsOpen.symm⟩, ⟨spans, spansOpen.symm⟩, overclosed⟩

theorem sameOpen (above : OpenAbove base [] page) : base.SameOpen page := by
  obtain ⟨level, ⟨folds, foldsOpen, foldCount⟩, ⟨spans, spansOpen, spanCount⟩, overclosed⟩ := above
  obtain rfl : folds = [] := List.length_eq_zero_iff.mp foldCount
  obtain rfl : spans = [] := List.length_eq_zero_iff.mp spanCount
  exact ⟨level, foldsOpen, spansOpen, overclosed⟩

end OpenAbove

end Page

namespace Depths

def ofStack (stack : List Bracket) : Depths where
  spans := stack.count .span
  blocks := stack.count .block
  folds := stack.count .fold

theorem step_ofStack {stack after : List Bracket} {event : Event}
    (stepped : Bracket.step stack event = some after) :
    (ofStack stack).step event = some (ofStack after) := by
  cases event with
  | text | lineBreak | reference =>
    obtain rfl : stack = after := by
      simpa [Bracket.step, Event.opens?, Event.closes?] using stepped
    rfl
  | beginSpan | indent | foldStart =>
    simp only [Bracket.step, Event.opens?, Option.some.injEq] at stepped
    subst stepped
    simp [Depths.step, ofStack]
  | endSpan | unindent | foldEnd =>
    obtain _ | ⟨top, below⟩ := stack
    · simp [Bracket.step, Event.opens?, Event.closes?] at stepped
    · simp only [Bracket.step, Event.opens?, Event.closes?, List.head?_cons, Option.some.injEq,
        List.tail_cons, Option.ite_none_right_eq_some] at stepped
      obtain ⟨rfl, rfl⟩ := stepped
      simp [Depths.step, ofStack]

theorem foldlM_ofStack {stack after : List Bracket} (trace : Trace)
    (closed : trace.unclosed stack = some after) :
    trace.foldlM Depths.step (ofStack stack) = some (ofStack after) := by
  induction trace generalizing stack with
  | nil =>
    rw [Trace.unclosed_nil, Option.some.injEq] at closed
    rw [closed]
    rfl
  | cons event rest ih =>
    rw [Trace.unclosed_cons, Option.bind_eq_some_iff] at closed
    obtain ⟨middle, stepped, closed⟩ := closed
    rw [List.foldlM_cons, step_ofStack stepped]
    exact ih closed

end Depths

namespace Trace

/-- What a trace owes to every page it is played on. Nothing that was open before is closed, also
not for a while, and everything it opens itself is closed at the end. -/
structure WellBracketed (trace : Trace) : Prop where
  nested : trace.Nested
  keepsOpen : ∀ (page : Page) (count : Nat), page.KeepsOpen (page.play (trace.take count))
  sameOpen : ∀ page : Page, page.SameOpen (page.play trace)
  balanced : trace.isBalanced = true

theorem Nested.wellBracketed {trace : Trace} (nested : Nested trace) : trace.WellBracketed where
  nested := nested
  keepsOpen page count := by
    have whole : unclosed [] (trace.take count ++ trace.drop count) = some [] := by
      rw [List.take_append_drop]
      exact nested.unclosed_eq []
    rw [unclosed_append, Option.bind_eq_some_iff] at whole
    obtain ⟨stack, opened, _⟩ := whole
    exact ((Page.OpenAbove.refl page).play _ opened).keepsOpen
  sameOpen page := ((Page.OpenAbove.refl page).play trace (nested.unclosed_eq [])).sameOpen
  balanced := by
    have depths := Depths.foldlM_ofStack trace (nested.unclosed_eq [])
    have closed : trace.foldlM Depths.step {} = some {} := depths
    rw [isBalanced, closed]
    rfl

end Trace

end CilSketch
