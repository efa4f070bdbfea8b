import CilSketch.Proofs.Trace.Nesting

/-!
The regions of a page. Spans and foldable regions are kept in one way: an opener puts a mark on a
stack, and a closer takes the innermost mark off and records what it makes of it. A `RegionKind`
says so of one kind, and `Move` lists all that an event can do to the regions of that kind.
-/

set_option autoImplicit false

namespace CilSketch

namespace Event

theorem opens?_eq_span_iff {event : Event} :
    event.opens? = some .span ↔ ∃ style, event = .beginSpan style := by
  cases event <;> simp [opens?]

theorem opens?_eq_fold_iff {event : Event} :
    event.opens? = some .fold ↔ event = .foldStart := by
  cases event <;> simp [opens?]

theorem closes?_eq_span_iff {event : Event} : event.closes? = some .span ↔ event = .endSpan := by
  cases event <;> simp [closes?]

theorem closes?_eq_fold_iff {event : Event} : event.closes? = some .fold ↔ event = .foldEnd := by
  cases event <;> simp [closes?]

end Event

structure RegionKind (Mark Region : Type) where
  bracket : Bracket
  /-- The innermost comes first. -/
  opened : Page → List Mark
  /-- In the order in which they were closed. -/
  closed : Page → List Region
  /-- What an opener leaves behind, on the page after it. -/
  mark : Event → Page → Option Mark
  /-- What a closer makes of a mark, on the page before it. -/
  finish : Page → Mark → Region
  opened_blank : ∀ unit, opened (.blank unit) = []
  closed_blank : ∀ unit, closed (.blank unit) = []
  step_other : ∀ (page : Page) (event : Event),
    event.opens? ≠ some bracket → event.closes? ≠ some bracket →
      opened (page.step event) = opened page ∧ closed (page.step event) = closed page
  step_opener : ∀ (page : Page) (event : Event), event.opens? = some bracket →
    ∃ added, mark event (page.step event) = some added ∧
      opened (page.step event) = added :: opened page ∧ closed (page.step event) = closed page
  step_closer : ∀ (page : Page) (event : Event) (innermost : Mark) (outer : List Mark),
    event.closes? = some bracket → opened page = innermost :: outer →
      opened (page.step event) = outer ∧
        closed (page.step event) = closed page ++ [finish page innermost]
  step_stray : ∀ (page : Page) (event : Event),
    event.closes? = some bracket → opened page = [] →
      opened (page.step event) = [] ∧ closed (page.step event) = closed page

namespace RegionKind

variable {Mark Region : Type} (kind : RegionKind Mark Region)

/-- What an event does to the regions of a kind. -/
inductive Move (page : Page) (event : Event) : Prop where
  | other (opens : event.opens? ≠ some kind.bracket) (closes : event.closes? ≠ some kind.bracket)
      (sameOpened : kind.opened (page.step event) = kind.opened page)
      (sameClosed : kind.closed (page.step event) = kind.closed page)
  | opener (added : Mark) (opens : event.opens? = some kind.bracket)
      (marked : kind.mark event (page.step event) = some added)
      (pushed : kind.opened (page.step event) = added :: kind.opened page)
      (sameClosed : kind.closed (page.step event) = kind.closed page)
  | closer (innermost : Mark) (closes : event.closes? = some kind.bracket)
      (popped : kind.opened page = innermost :: kind.opened (page.step event))
      (recorded : kind.closed (page.step event) =
        kind.closed page ++ [kind.finish page innermost])
  | stray (closes : event.closes? = some kind.bracket) (nothing : kind.opened page = [])
      (sameOpened : kind.opened (page.step event) = [])
      (sameClosed : kind.closed (page.step event) = kind.closed page)

theorem move (page : Page) (event : Event) : kind.Move page event := by
  by_cases opens : event.opens? = some kind.bracket
  · obtain ⟨added, marked, pushed, sameClosed⟩ := kind.step_opener page event opens
    exact .opener added opens marked pushed sameClosed
  by_cases closes : event.closes? = some kind.bracket
  · cases opened : kind.opened page with
    | nil =>
      obtain ⟨sameOpened, sameClosed⟩ := kind.step_stray page event closes opened
      exact .stray closes opened sameOpened sameClosed
    | cons innermost outer =>
      obtain ⟨popped, recorded⟩ := kind.step_closer page event innermost outer closes opened
      exact .closer innermost closes (popped ▸ opened) recorded
  · obtain ⟨sameOpened, sameClosed⟩ := kind.step_other page event opens closes
    exact .other opens closes sameOpened sameClosed

end RegionKind

def spanKind : RegionKind OpenSpan Span where
  bracket := .span
  opened := Page.openSpans
  closed := Page.spans
  mark
    | .beginSpan style, page => some ⟨style, page.size⟩
    | _, _ => none
  finish page mark := ⟨mark.start, page.size, mark.style⟩
  opened_blank _ := rfl
  closed_blank _ := rfl
  step_other page event opens closes := by
    cases event with
    | text shown =>
      simp only [Page.step, Page.startLine_eq, Page.append]
      split <;> exact ⟨rfl, rfl⟩
    | reference => simp [Page.step, Page.startLine_eq, Page.addReference, Page.append]
    | lineBreak | indent | foldStart => exact ⟨rfl, rfl⟩
    | unindent | foldEnd =>
      simp only [Page.step]
      split <;> exact ⟨rfl, rfl⟩
    | beginSpan => simp [Event.opens?] at opens
    | endSpan => simp [Event.closes?] at closes
  step_opener page event opens := by
    obtain ⟨style, rfl⟩ := Event.opens?_eq_span_iff.mp opens
    exact ⟨_, rfl, by simp [Page.step, Page.startLine_eq, Page.size]⟩
  step_closer page event innermost outer closes opened := by
    obtain rfl := Event.closes?_eq_span_iff.mp closes
    simp [Page.step, opened]
  step_stray page event closes opened := by
    obtain rfl := Event.closes?_eq_span_iff.mp closes
    simp [Page.step, opened]

theorem spanKind_mark_eq_some_iff {event : Event} {page : Page} {mark : OpenSpan} :
    spanKind.mark event page = some mark ↔
      event = .beginSpan mark.style ∧ mark.start = page.size := by
  obtain ⟨style, start⟩ := mark
  cases event <;> simp [spanKind, eq_comm]

def foldKind : RegionKind OpenFold Fold where
  bracket := .fold
  opened := Page.openFolds
  closed := Page.folds
  mark
    | .foldStart, page => some ⟨page.size, page.line⟩
    | _, _ => none
  finish page mark := ⟨mark.start, page.size, mark.startLine, page.line⟩
  opened_blank _ := rfl
  closed_blank _ := rfl
  step_other page event opens closes := by
    cases event with
    | text shown =>
      simp only [Page.step, Page.startLine_eq, Page.append]
      split <;> exact ⟨rfl, rfl⟩
    | reference => simp [Page.step, Page.startLine_eq, Page.addReference, Page.append]
    | beginSpan => simp [Page.step, Page.startLine_eq]
    | lineBreak | indent => exact ⟨rfl, rfl⟩
    | unindent | endSpan =>
      simp only [Page.step]
      split <;> exact ⟨rfl, rfl⟩
    | foldStart => simp [Event.opens?] at opens
    | foldEnd => simp [Event.closes?] at closes
  step_opener page event opens := by
    obtain rfl := Event.opens?_eq_fold_iff.mp opens
    exact ⟨_, rfl, rfl, rfl⟩
  step_closer page event innermost outer closes opened := by
    obtain rfl := Event.closes?_eq_fold_iff.mp closes
    simp [Page.step, opened]
  step_stray page event closes opened := by
    obtain rfl := Event.closes?_eq_fold_iff.mp closes
    simp [Page.step, opened]

theorem foldKind_mark_eq_some_iff {event : Event} {page : Page} {mark : OpenFold} :
    foldKind.mark event page = some mark ↔
      event = .foldStart ∧ mark.start = page.size ∧ mark.startLine = page.line := by
  obtain ⟨start, startLine⟩ := mark
  cases event <;> simp [foldKind, eq_comm]

end CilSketch
