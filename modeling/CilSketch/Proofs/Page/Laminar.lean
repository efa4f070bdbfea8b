import CilSketch.Proofs.Page.Indentation
import CilSketch.Proofs.Page.Regions

/-!
Closed regions are a laminar family: of two of them, the one closed first lies before the other or
inside it. What carries this over a run is how the closed regions stand to the open ones: the start
of an open region is never strictly inside a closed one. Positions are byte offsets or lines, and
all that matters about them is that they never go back.
-/

set_option autoImplicit false

namespace CilSketch

structure Interval where
  start : Nat
  stop : Nat
  deriving DecidableEq, Repr

namespace Interval

/-- Where an interval that was closed earlier may lie with respect to one closed later. -/
def BeforeOrWithin (earlier later : Interval) : Prop :=
  (earlier.stop ≤ later.start ∨ later.start ≤ earlier.start ∧ earlier.stop ≤ later.stop) ∧
    earlier.stop ≤ later.stop

/-- A position that is not strictly inside an interval. -/
def Avoids (interval : Interval) (position : Nat) : Prop :=
  interval.stop ≤ position ∨ position ≤ interval.start

/-- The intervals closed up to a position, and the starts of those still open, the innermost
first. -/
structure Laminar (position : Nat) (opened : List Nat) (closed : List Interval) : Prop where
  opened_le : ∀ start ∈ opened, start ≤ position
  opened_sorted : opened.Pairwise fun inner outer => outer ≤ inner
  closed_le : ∀ interval ∈ closed, interval.stop ≤ position
  closed_avoids : ∀ interval ∈ closed, ∀ start ∈ opened, interval.Avoids start
  closed_laminar : closed.Pairwise BeforeOrWithin

namespace Laminar

variable {position : Nat} {opened : List Nat} {closed : List Interval}

theorem nil (position : Nat) : Laminar position [] [] := by
  constructor <;> simp

theorem advance (laminar : Laminar position opened closed) {later : Nat}
    (forward : position ≤ later) : Laminar later opened closed where
  opened_le start member := Nat.le_trans (laminar.opened_le start member) forward
  opened_sorted := laminar.opened_sorted
  closed_le interval member := Nat.le_trans (laminar.closed_le interval member) forward
  closed_avoids := laminar.closed_avoids
  closed_laminar := laminar.closed_laminar

theorem push (laminar : Laminar position opened closed) :
    Laminar position (position :: opened) closed where
  opened_le := by
    intro start member
    rcases List.mem_cons.mp member with rfl | member
    · exact Nat.le_refl _
    · exact laminar.opened_le start member
  opened_sorted := List.pairwise_cons.mpr ⟨laminar.opened_le, laminar.opened_sorted⟩
  closed_le := laminar.closed_le
  closed_avoids := by
    intro interval isClosed start member
    rcases List.mem_cons.mp member with rfl | member
    · exact .inl (laminar.closed_le interval isClosed)
    · exact laminar.closed_avoids interval isClosed start member
  closed_laminar := laminar.closed_laminar

/-- The new interval ends after all that were closed before. Since its start is in none of them,
each of them lies before it or inside it. -/
theorem pop {start : Nat} (laminar : Laminar position (start :: opened) closed) :
    Laminar position opened (closed ++ [⟨start, position⟩]) := by
  obtain ⟨outerLe, outerSorted⟩ := List.pairwise_cons.mp laminar.opened_sorted
  refine ⟨?_, outerSorted, ?_, ?_, ?_⟩
  · intro other member
    exact laminar.opened_le other (List.mem_cons_of_mem _ member)
  · intro interval member
    rcases List.mem_append.mp member with member | member
    · exact laminar.closed_le interval member
    · obtain rfl := List.mem_singleton.mp member
      exact Nat.le_refl _
  · intro interval isClosed other member
    rcases List.mem_append.mp isClosed with isClosed | isClosed
    · exact laminar.closed_avoids interval isClosed other (List.mem_cons_of_mem _ member)
    · rw [List.mem_singleton.mp isClosed]
      exact .inr (outerLe other member)
  · rw [List.pairwise_append]
    refine ⟨laminar.closed_laminar, List.pairwise_singleton _ _, ?_⟩
    intro earlier member later isLast
    rw [List.mem_singleton.mp isLast]
    have stops := laminar.closed_le earlier member
    refine ⟨?_, stops⟩
    rcases laminar.closed_avoids earlier member start List.mem_cons_self with before | within
    · exact .inl before
    · exact .inr ⟨within, stops⟩

end Laminar

end Interval

namespace RegionKind

variable {Mark Region : Type} {kind : RegionKind Mark Region}

/-- A way to see the regions of a kind as intervals. -/
structure Measure (kind : RegionKind Mark Region) where
  position : Page → Nat
  start : Mark → Nat
  interval : Region → Interval
  position_le_step : ∀ (page : Page) (event : Event), position page ≤ position (page.step event)
  start_eq : ∀ {event : Event} {page : Page} {mark : Mark},
    kind.mark event page = some mark → start mark = position page
  interval_finish : ∀ (page : Page) (mark : Mark),
    interval (kind.finish page mark) = ⟨start mark, position page⟩

namespace Measure

variable (measure : kind.Measure)

def IsLaminar (page : Page) : Prop :=
  Interval.Laminar (measure.position page) ((kind.opened page).map measure.start)
    ((kind.closed page).map measure.interval)

theorem isLaminar_blank (unit : String) : measure.IsLaminar (.blank unit) := by
  rw [IsLaminar, kind.opened_blank, kind.closed_blank]
  exact .nil _

theorem isLaminar_step {page : Page} (laminar : measure.IsLaminar page) (event : Event) :
    measure.IsLaminar (page.step event) := by
  unfold IsLaminar at laminar ⊢
  have forward := measure.position_le_step page event
  cases kind.move page event with
  | other opens closes sameOpened sameClosed =>
    rw [sameOpened, sameClosed]
    exact laminar.advance forward
  | opener added opens marked pushed sameClosed =>
    rw [pushed, sameClosed, List.map_cons, measure.start_eq marked]
    exact (laminar.advance forward).push
  | closer innermost closes popped recorded =>
    rw [popped, List.map_cons] at laminar
    rw [recorded, List.map_append, List.map_singleton, measure.interval_finish]
    exact laminar.pop.advance forward
  | stray closes nothing sameOpened sameClosed =>
    rw [nothing] at laminar
    rw [sameOpened, sameClosed]
    exact laminar.advance forward

theorem isLaminar_play {page : Page} (laminar : measure.IsLaminar page) (trace : Trace) :
    measure.IsLaminar (page.play trace) := by
  induction trace generalizing page with
  | nil => exact laminar
  | cons event rest ih => exact ih (measure.isLaminar_step laminar event)

end Measure

end RegionKind

namespace Page

theorem size_le_step (page : Page) (event : Event) : page.size ≤ (page.step event).size := by
  rw [size, size, text_step, String.append_assoc, String.utf8ByteSize_append]
  exact Nat.le_add_right _ _

theorem line_le_step (page : Page) (event : Event) : page.line ≤ (page.step event).line := by
  rw [line_step]
  exact Nat.le_add_right _ _

end Page

def Span.extent (span : Span) : Interval := ⟨span.start, span.stop⟩

def Fold.extent (fold : Fold) : Interval := ⟨fold.start, fold.stop⟩

def Fold.lines (fold : Fold) : Interval := ⟨fold.startLine, fold.stopLine⟩

def spanExtents : spanKind.Measure where
  position := Page.size
  start := OpenSpan.start
  interval := Span.extent
  position_le_step := Page.size_le_step
  start_eq := by
    intro event page mark marked
    exact (spanKind_mark_eq_some_iff.mp marked).2
  interval_finish _ _ := rfl

def foldExtents : foldKind.Measure where
  position := Page.size
  start := OpenFold.start
  interval := Fold.extent
  position_le_step := Page.size_le_step
  start_eq := by
    intro event page mark marked
    exact (foldKind_mark_eq_some_iff.mp marked).2.1
  interval_finish _ _ := rfl

def foldLines : foldKind.Measure where
  position := Page.line
  start := OpenFold.startLine
  interval := Fold.lines
  position_le_step := Page.line_le_step
  start_eq := by
    intro event page mark marked
    exact (foldKind_mark_eq_some_iff.mp marked).2.2
  interval_finish _ _ := rfl

/-- How the regions of a page lie to each other, by offsets and, for foldable regions, by lines. -/
structure Page.LaminarRegions (page : Page) : Prop where
  folds : page.folds.Pairwise fun earlier later => earlier.extent.BeforeOrWithin later.extent
  foldLines : page.folds.Pairwise fun earlier later => earlier.lines.BeforeOrWithin later.lines
  spans : page.spans.Pairwise fun earlier later => earlier.extent.BeforeOrWithin later.extent
  /-- From the outermost to the innermost. -/
  openFolds_sorted : page.openFolds.reverse.Pairwise fun outer inner => outer.start ≤ inner.start
  openFolds_le : ∀ fold ∈ page.openFolds, fold.start ≤ page.size
  /-- From the outermost to the innermost. -/
  openSpans_sorted : page.openSpans.reverse.Pairwise fun outer inner => outer.start ≤ inner.start
  openSpans_le : ∀ span ∈ page.openSpans, span.start ≤ page.size

/-- The closed regions of a page are laminar after every trace, one with stray closers too. -/
theorem page_regions_laminar (unit : String) (trace : Trace) :
    ((Page.blank unit).play trace).LaminarRegions := by
  have spans := spanExtents.isLaminar_play (spanExtents.isLaminar_blank unit) trace
  have folds := foldExtents.isLaminar_play (foldExtents.isLaminar_blank unit) trace
  have lines := foldLines.isLaminar_play (foldLines.isLaminar_blank unit) trace
  constructor
  · exact List.pairwise_map.mp folds.closed_laminar
  · exact List.pairwise_map.mp lines.closed_laminar
  · exact List.pairwise_map.mp spans.closed_laminar
  · exact List.pairwise_reverse.mpr (List.pairwise_map.mp folds.opened_sorted)
  · intro fold isOpen
    exact folds.opened_le fold.start (List.mem_map_of_mem isOpen)
  · exact List.pairwise_reverse.mpr (List.pairwise_map.mp spans.opened_sorted)
  · intro span isOpen
    exact spans.opened_le span.start (List.mem_map_of_mem isOpen)

end CilSketch
