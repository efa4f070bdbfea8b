import CilSketch.Proofs.Page.Regions
import CilSketch.Proofs.Trace.Balance
import Mathlib.Data.List.Induction

/-!
Which two events made a region. A closed region goes back to an opener and the closer that matches
it: between them, brackets of the same kind are balanced. Conversely every such pair of a trace has
made a region, and its place in the order of closing is the number of regions closed before.
-/

set_option autoImplicit false

namespace CilSketch

namespace Trace

variable {bracket : Bracket}

/-- An opener in a trace and the closer that matches it. -/
structure Pair (bracket : Bracket) (trace : Trace) where
  before : Trace
  opener : Event
  inner : Trace
  closer : Event
  later : Trace
  opens : opener.opens? = some bracket
  balanced : inner.Balanced bracket
  closes : closer.closes? = some bracket
  trace_eq : trace = before ++ opener :: inner ++ closer :: later

namespace Pair

variable {trace : Trace}

/-- The page right after the opener. -/
def opening (pair : Pair bracket trace) (page : Page) : Page :=
  page.play (pair.before ++ [pair.opener])

/-- The page right before the closer. -/
def closing (pair : Pair bracket trace) (page : Page) : Page :=
  page.play (pair.before ++ pair.opener :: pair.inner)

theorem closing_eq (pair : Pair bracket trace) (page : Page) :
    pair.closing page = (pair.opening page).play pair.inner := by
  rw [closing, opening, ← Page.play_append, List.append_assoc, List.singleton_append]

theorem play_eq (pair : Pair bracket trace) (page : Page) :
    page.play trace = ((pair.closing page).step pair.closer).play pair.later := by
  conv => lhs; rw [pair.trace_eq]
  rw [Page.play_append, Page.play_cons, closing]

end Pair

end Trace

theorem Page.play_concat (page : Page) (front : Trace) (event : Event) :
    page.play (front ++ [event]) = (page.play front).step event := by
  rw [play_append, play_cons, play_nil]

namespace RegionKind

variable {Mark Region : Type} (kind : RegionKind Mark Region)

/-- Only a closer that has something to close adds to the closed regions. -/
theorem closed_step (page : Page) (event : Event) :
    kind.closed (page.step event) = kind.closed page ∨
      ∃ innermost, event.closes? = some kind.bracket ∧
        kind.opened page = innermost :: kind.opened (page.step event) ∧
        kind.closed (page.step event) = kind.closed page ++ [kind.finish page innermost] := by
  cases kind.move page event with
  | other opens closes sameOpened sameClosed => exact .inl sameClosed
  | opener added opens marked pushed sameClosed => exact .inl sameClosed
  | closer innermost closes popped recorded => exact .inr ⟨innermost, closes, popped, recorded⟩
  | stray closes nothing sameOpened sameClosed => exact .inl sameClosed

theorem closed_prefix_play (page : Page) (trace : Trace) :
    kind.closed page <+: kind.closed (page.play trace) := by
  induction trace generalizing page with
  | nil => exact List.prefix_rfl
  | cons event rest ih =>
    refine List.IsPrefix.trans ?_ (ih (page.step event))
    rcases kind.closed_step page event with same | ⟨innermost, -, -, recorded⟩
    · simp [same]
    · simp [recorded]

/-- A trace that moves the depth of the kind moves the height of its stack alike, above all that
was open before. -/
theorem opened_play {depth after : Nat} {trace : Trace}
    (leads : trace.Leads kind.bracket depth after) {page : Page} {above base : List Mark}
    (opened : kind.opened page = above ++ base) (height : above.length = depth) :
    ∃ remaining, kind.opened (page.play trace) = remaining ++ base ∧
      remaining.length = after := by
  induction trace generalizing depth page above with
  | nil =>
    rw [Trace.leads_nil_iff] at leads
    exact ⟨above, opened, height.trans leads.symm⟩
  | cons event rest ih =>
    obtain ⟨middle, first, second⟩ := Trace.leads_cons_iff.mp leads
    rw [Page.play_cons]
    cases kind.move page event with
    | other opens closes sameOpened sameClosed =>
      have moved := (Trace.leads_other_iff opens closes).mp first
      exact ih second (sameOpened.trans opened) (height.trans moved.symm)
    | opener added opens marked pushed sameClosed =>
      have moved := (Trace.leads_opener_iff opens).mp first
      have grown : kind.opened (page.step event) = (added :: above) ++ base := by
        rw [pushed, opened, List.cons_append]
      exact ih second grown (by rw [List.length_cons, height, moved])
    | closer innermost closes popped recorded =>
      have moved := (Trace.leads_closer_iff closes).mp first
      obtain _ | ⟨top, lower⟩ := above
      · simp only [List.length_nil] at height
        omega
      rw [popped, List.cons_append, List.cons.injEq] at opened
      rw [List.length_cons] at height
      exact ih second opened.2 (by omega)
    | stray closes nothing sameOpened sameClosed =>
      have moved := (Trace.leads_closer_iff closes).mp first
      rw [nothing, List.nil_eq, List.append_eq_nil_iff] at opened
      rw [opened.1, List.length_nil] at height
      omega

/-- An opener of the trace left the mark, and since then the depth of the kind has grown by
`height`. -/
def OpenedBy (unit : String) (trace : Trace) (height : Nat) (mark : Mark) : Prop :=
  ∃ (before : Trace) (opener : Event) (inner : Trace), trace = before ++ opener :: inner ∧
    opener.opens? = some kind.bracket ∧ inner.Leads kind.bracket 0 height ∧
    kind.mark opener ((Page.blank unit).play (before ++ [opener])) = some mark

/-- A closer of the trace made the region, from what was innermost then, and so many regions were
recorded before. -/
def ClosedBy (unit : String) (trace : Trace) (index : Nat) (region : Region) : Prop :=
  ∃ (front : Trace) (closer : Event) (later : Trace) (innermost : Mark),
    trace = front ++ closer :: later ∧ closer.closes? = some kind.bracket ∧
    (kind.opened ((Page.blank unit).play front))[0]? = some innermost ∧
    region = kind.finish ((Page.blank unit).play front) innermost ∧
    (kind.closed ((Page.blank unit).play front)).length = index

variable {kind}

theorem OpenedBy.concat {unit : String} {trace : Trace} {height after : Nat} {mark : Mark}
    (openedBy : kind.OpenedBy unit trace height mark) {event : Event}
    (moved : Trace.Leads kind.bracket height [event] after) :
    kind.OpenedBy unit (trace ++ [event]) after mark := by
  obtain ⟨before, opener, inner, rfl, opens, leads, marked⟩ := openedBy
  refine ⟨before, opener, inner ++ [event], by simp, opens, ?_, marked⟩
  exact Trace.leads_append_iff.mpr ⟨height, leads, moved⟩

/-- The depth above a mark tells how far it is from the top, so this goes along the whole stack
at once. -/
theorem openedBy_of_getElem? {unit : String} (trace : Trace) {height : Nat} {mark : Mark}
    (isOpen : (kind.opened ((Page.blank unit).play trace))[height]? = some mark) :
    kind.OpenedBy unit trace height mark := by
  induction trace using List.reverseRecOn generalizing height with
  | nil =>
    rw [Page.play_nil, kind.opened_blank] at isOpen
    simp at isOpen
  | append_singleton front event ih =>
    rw [Page.play_concat] at isOpen
    cases kind.move ((Page.blank unit).play front) event with
    | other opens closes sameOpened sameClosed =>
      rw [sameOpened] at isOpen
      exact (ih isOpen).concat ((Trace.leads_other_iff opens closes).mpr rfl)
    | opener added opens marked pushed sameClosed =>
      rw [pushed] at isOpen
      cases height with
      | zero =>
        obtain rfl : added = mark := Option.some.inj isOpen
        refine ⟨front, event, [], rfl, opens, Trace.leads_nil_iff.mpr rfl, ?_⟩
        rw [Page.play_concat]
        exact marked
      | succ height => exact (ih isOpen).concat ((Trace.leads_opener_iff opens).mpr rfl)
    | closer innermost closes popped recorded =>
      have wasOpen : (kind.opened ((Page.blank unit).play front))[height + 1]? = some mark := by
        rw [popped]
        exact isOpen
      exact (ih wasOpen).concat ((Trace.leads_closer_iff closes).mpr rfl)
    | stray closes nothing sameOpened sameClosed =>
      rw [sameOpened] at isOpen
      simp at isOpen

theorem ClosedBy.concat {unit : String} {trace : Trace} {index : Nat} {region : Region}
    (closedBy : kind.ClosedBy unit trace index region) (event : Event) :
    kind.ClosedBy unit (trace ++ [event]) index region := by
  obtain ⟨front, closer, later, innermost, rfl, found⟩ := closedBy
  exact ⟨front, closer, later ++ [event], innermost, by simp, found⟩

theorem closedBy_of_getElem? {unit : String} (trace : Trace) {index : Nat} {region : Region}
    (isClosed : (kind.closed ((Page.blank unit).play trace))[index]? = some region) :
    kind.ClosedBy unit trace index region := by
  induction trace using List.reverseRecOn with
  | nil =>
    rw [Page.play_nil, kind.closed_blank] at isClosed
    simp at isClosed
  | append_singleton front event ih =>
    rw [Page.play_concat] at isClosed
    rcases kind.closed_step ((Page.blank unit).play front) event with
      same | ⟨innermost, closes, popped, recorded⟩
    · rw [same] at isClosed
      exact (ih isClosed).concat event
    rw [recorded] at isClosed
    rcases Nat.lt_or_ge index (kind.closed ((Page.blank unit).play front)).length with old | new
    · rw [List.getElem?_append_left old] at isClosed
      exact (ih isClosed).concat event
    · rw [List.getElem?_append_right new, List.getElem?_singleton] at isClosed
      obtain ⟨last, rfl⟩ : index - _ = 0 ∧ _ = region := by simpa using isClosed
      refine ⟨front, event, [], innermost, rfl, closes, ?_, rfl, by omega⟩
      rw [popped, List.getElem?_cons_zero]

variable (kind)

/-- The mark of the opener is innermost again right before the closer that matches it. -/
theorem opened_closing (page : Page) {trace : Trace} (pair : trace.Pair kind.bracket) {mark : Mark}
    (marked : kind.mark pair.opener (pair.opening page) = some mark) :
    ∃ outer, kind.opened (pair.closing page) = mark :: outer := by
  have opening : pair.opening page = (page.play pair.before).step pair.opener :=
    Page.play_concat page pair.before pair.opener
  obtain ⟨added, marksAdded, pushed, -⟩ :=
    kind.step_opener (page.play pair.before) pair.opener pair.opens
  rw [← opening] at marksAdded pushed
  obtain rfl : added = mark := Option.some.inj (marksAdded.symm.trans marked)
  have bottom : kind.opened (pair.opening page) =
      [] ++ added :: kind.opened (page.play pair.before) :=
    pushed
  obtain ⟨remaining, opened, height⟩ :=
    kind.opened_play (Trace.balanced_iff_leads.mp pair.balanced) bottom rfl
  rw [List.length_eq_zero_iff.mp height, List.nil_append] at opened
  exact ⟨_, pair.closing_eq page ▸ opened⟩

/-- The regions that are recorded are those of matching pairs, each at the place that the regions
closed before it leave. -/
theorem getElem?_closed_iff (unit : String) (trace : Trace) (index : Nat) (region : Region) :
    (kind.closed ((Page.blank unit).play trace))[index]? = some region ↔
      ∃ (pair : trace.Pair kind.bracket) (mark : Mark),
        kind.mark pair.opener (pair.opening (.blank unit)) = some mark ∧
        region = kind.finish (pair.closing (.blank unit)) mark ∧
        (kind.closed (pair.closing (.blank unit))).length = index := by
  constructor
  · intro isClosed
    obtain ⟨front, closer, later, innermost, rfl, closes, isOpen, finished, place⟩ :=
      closedBy_of_getElem? trace isClosed
    obtain ⟨before, opener, inner, rfl, opens, leads, marked⟩ := openedBy_of_getElem? front isOpen
    have balanced := Trace.balanced_iff_leads.mpr leads
    exact ⟨⟨before, opener, inner, closer, later, opens, balanced, closes, rfl⟩, innermost, marked,
      finished, place⟩
  · rintro ⟨pair, mark, marked, rfl, rfl⟩
    obtain ⟨outer, opened⟩ := kind.opened_closing (.blank unit) pair marked
    obtain ⟨-, recorded⟩ :=
      kind.step_closer (pair.closing (.blank unit)) pair.closer mark outer pair.closes opened
    have kept := kind.closed_prefix_play ((pair.closing (.blank unit)).step pair.closer) pair.later
    rw [← pair.play_eq, recorded] at kept
    obtain ⟨more, whole⟩ := kept
    rw [← whole]
    simp

end RegionKind

end CilSketch
