import CilSketch.Proofs.Trace.Nesting

/-!
Balance of each kind of bracket by itself. `Leads` says by counting how a trace moves the depth of
one kind, and running the depths of a trace does the same for all kinds at once: a kind never goes
below zero exactly if no initial part has more closers of it than there is to close.
-/

set_option autoImplicit false

namespace CilSketch

theorem Bracket.forall_iff {holds : Bracket → Prop} :
    (∀ bracket, holds bracket) ↔ holds .span ∧ holds .block ∧ holds .fold := by
  constructor
  · intro all
    exact ⟨all .span, all .block, all .fold⟩
  · rintro ⟨ofSpan, ofBlock, ofFold⟩ (_ | _ | _)
    · exact ofSpan
    · exact ofBlock
    · exact ofFold

namespace Event

theorem closes?_eq_none {event : Event} {bracket : Bracket}
    (opens : event.opens? = some bracket) : event.closes? = none := by
  cases event <;> simp_all [opens?, closes?]

theorem opens?_eq_none {event : Event} {bracket : Bracket}
    (closes : event.closes? = some bracket) : event.opens? = none := by
  cases event <;> simp_all [opens?, closes?]

end Event

namespace Trace

/-- How often a trace opens a bracket. -/
def openers (bracket : Bracket) (trace : Trace) : Nat :=
  trace.countP fun event => event.opens? = some bracket

/-- How often a trace closes a bracket, or tries to. -/
def closers (bracket : Bracket) (trace : Trace) : Nat :=
  trace.countP fun event => event.closes? = some bracket

/-- No initial part closes more brackets of the kind than it opened, and at the end all are
closed. -/
structure Balanced (bracket : Bracket) (trace : Trace) : Prop where
  closers_le : ∀ initial, initial <+: trace → closers bracket initial ≤ openers bracket initial
  closers_eq : closers bracket trace = openers bracket trace

/-- A trace that starts with `depth` brackets of the kind open, never closes one that is not open,
and leaves `after` of them open. -/
structure Leads (bracket : Bracket) (depth : Nat) (trace : Trace) (after : Nat) : Prop where
  closers_le : ∀ initial, initial <+: trace →
    closers bracket initial ≤ depth + openers bracket initial
  closers_eq : after + closers bracket trace = depth + openers bracket trace

variable {bracket : Bracket}

theorem openers_singleton (event : Event) :
    openers bracket [event] = if event.opens? = some bracket then 1 else 0 := by
  simp [openers, List.countP_singleton]

theorem closers_singleton (event : Event) :
    closers bracket [event] = if event.closes? = some bracket then 1 else 0 := by
  simp [closers, List.countP_singleton]

theorem openers_append (a b : Trace) :
    openers bracket (a ++ b) = openers bracket a + openers bracket b :=
  List.countP_append

theorem closers_append (a b : Trace) :
    closers bracket (a ++ b) = closers bracket a + closers bracket b :=
  List.countP_append

theorem balanced_iff_leads {trace : Trace} : Balanced bracket trace ↔ Leads bracket 0 trace 0 := by
  constructor
  · intro balanced
    refine ⟨?_, by rw [balanced.closers_eq]⟩
    intro initial isInitial
    rw [Nat.zero_add]
    exact balanced.closers_le initial isInitial
  · intro leads
    refine ⟨?_, by simpa using leads.closers_eq⟩
    intro initial isInitial
    simpa using leads.closers_le initial isInitial

theorem leads_nil_iff {depth after : Nat} : Leads bracket depth [] after ↔ after = depth := by
  constructor
  · intro leads
    exact leads.closers_eq
  · rintro rfl
    refine ⟨?_, rfl⟩
    intro initial isInitial
    rw [List.prefix_nil.mp isInitial]
    exact Nat.zero_le _

theorem leads_singleton_iff {depth after : Nat} {event : Event} :
    Leads bracket depth [event] after ↔
      after + closers bracket [event] = depth + openers bracket [event] := by
  constructor
  · intro leads
    exact leads.closers_eq
  · intro counted
    refine ⟨?_, counted⟩
    intro initial isInitial
    rcases List.prefix_cons_iff.mp isInitial with rfl | ⟨tail, rfl, isTail⟩
    · exact Nat.zero_le _
    · rw [List.prefix_nil.mp isTail]
      omega

theorem leads_other_iff {depth after : Nat} {event : Event} (opens : event.opens? ≠ some bracket)
    (closes : event.closes? ≠ some bracket) :
    Leads bracket depth [event] after ↔ after = depth := by
  rw [leads_singleton_iff, openers_singleton, closers_singleton, if_neg opens, if_neg closes]
  simp

theorem leads_opener_iff {depth after : Nat} {event : Event} (opens : event.opens? = some bracket) :
    Leads bracket depth [event] after ↔ after = depth + 1 := by
  have closes : event.closes? ≠ some bracket := by simp [Event.closes?_eq_none opens]
  rw [leads_singleton_iff, openers_singleton, closers_singleton, if_pos opens, if_neg closes]
  simp

theorem leads_closer_iff {depth after : Nat} {event : Event}
    (closes : event.closes? = some bracket) :
    Leads bracket depth [event] after ↔ after + 1 = depth := by
  have opens : event.opens? ≠ some bracket := by simp [Event.opens?_eq_none closes]
  rw [leads_singleton_iff, openers_singleton, closers_singleton, if_neg opens, if_pos closes]
  simp

theorem leads_append_iff {depth after : Nat} {a b : Trace} :
    Leads bracket depth (a ++ b) after ↔
      ∃ middle, Leads bracket depth a middle ∧ Leads bracket middle b after := by
  constructor
  · intro leads
    have counted := leads.closers_eq
    have bounded := leads.closers_le a (List.prefix_append a b)
    rw [openers_append, closers_append] at counted
    refine ⟨depth + openers bracket a - closers bracket a, ⟨?_, by omega⟩, ⟨?_, by omega⟩⟩
    · intro initial isInitial
      exact leads.closers_le initial (List.prefix_append_of_prefix isInitial)
    · intro initial isInitial
      have whole := leads.closers_le (a ++ initial) ((List.prefix_append_right_inj a).mpr isInitial)
      rw [openers_append, closers_append] at whole
      omega
  · rintro ⟨middle, first, second⟩
    have countedFirst := first.closers_eq
    have countedSecond := second.closers_eq
    refine ⟨?_, by rw [openers_append, closers_append]; omega⟩
    intro initial isInitial
    rcases List.prefix_or_prefix_of_prefix isInitial (List.prefix_append a b) with short | long
    · exact first.closers_le initial short
    · obtain ⟨tail, rfl⟩ := long
      have bounded := second.closers_le tail ((List.prefix_append_right_inj a).mp isInitial)
      rw [openers_append, closers_append]
      omega

theorem leads_cons_iff {depth after : Nat} {event : Event} {rest : Trace} :
    Leads bracket depth (event :: rest) after ↔
      ∃ middle, Leads bracket depth [event] middle ∧ Leads bracket middle rest after := by
  rw [← List.singleton_append, leads_append_iff]

end Trace

namespace Depths

open Trace (openers closers Leads)

def count (depths : Depths) : Bracket → Nat
  | .span => depths.spans
  | .block => depths.blocks
  | .fold => depths.folds

theorem eq_iff_count_eq (a b : Depths) :
    a = b ↔ ∀ bracket, a.count bracket = b.count bracket := by
  constructor
  · rintro rfl bracket
    rfl
  · intro same
    obtain ⟨spans, blocks, folds⟩ := a
    have sameSpans : spans = b.spans := same .span
    have sameBlocks : blocks = b.blocks := same .block
    have sameFolds : folds = b.folds := same .fold
    rw [sameSpans, sameBlocks, sameFolds]

/-- The kinds of brackets do not see each other: an event leads each depth to its next. -/
theorem step_eq_some_iff (depths after : Depths) (event : Event) :
    depths.step event = some after ↔
      ∀ bracket, Leads bracket (depths.count bracket) [event] (after.count bracket) := by
  simp only [Trace.leads_singleton_iff, Trace.openers_singleton, Trace.closers_singleton]
  cases event with
  | text | lineBreak | reference =>
    simp [step, Event.opens?, Event.closes?, eq_iff_count_eq, eq_comm]
  | beginSpan | indent | foldStart =>
    simp [step, Event.opens?, Event.closes?, eq_iff_count_eq, Bracket.forall_iff, count, eq_comm]
  | endSpan | unindent | foldEnd =>
    simp only [step, Event.opens?, Event.closes?, Option.ite_none_left_eq_some, Option.some.injEq,
      eq_iff_count_eq, Bracket.forall_iff, count, reduceCtorEq, reduceIte, Nat.add_zero]
    omega

/-- There are no depths after an event that closes something of which nothing is open. -/
theorem step_eq_none_iff (depths : Depths) (event : Event) :
    depths.step event = none ↔
      ∃ bracket, event.closes? = some bracket ∧ depths.count bracket = 0 := by
  cases event with
  | text | lineBreak | reference | beginSpan | indent | foldStart => simp [step, Event.closes?]
  | endSpan | unindent | foldEnd => simp [step, Event.closes?, count]

theorem foldlM_eq_some_iff (depths after : Depths) (trace : Trace) :
    trace.foldlM step depths = some after ↔
      ∀ bracket, Leads bracket (depths.count bracket) trace (after.count bracket) := by
  induction trace generalizing depths with
  | nil =>
    have same : ([] : Trace).foldlM step depths = some after ↔ after = depths := by
      simp [eq_comm]
    simp only [same, Trace.leads_nil_iff, eq_iff_count_eq]
  | cons event rest ih =>
    have split : (event :: rest).foldlM step depths = some after ↔
        ∃ middle, depths.step event = some middle ∧ rest.foldlM step middle = some after := by
      rw [List.foldlM_cons]
      exact Option.bind_eq_some_iff
    simp only [split, step_eq_some_iff, ih]
    constructor
    · rintro ⟨middle, first, second⟩ bracket
      exact Trace.leads_cons_iff.mpr ⟨middle.count bracket, first bracket, second bracket⟩
    · intro leads
      obtain ⟨spans, firstSpan, secondSpan⟩ := Trace.leads_cons_iff.mp (leads .span)
      obtain ⟨blocks, firstBlock, secondBlock⟩ := Trace.leads_cons_iff.mp (leads .block)
      obtain ⟨folds, firstFold, secondFold⟩ := Trace.leads_cons_iff.mp (leads .fold)
      refine ⟨⟨spans, blocks, folds⟩, ?_, ?_⟩
      · exact Bracket.forall_iff.mpr ⟨firstSpan, firstBlock, firstFold⟩
      · exact Bracket.forall_iff.mpr ⟨secondSpan, secondBlock, secondFold⟩

end Depths

theorem Trace.isBalanced_iff_forall_balanced (trace : Trace) :
    trace.isBalanced = true ↔ ∀ bracket, trace.Balanced bracket := by
  have empty : ∀ bracket, Depths.count {} bracket = 0 := by
    rintro (_ | _ | _) <;> rfl
  simp only [isBalanced, beq_iff_eq, Depths.foldlM_eq_some_iff, balanced_iff_leads, empty]

end CilSketch
