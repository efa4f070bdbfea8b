import CilSketch.Proofs.Opcode.Items
import Mathlib.Algebra.Ring.Nat

/-!
A decoder polled any number of times. Where it stands then follows from the items it has yielded,
its size hint holds for the items still to come, and neither the one error nor the end is followed
by anything.
-/

set_option autoImplicit false

namespace CilSketch

namespace Opcode

theorem size_eq_one_or_two (opcode : Opcode) : opcode.size = 1 ∨ opcode.size = 2 := by
  unfold size
  split
  · exact .inr rfl
  · exact .inl rfl

end Opcode

namespace Listing

/-- The lead byte that is left over is one byte and one item. -/
theorem length_items_ofBytes (offset : Nat) (code : Bytes) :
    (code.length + 1) / 2 ≤ (ofBytes offset code).items.length ∧
      (ofBytes offset code).items.length ≤ code.length := by
  induction offset, code using bytes_induction with
  | nil offset => exact ⟨Nat.le_refl _, Nat.le_refl _⟩
  | dangling offset => exact ⟨Nat.le_refl _, Nat.le_refl _⟩
  | opcode offset opcode rest found ih =>
    rw [ofBytes_bytes_append found, items_cons, List.length_cons, List.length_append,
      Opcode.length_bytes]
    rcases opcode.size_eq_one_or_two with size | size <;> omega

end Listing

namespace Decoder

/-- A decoder has nothing to yield after its error or at the end of the code. -/
def IsSpent (decoder : Decoder) : Prop :=
  decoder.failed = true ∨ decoder.cursor.rest = []

/-- All that one poll can do. -/
inductive Poll (decoder : Decoder) : Option (Except ReadError Opcode) → Decoder → Prop where
  | ended (spent : decoder.IsSpent) : Poll decoder none decoder
  | opcode (opcode : Opcode) (after : Decoder)
      (running : decoder.failed = false) (stillRunning : after.failed = false)
      (sameData : after.cursor.data = decoder.cursor.data)
      (offset : opcode.offset = decoder.position)
      (position : after.position = decoder.position + opcode.size) :
      Poll decoder (some (.ok opcode)) after
  | cut (running : decoder.failed = false)
      (lone : decoder.cursor.rest = [Opcode.extendedLead]) :
      Poll decoder (some (.error (.midOpcode decoder.position))) ⟨decoder.cursor, true⟩

theorem next_of_spent {decoder : Decoder} (spent : decoder.IsSpent) :
    decoder.next = (none, decoder) := by
  rcases spent with failed | done
  · simp [next, failed]
  · exact next_of_rest_nil done

theorem poll_next (decoder : Decoder) : Poll decoder decoder.next.1 decoder.next.2 := by
  by_cases spent : decoder.IsSpent
  · rw [next_of_spent spent]
    exact .ended spent
  · rw [IsSpent, not_or, Bool.not_eq_true] at spent
    obtain ⟨running, more⟩ := spent
    cases found : Opcode.head? decoder.position decoder.cursor.rest with
    | none =>
      rw [next_of_head?_none running more found]
      exact .cut running (Opcode.eq_lead_of_head?_none more found)
    | some opcode =>
      -- `next_of_head?` does not say that the data stays the same, so the read is taken whole.
      have read := Reader.opcode_of_fits found (Reader.fits_of_head? found)
      simp only [next, running, Cursor.hasMore_eq, more, read, ne_eq, not_false_eq_true,
        decide_true, Bool.not_true, Bool.or_false, Bool.false_eq_true, ↓reduceIte]
      exact .opcode opcode _ running rfl rfl (Opcode.head?_eq_some found).1 rfl

theorem poll_of_next {decoder after : Decoder} {item : Option (Except ReadError Opcode)}
    (polled : decoder.next = (item, after)) : Poll decoder item after := by
  have outcome := decoder.poll_next
  rwa [polled] at outcome

/-- The decoder after some polls. -/
def after (decoder : Decoder) : Nat → Decoder
  | 0 => decoder
  | count + 1 => (decoder.after count).next.2

/-- The items of the first polls. -/
def yielded (decoder : Decoder) (count : Nat) : List (Except ReadError Opcode) :=
  (decoder.polls count).filterMap Prod.fst

theorem after_next (decoder : Decoder) (count : Nat) :
    decoder.next.2.after count = decoder.after (count + 1) := by
  induction count with
  | zero => rfl
  | succ count ih => rw [after, ih, ← after]

theorem polls_succ (decoder : Decoder) (count : Nat) :
    decoder.polls (count + 1) = decoder.polls count ++ [(decoder.after count).next] := by
  induction count generalizing decoder with
  | zero => rfl
  | succ count ih =>
    rw [polls, ih, after_next, polls, List.cons_append]

theorem yielded_succ (decoder : Decoder) (count : Nat) :
    decoder.yielded (count + 1) =
      decoder.yielded count ++ (decoder.after count).next.1.toList := by
  rw [yielded, polls_succ, List.filterMap_append]
  cases outcome : (decoder.after count).next.1 with
  | none => simp [yielded, outcome]
  | some item => simp [yielded, outcome]

theorem next_after_of_spent {decoder : Decoder} (spent : decoder.IsSpent) (count : Nat) :
    (decoder.after count).next = (none, decoder) := by
  have unmoved : decoder.after count = decoder := by
    induction count with
    | zero => rfl
    | succ count ih => rw [after, ih, next_of_spent spent]
  rw [unmoved, next_of_spent spent]

theorem items_eq_nil_iff (decoder : Decoder) : decoder.items = [] ↔ decoder.next.1 = none := by
  rcases polled : decoder.next with ⟨item, after⟩
  cases item with
  | none => simp [items_of_next_none polled]
  | some item => simp [items_of_next_some polled]

theorem items_next (decoder : Decoder) : decoder.next.2.items = decoder.items.tail := by
  rcases polled : decoder.next with ⟨item, after⟩
  cases item with
  | none =>
    cases poll_of_next polled with
    | ended spent => simp [items_of_next_none polled]
  | some item => rw [items_of_next_some polled, List.tail_cons]

theorem items_after (decoder : Decoder) (count : Nat) :
    (decoder.after count).items = decoder.items.drop count := by
  induction count with
  | zero => rfl
  | succ count ih => rw [after, items_next, ih, List.tail_drop]

theorem sizeHint_bounds_items (decoder : Decoder) :
    decoder.sizeHint.1 ≤ decoder.items.length ∧ decoder.items.length ≤ decoder.sizeHint.2 := by
  cases failed : decoder.failed with
  | true => simp [sizeHint, failed, items_of_failed failed]
  | false =>
    have bounds := Listing.length_items_ofBytes decoder.position decoder.cursor.rest
    rw [Cursor.length_rest, ← items_eq_items_listing decoder failed] at bounds
    simpa [sizeHint, failed, remaining] using bounds

/-- How many bytes the opcodes among the items take. -/
def consumed (items : List (Except ReadError Opcode)) : Nat :=
  ((items.filterMap Except.toOption).map Opcode.size).sum

theorem consumed_append (first second : List (Except ReadError Opcode)) :
    consumed (first ++ second) = consumed first + consumed second := by
  simp [consumed]

/-- What an iterator owes its caller at any moment, given the items it has yielded until then. -/
structure Contract (code : Bytes) (yielded : List (Except ReadError Opcode)) (decoder : Decoder) :
    Prop where
  /-- The size hint holds for the items still to come, the error included. -/
  hint : decoder.sizeHint.1 ≤ decoder.items.length ∧ decoder.items.length ≤ decoder.sizeHint.2
  whole : decoder.position + decoder.remaining = code.length
  position : decoder.position = consumed yielded
  /-- An opcode starts where the decoder stood and moves it by its own size. -/
  opcode : ∀ opcode after, decoder.next = (some (.ok opcode), after) →
    (opcode.size = 1 ∨ opcode.size = 2) ∧ opcode.offset = decoder.position ∧
      after.position = decoder.position + opcode.size
  /-- An error moves nothing. There was none before it, and nothing comes after it. -/
  error : ∀ cause after, decoder.next = (some (.error cause), after) →
    after.position = decoder.position ∧ (∀ earlier, .error earlier ∉ yielded) ∧
      ∀ count, (after.after count).next.1 = none
  /-- An end is final, and it is the end of the code unless there was an error. -/
  ended : ∀ after, decoder.next = (none, after) →
    after = decoder ∧ (∀ count, (decoder.after count).next = (none, decoder)) ∧
      (decoder.position = code.length ↔ ∀ cause, .error cause ∉ yielded)

/-- What the items yielded so far tell about a decoder. -/
structure Reached (code : Bytes) (yielded : List (Except ReadError Opcode)) (decoder : Decoder) :
    Prop where
  sameData : decoder.cursor.data = code
  position : decoder.position = consumed yielded
  running : decoder.failed = false → ∀ cause, .error cause ∉ yielded
  -- The byte that is left keeps a failed decoder from the end of the code.
  cut : decoder.failed = true →
    decoder.cursor.rest = [Opcode.extendedLead] ∧ ∃ cause, .error cause ∈ yielded

theorem reached_start (code : Bytes) : Reached code [] (start code) where
  sameData := rfl
  position := rfl
  running _ _ := List.not_mem_nil
  cut failed := by cases failed

namespace Reached

variable {code : Bytes} {yielded : List (Except ReadError Opcode)} {decoder : Decoder}

theorem next (reached : Reached code yielded decoder) :
    Reached code (yielded ++ decoder.next.1.toList) decoder.next.2 := by
  rcases polled : decoder.next with ⟨item, after⟩
  cases poll_of_next polled with
  | ended spent => simpa using reached
  | opcode opcode after running stillRunning sameData offset position =>
    refine ⟨sameData.trans reached.sameData, ?_, ?_, ?_⟩
    · rw [position, reached.position, consumed_append]
      rfl
    · intro _ cause
      simpa using reached.running running cause
    · rw [stillRunning]
      nofun
  | cut running lone =>
    refine ⟨reached.sameData, ?_, nofun, ?_⟩
    · rw [consumed_append]
      exact reached.position
    · exact fun _ => ⟨lone, .midOpcode decoder.position, by simp⟩

theorem position_add_remaining (reached : Reached code yielded decoder) :
    decoder.position + decoder.remaining = code.length := by
  rw [← reached.sameData]
  exact decoder.cursor.position_add_remaining

/-- An end is the end of the code unless there was an error. -/
theorem position_eq_length_iff (reached : Reached code yielded decoder) (spent : decoder.IsSpent) :
    decoder.position = code.length ↔ ∀ cause, .error cause ∉ yielded := by
  have whole := reached.position_add_remaining
  have rest : decoder.cursor.rest.length = decoder.remaining := decoder.cursor.length_rest
  cases failed : decoder.failed with
  | false =>
    have done : decoder.cursor.rest = [] := by simpa [IsSpent, failed] using spent
    rw [done, List.length_nil] at rest
    exact iff_of_true (by omega) (reached.running failed)
  | true =>
    obtain ⟨lone, cause, reported⟩ := reached.cut failed
    rw [lone, List.length_singleton] at rest
    exact iff_of_false (by omega) fun clean => clean cause reported

theorem contract (reached : Reached code yielded decoder) : Contract code yielded decoder where
  hint := decoder.sizeHint_bounds_items
  whole := reached.position_add_remaining
  position := reached.position
  opcode opcode after polled := by
    cases poll_of_next polled with
    | opcode _ _ running stillRunning sameData offset position =>
      exact ⟨opcode.size_eq_one_or_two, offset, position⟩
  error cause after polled := by
    cases poll_of_next polled with
    | cut running lone =>
      refine ⟨rfl, reached.running running, fun count => ?_⟩
      rw [next_after_of_spent (.inl rfl)]
  ended after polled := by
    cases poll_of_next polled with
    | ended spent =>
      exact ⟨rfl, next_after_of_spent spent, reached.position_eq_length_iff spent⟩

end Reached

theorem reached_after (code : Bytes) (count : Nat) :
    Reached code ((start code).yielded count) ((start code).after count) := by
  induction count with
  | zero => exact reached_start code
  | succ count ih =>
    rw [yielded_succ]
    exact ih.next

end Decoder

/-- A decoder honours the contract of an iterator after every number of polls, and comes to its end
in at most one poll more than its code has bytes. -/
theorem decoder_honours_iterator_contract (code : Bytes) :
    (∀ count, Decoder.Contract code ((Decoder.start code).yielded count)
      ((Decoder.start code).after count)) ∧
    ∃ total, total ≤ code.length ∧
      ∀ count, ((Decoder.start code).after count).next.1 = none ↔ total ≤ count := by
  refine ⟨fun count => (Decoder.reached_after code count).contract, ?_⟩
  refine ⟨(Decoder.start code).items.length, (Decoder.start code).sizeHint_bounds_items.2, ?_⟩
  intro count
  rw [← Decoder.items_eq_nil_iff, Decoder.items_after, List.drop_eq_nil_iff]

/-- After its error a decoder has a byte left over but promises no item. -/
example : ((Decoder.start [0xFE]).after 1).remaining = 1 ∧
    ((Decoder.start [0xFE]).after 1).sizeHint = (0, 0) := by
  decide

end CilSketch
