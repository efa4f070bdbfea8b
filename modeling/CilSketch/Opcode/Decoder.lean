import CilSketch.Bytes.Cursor
import CilSketch.Opcode.Basic

/-!
Opcodes one at a time. A decoder reports a missing second byte once, as its last item; after its
end every further poll gives nothing and changes nothing.
-/

set_option autoImplicit false

namespace CilSketch

/-- Reads one opcode. At the end of the data there is none to read, which counts as a cut one. -/
def Reader.opcode : Reader Opcode := do
  let offset := (← get).position
  let first ← peek.adaptExcept fun _ => .midOpcode offset
  if first = Opcode.extendedLead then
    let both ← (bytes 2).adaptExcept fun _ => .midOpcode offset
    return ⟨offset, first, both.getD 1 0⟩
  else
    (advance 1).adaptExcept fun _ => .midOpcode offset
    return ⟨offset, 0, first⟩

theorem Reader.remaining_lt_of_opcode {cursor after : Cursor} {found : Opcode}
    (read : Reader.opcode cursor = .ok found after) : after.remaining < cursor.remaining := by
  rw [Reader.opcode, bind_of_ok (get_apply cursor)] at read
  cases starts : cursor.rest with
  | nil =>
    rw [bind_of_error (adaptExcept_of_error (peek_of_rest_nil starts))] at read
    cases read
  | cons first rest =>
    rw [bind_of_ok (adaptExcept_of_ok (peek_of_rest_cons starts))] at read
    split at read
    · by_cases within : cursor.position + 2 ≤ cursor.data.length
      · rw [bind_of_ok (adaptExcept_of_ok (bytes_of_le within))] at read
        obtain ⟨-, rfl⟩ := EStateM.Result.ok.inj read
        simp only [Cursor.remaining]
        omega
      · rw [bind_of_error (adaptExcept_of_error (bytes_of_lt (Nat.lt_of_not_le within)))] at read
        cases read
    · by_cases within : cursor.position + 1 ≤ cursor.data.length
      · rw [bind_of_ok (adaptExcept_of_ok (advance_of_le within))] at read
        obtain ⟨-, rfl⟩ := EStateM.Result.ok.inj read
        simp only [Cursor.remaining]
        omega
      · rw [bind_of_error (adaptExcept_of_error (advance_of_lt (Nat.lt_of_not_le within)))] at read
        cases read

structure Decoder where
  cursor : Cursor
  failed : Bool

namespace Decoder

def start (code : Bytes) : Decoder :=
  ⟨Cursor.start code, false⟩

def position (decoder : Decoder) : Nat :=
  decoder.cursor.position

def remaining (decoder : Decoder) : Nat :=
  decoder.cursor.remaining

/-- The next item, if there is one, and the decoder after it. -/
def next (decoder : Decoder) : Option (Except ReadError Opcode) × Decoder :=
  if decoder.failed || !decoder.cursor.hasMore then (none, decoder)
  else
    match Reader.opcode decoder.cursor with
    | .ok opcode cursor => (some (.ok opcode), ⟨cursor, false⟩)
    | .error cause cursor => (some (.error cause), ⟨cursor, true⟩)

/-- The least and the greatest number of items still to come: an item takes one byte or two. -/
def sizeHint (decoder : Decoder) : Nat × Nat :=
  if decoder.failed then (0, 0) else ((decoder.remaining + 1) / 2, decoder.remaining)

/-- The outcome of each of the first `count` polls, with the decoder after it. -/
def polls (decoder : Decoder) : Nat → List (Option (Except ReadError Opcode) × Decoder)
  | 0 => []
  | count + 1 => decoder.next :: decoder.next.2.polls count

/-- An error uses up whatever is left of a decoder. -/
def budget (decoder : Decoder) : Nat :=
  if decoder.failed then 0 else decoder.remaining + 1

theorem budget_next_lt {decoder after : Decoder} {item : Except ReadError Opcode}
    (polled : decoder.next = (some item, after)) : after.budget < decoder.budget := by
  cases failed : decoder.failed with
  | true => simp [next, failed] at polled
  | false =>
    cases more : decoder.cursor.hasMore with
    | false => simp [next, more] at polled
    | true =>
      simp only [next, failed, more, Bool.not_true, Bool.or_self, Bool.false_eq_true,
        ↓reduceIte] at polled
      split at polled
      next read =>
        obtain ⟨-, rfl⟩ := Prod.mk.inj polled
        have shorter := Reader.remaining_lt_of_opcode read
        simpa [budget, failed, remaining] using shorter
      next =>
        obtain ⟨-, rfl⟩ := Prod.mk.inj polled
        simp [budget, failed]

/-- All that polling a decoder gives until it gives nothing. -/
def items (decoder : Decoder) : List (Except ReadError Opcode) :=
  match _ : decoder.next with
  | (none, _) => []
  | (some item, after) => item :: after.items
termination_by decoder.budget
decreasing_by exact budget_next_lt (by assumption)

end Decoder

end CilSketch
