import CilSketch.Proofs.Bytes.Reads
import CilSketch.Proofs.Opcode.Items
import CilSketch.Reading

/-!
Sessions of reads. Whatever was read before, each step says exactly where it succeeds and what it
gives there, and a step that fails leaves the cursor where it was. The one exception is text of an
even length that is no UTF-16: it is passed before it is refused.
-/

set_option autoImplicit false

namespace CilSketch

/-- A position in the given data, with the two ways of asking how much is left of it. -/
structure Cursor.Within (cursor : Cursor) (data : Bytes) : Prop where
  data_eq : cursor.data = data
  position_le : cursor.position ≤ data.length
  total : cursor.position + cursor.remaining = data.length
  hasMore_iff : cursor.hasMore = true ↔ cursor.position < data.length

theorem Cursor.within_of_data_eq {cursor : Cursor} {data : Bytes} (same : cursor.data = data) :
    cursor.Within data := by
  subst same
  exact ⟨rfl, cursor.position_le, cursor.position_add_remaining, by simp [hasMore]⟩

namespace Reader

variable {cursor after : Cursor} {cause : ReadError}

theorem peek_eq_ok_iff {byte : UInt8} :
    peek cursor = .ok byte after ↔ cursor.data[cursor.position]? = some byte ∧ after = cursor := by
  have head : cursor.data[cursor.position]? = cursor.rest.head? := by
    rw [Cursor.rest, List.head?_drop]
  cases starts : cursor.rest with
  | nil => simp [peek_of_rest_nil starts, head, starts]
  | cons first rest => simp [peek_of_rest_cons starts, head, starts, eq_comm]

theorem peek_eq_error_iff :
    peek cursor = .error cause after ↔
      cursor.data.length ≤ cursor.position ∧ cause = .outOfBounds ∧ after = cursor := by
  have done : cursor.data.length ≤ cursor.position ↔ cursor.rest = [] := by simp [Cursor.rest]
  cases starts : cursor.rest with
  | nil => simp [peek_of_rest_nil starts, done, starts, eq_comm]
  | cons first rest => simp [peek_of_rest_cons starts, done, starts]

theorem opcode_eq_ok {found : Opcode} (read : Reader.opcode cursor = .ok found after) :
    Opcode.head? cursor.position cursor.rest = some found ∧ after.data = cursor.data ∧
      after.position = cursor.position + found.size := by
  cases atHead : Opcode.head? cursor.position cursor.rest with
  | none =>
    rw [opcode_of_head?_none atHead] at read
    cases read
  | some opcode =>
    rw [opcode_of_fits atHead (fits_of_head? atHead)] at read
    obtain ⟨rfl, rfl⟩ := EStateM.Result.ok.inj read
    exact ⟨rfl, rfl, rfl⟩

theorem opcode_eq_error (read : Reader.opcode cursor = .error cause after) :
    Opcode.head? cursor.position cursor.rest = none ∧ after = cursor := by
  cases atHead : Opcode.head? cursor.position cursor.rest with
  | none =>
    rw [opcode_of_head?_none atHead] at read
    obtain ⟨-, rfl⟩ := EStateM.Result.error.inj read
    exact ⟨rfl, rfl⟩
  | some opcode =>
    rw [opcode_of_fits atHead (fits_of_head? atHead)] at read
    cases read

/-- The end position in words of 64 bits: a sum that wraps is refused, and any other one is compared
with the length. -/
def wordEnd? (position length count : UInt64) : Option UInt64 :=
  let last := position + count
  if last < position ∨ length < last then none else some last

theorem wordEnd?_eq_some_iff {position length count last : UInt64} :
    wordEnd? position length count = some last ↔
      position.toNat + count.toNat ≤ length.toNat ∧
        last.toNat = position.toNat + count.toNat := by
  have small := length.toNat_lt
  have word := count.toNat_lt
  have sum : (position + count).toNat = (position.toNat + count.toNat) % 2 ^ 64 :=
    UInt64.toNat_add position count
  simp only [wordEnd?, UInt64.lt_iff_toNat_lt, sum, Option.ite_none_left_eq_some,
    Option.some.injEq, ← UInt64.toNat_inj]
  omega

/-- Words of 64 bits lose nothing, as long as they can count the data. -/
theorem endPosition_eq_wordEnd? (addressable : cursor.data.length < 2 ^ 64) (count : UInt64) :
    endPosition count.toNat cursor =
      match wordEnd? (.ofNat cursor.position) (.ofNat cursor.data.length) count with
      | some last => .ok last.toNat cursor
      | none => .error .outOfBounds cursor := by
  have position : (UInt64.ofNat cursor.position).toNat = cursor.position :=
    UInt64.toNat_ofNat_of_lt (Nat.lt_of_le_of_lt cursor.position_le addressable)
  have length : (UInt64.ofNat cursor.data.length).toNat = cursor.data.length :=
    UInt64.toNat_ofNat_of_lt addressable
  by_cases within : cursor.position + count.toNat ≤ cursor.data.length
  · have last : (UInt64.ofNat (cursor.position + count.toNat)).toNat =
        cursor.position + count.toNat :=
      UInt64.toNat_ofNat_of_lt (Nat.lt_of_le_of_lt within addressable)
    have found : wordEnd? (.ofNat cursor.position) (.ofNat cursor.data.length) count =
        some (.ofNat (cursor.position + count.toNat)) :=
      wordEnd?_eq_some_iff.mpr ⟨by rwa [position, length], by rw [last, position]⟩
    simp only [found, last, endPosition, within, ↓reduceIte]
  · cases found : wordEnd? (.ofNat cursor.position) (.ofNat cursor.data.length) count with
    | none => simp [endPosition, within]
    | some last =>
      have reached := (wordEnd?_eq_some_iff.mp found).1
      rw [position, length] at reached
      exact absurd reached within

end Reader

namespace Opcode

theorem head?_eq_none_iff {offset : Nat} {code : Bytes} :
    head? offset code = none ↔ code = [] ∨ code = [extendedLead] := by
  constructor
  · intro cut
    by_cases more : code = []
    · exact .inl more
    · exact .inr (eq_lead_of_head?_none more cut)
  · rintro (rfl | rfl) <;> rfl

theorem bytes_eq_take_of_head? {offset : Nat} {code : Bytes} {opcode : Opcode}
    (found : head? offset code = some opcode) : opcode.bytes = code.take opcode.size := by
  have tiles := (head?_eq_some found).2
  calc opcode.bytes
      = (opcode.bytes ++ code.drop opcode.size).take opcode.bytes.length := List.take_left.symm
    _ = code.take opcode.size := by rw [tiles, length_bytes]

end Opcode

namespace ReadStep

/-- Where a step succeeds. Sizes add up as numbers, however large they are. -/
def Accepts (cursor : Cursor) : ReadStep → Prop
  | .scalar kind => cursor.position + kind.width ≤ cursor.data.length
  | .peek => cursor.position < cursor.data.length
  | .seek position => position < cursor.data.length
  | .advance count => cursor.position + count ≤ cursor.data.length
  | .bytes count => cursor.position + count ≤ cursor.data.length
  | .endPosition count => cursor.position + count ≤ cursor.data.length
  | .utf16ToEnd => ∃ text, Utf16.littleEndian text = cursor.rest
  | .opcode => cursor.rest ≠ [] ∧ cursor.rest ≠ [Opcode.extendedLead]

/-- What a step gives that succeeds, and the position where it ends. -/
def Yields (cursor : Cursor) : (step : ReadStep) → step.Result → Nat → Prop
  | .scalar kind, value, landing =>
      kind.encode value = (cursor.data.drop cursor.position).take kind.width ∧
        landing = cursor.position + kind.width
  | .peek, byte, landing =>
      cursor.data[cursor.position]? = some byte ∧ landing = cursor.position
  | .seek position, _, landing => landing = position
  | .advance count, _, landing => landing = cursor.position + count
  | .bytes count, value, landing =>
      value = (cursor.data.drop cursor.position).take count ∧ landing = cursor.position + count
  | .endPosition count, value, landing =>
      value = cursor.position + count ∧ landing = cursor.position
  | .utf16ToEnd, text, landing =>
      Utf16.littleEndian text = cursor.data.drop cursor.position ∧ landing = cursor.data.length
  | .opcode, found, landing =>
      found.offset = cursor.position ∧
        found.bytes = (cursor.data.drop cursor.position).take found.size ∧
        landing = cursor.position + found.size

/-- Where a step that fails ends: only text of an even length is passed nevertheless. -/
def failure (cursor : Cursor) : ReadStep → Cursor
  | .utf16ToEnd => if cursor.remaining % 2 = 0 then cursor.atEnd else cursor
  | _ => cursor

theorem data_failure (cursor : Cursor) (step : ReadStep) :
    (step.failure cursor).data = cursor.data := by
  cases step with
  | utf16ToEnd =>
    rw [failure]
    split <;> rfl
  | _ => rfl

variable {cursor after : Cursor} {step : ReadStep}

theorem slice_of_passes {bytes : Bytes} {count : Nat} (sized : bytes.length = count)
    (passes : cursor.Passes bytes after) :
    cursor.position + count ≤ cursor.data.length ∧
      bytes = (cursor.data.drop cursor.position).take count ∧
      after.position = cursor.position + count := by
  subst sized
  have total := cursor.position_add_remaining
  have fits := passes.length_le_remaining
  exact ⟨by omega, passes.eq_take, passes.position_eq⟩

theorem reader_eq_ok {value : step.Result} (read : step.reader cursor = .ok value after) :
    step.Accepts cursor ∧ step.Yields cursor value after.position ∧ after.data = cursor.data := by
  cases step with
  | scalar kind =>
    have passes := Reader.scalar_eq_ok_iff.mp read
    obtain ⟨within, slice⟩ := slice_of_passes (kind.length_encode value) passes
    exact ⟨within, slice, passes.data_eq⟩
  | peek =>
    obtain ⟨here, rfl⟩ := Reader.peek_eq_ok_iff.mp read
    exact ⟨(List.getElem?_eq_some_iff.mp here).1, ⟨here, rfl⟩, rfl⟩
  | seek position =>
    by_cases within : position < cursor.data.length
    · simp only [reader, Reader.seek, within, ↓reduceDIte, EStateM.Result.ok.injEq] at read
      obtain ⟨-, rfl⟩ := read
      exact ⟨within, rfl, rfl⟩
    · simp [reader, Reader.seek, within] at read
  | advance count =>
    obtain ⟨skipped, sized, passes⟩ := Reader.advance_eq_ok_iff.mp read
    obtain ⟨within, -, landed⟩ := slice_of_passes sized passes
    exact ⟨within, landed, passes.data_eq⟩
  | bytes count =>
    obtain ⟨sized, passes⟩ := Reader.bytes_eq_ok_iff.mp read
    obtain ⟨within, slice⟩ := slice_of_passes sized passes
    exact ⟨within, slice, passes.data_eq⟩
  | endPosition count =>
    by_cases within : cursor.position + count ≤ cursor.data.length
    · simp only [reader, Reader.endPosition, within, ↓reduceIte, EStateM.Result.ok.injEq] at read
      obtain ⟨rfl, rfl⟩ := read
      exact ⟨within, ⟨rfl, rfl⟩, rfl⟩
    · simp [reader, Reader.endPosition, within] at read
  | utf16ToEnd =>
    obtain ⟨whole, rfl⟩ := Reader.utf16ToEnd_eq_ok_iff.mp read
    exact ⟨⟨value, whole⟩, ⟨whole, rfl⟩, rfl⟩
  | opcode =>
    obtain ⟨atHead, data_eq, position_eq⟩ := Reader.opcode_eq_ok read
    refine ⟨?_, ⟨(Opcode.head?_eq_some atHead).1, Opcode.bytes_eq_take_of_head? atHead,
      position_eq⟩, data_eq⟩
    rw [Accepts, ← not_or, ← Opcode.head?_eq_none_iff, atHead]
    exact Option.some_ne_none _

theorem reader_eq_error {cause : ReadError} (read : step.reader cursor = .error cause after) :
    ¬step.Accepts cursor ∧ after = step.failure cursor := by
  cases step with
  | scalar kind =>
    obtain ⟨short, -, rfl⟩ := Reader.scalar_eq_error_iff.mp read
    exact ⟨Nat.not_le_of_lt short, rfl⟩
  | peek =>
    obtain ⟨short, -, rfl⟩ := Reader.peek_eq_error_iff.mp read
    exact ⟨Nat.not_lt_of_le short, rfl⟩
  | seek position =>
    by_cases within : position < cursor.data.length
    · simp [reader, Reader.seek, within] at read
    · simp only [reader, Reader.seek, within, ↓reduceDIte, EStateM.Result.error.injEq] at read
      exact ⟨within, read.2.symm⟩
  | advance count =>
    obtain ⟨short, -, rfl⟩ := Reader.advance_eq_error_iff.mp read
    exact ⟨Nat.not_le_of_lt short, rfl⟩
  | bytes count =>
    obtain ⟨short, -, rfl⟩ := Reader.bytes_eq_error_iff.mp read
    exact ⟨Nat.not_le_of_lt short, rfl⟩
  | endPosition count =>
    by_cases within : cursor.position + count ≤ cursor.data.length
    · simp [reader, Reader.endPosition, within] at read
    · simp only [reader, Reader.endPosition, within, ↓reduceIte, EStateM.Result.error.injEq] at read
      exact ⟨within, read.2.symm⟩
  | utf16ToEnd =>
    -- The one step that may fail behind where it started.
    refine ⟨?_, ?_⟩
    · rintro ⟨text, whole⟩
      have accepted := Reader.utf16ToEnd_eq_ok_iff.mpr ⟨whole, rfl⟩
      rw [reader, accepted] at read
      cases read
    · rw [failure, ← Cursor.length_rest]
      rcases Reader.utf16ToEnd_eq_error_iff.mp read with ⟨odd, -, rfl⟩ | ⟨even, -, -, rfl⟩
      · rw [if_neg (by omega)]
      · rw [if_pos even]
  | opcode =>
    obtain ⟨cut, rfl⟩ := Reader.opcode_eq_error read
    refine ⟨?_, rfl⟩
    rw [Accepts, ← not_or, not_not]
    exact Opcode.head?_eq_none_iff.mp cut

end ReadStep

namespace Reading

/-- What may be relied on after a step, knowing the cursor before it. -/
structure Sound (before : Cursor) (reading : Reading) : Prop where
  data_eq : reading.after.data = before.data
  ok_iff : (∃ value, reading.result = .ok value) ↔ reading.step.Accepts before
  yields : ∀ value, reading.result = .ok value →
    reading.step.Yields before value reading.after.position
  atomic : ∀ cause, reading.result = .error cause → reading.after = reading.step.failure before

theorem sound_perform (cursor : Cursor) (step : ReadStep) :
    (perform cursor step).Sound cursor := by
  cases read : step.reader cursor with
  | ok value after =>
    obtain ⟨accepts, yields, data_eq⟩ := ReadStep.reader_eq_ok read
    rw [perform, read]
    refine ⟨data_eq, ⟨fun _ => accepts, fun _ => ⟨value, rfl⟩⟩, ?_, ?_⟩
    · intro given same
      obtain rfl := Except.ok.inj same
      exact yields
    · intro cause failed
      cases failed
  | error cause after =>
    obtain ⟨refused, rfl⟩ := ReadStep.reader_eq_error read
    rw [perform, read]
    refine ⟨?_, ⟨?_, fun accepts => absurd accepts refused⟩, ?_, fun _ _ => rfl⟩
    · exact ReadStep.data_failure cursor step
    · rintro ⟨value, given⟩
      cases given
    · intro value given
      cases given

/-- Where a session leaves the cursor. -/
def cursorAfter (cursor : Cursor) (steps : List ReadStep) : Cursor :=
  steps.foldl (fun cursor step => (perform cursor step).after) cursor

theorem session_append (cursor : Cursor) (front back : List ReadStep) :
    session cursor (front ++ back) =
      session cursor front ++ session (cursorAfter cursor front) back := by
  induction front generalizing cursor with
  | nil => rfl
  | cons first rest ih =>
    simp only [List.cons_append, session, ih]
    rfl

theorem session_append_singleton (cursor : Cursor) (done : List ReadStep) (step : ReadStep) :
    session cursor (done ++ [step]) =
      session cursor done ++ [perform (cursorAfter cursor done) step] :=
  session_append cursor done [step]

theorem data_cursorAfter (cursor : Cursor) (steps : List ReadStep) :
    (cursorAfter cursor steps).data = cursor.data := by
  induction steps generalizing cursor with
  | nil => rfl
  | cons step rest ih => exact (ih _).trans (sound_perform cursor step).data_eq

end Reading

/-- Any session goes on with a step like this: the cursor that it has reached is still a position in
the data, and so is the one after the step; the step succeeds exactly where it should, gives what it
should, and otherwise does not move, apart from text of an even length. Sizes compare as numbers
of any magnitude, which is what words of 64 bits with a check for overflow amount to. -/
theorem session_step_safe_and_atomic (data : Bytes) (done : List ReadStep) (step : ReadStep) :
    let before := Reading.cursorAfter (Cursor.start data) done
    let reading := Reading.perform before step
    Reading.session (Cursor.start data) (done ++ [step]) =
        Reading.session (Cursor.start data) done ++ [reading] ∧
      before.Within data ∧ reading.after.Within data ∧ reading.Sound before ∧
      (data.length < 2 ^ 64 → ∀ count : UInt64,
        Reader.endPosition count.toNat before =
          match Reader.wordEnd? (.ofNat before.position) (.ofNat data.length) count with
          | some last => .ok last.toNat before
          | none => .error .outOfBounds before) := by
  intro before reading
  have same : before.data = data := Reading.data_cursorAfter (Cursor.start data) done
  have sound := Reading.sound_perform before step
  refine ⟨Reading.session_append_singleton _ done step, Cursor.within_of_data_eq same,
    Cursor.within_of_data_eq (sound.data_eq.trans same), sound, ?_⟩
  intro addressable count
  rw [← same] at addressable ⊢
  exact Reader.endPosition_eq_wordEnd? addressable count

end CilSketch
