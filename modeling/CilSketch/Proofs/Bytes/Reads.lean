import CilSketch.Bytes.Cursor
import CilSketch.Bytes.RoundTrip
import CilSketch.Proofs.Text.Utf16

/-!
What each read accepts. A read that succeeds has passed some bytes at the front of what was left,
and it succeeds exactly if these are the bytes of the value it gives. A read of a fixed size that
fails lacked bytes and has passed none; only text can fail after it was passed.
-/

set_option autoImplicit false

namespace CilSketch

namespace Scalar

theorem pattern_ofPattern (kind : Scalar) {n : Nat} (small : n < 256 ^ kind.width) :
    kind.pattern (kind.ofPattern n) = n := by
  have kept : n % 256 ^ kind.width = n := Nat.mod_eq_of_lt small
  cases kind with
  | uint8 | uint16 | uint32 | uint64 => exact kept
  | int8 | int16 | int32 | int64 => simpa [pattern, ofPattern, width] using small
  | single | double => exact (BitVec.toNat_ofNat _ _).trans kept

theorem pattern_decode (kind : Scalar) {bytes : Bytes} (sized : bytes.length = kind.width) :
    kind.pattern (kind.decode bytes) = LittleEndian.decode bytes := by
  apply kind.pattern_ofPattern
  rw [← sized]
  exact LittleEndian.decode_lt bytes

/-- Every string of the right length is the encoding of the value that it decodes to. -/
theorem encode_decode (kind : Scalar) {bytes : Bytes} (sized : bytes.length = kind.width) :
    kind.encode (kind.decode bytes) = bytes := by
  rw [encode, kind.pattern_decode sized, ← sized, LittleEndian.encode_decode]

end Scalar

namespace Cursor

/-- From the one cursor to the other exactly the given bytes are passed. -/
structure Passes (before : Cursor) (bytes : Bytes) (after : Cursor) : Prop where
  data_eq : after.data = before.data
  position_eq : after.position = before.position + bytes.length
  rest_eq : before.rest = bytes ++ after.rest

theorem rest_start (data : Bytes) : (start data).rest = data := rfl

theorem eq_of_position_eq {a b : Cursor} (data : a.data = b.data)
    (position : a.position = b.position) : a = b := by
  obtain ⟨_, _, _⟩ := a
  obtain ⟨_, _, _⟩ := b
  simp only at data position
  subst data position
  rfl

namespace Passes

variable {before middle after : Cursor} {front back bytes : Bytes}

theorem append (first : before.Passes front middle) (second : middle.Passes back after) :
    before.Passes (front ++ back) after where
  data_eq := second.data_eq.trans first.data_eq
  position_eq := by
    rw [second.position_eq, first.position_eq, List.length_append, Nat.add_assoc]
  rest_eq := by rw [first.rest_eq, second.rest_eq, List.append_assoc]

theorem length_le_remaining (passes : before.Passes bytes after) :
    bytes.length ≤ before.remaining := by
  rw [← length_rest, passes.rest_eq, List.length_append]
  exact Nat.le_add_right _ _

theorem eq_take (passes : before.Passes bytes after) : bytes = before.rest.take bytes.length := by
  rw [passes.rest_eq, List.take_left]

end Passes

/-- Bytes can be passed if what is left starts with them. -/
theorem exists_passes {cursor : Cursor} {bytes rest : Bytes}
    (starts : cursor.rest = bytes ++ rest) :
    ∃ after, cursor.Passes bytes after ∧ after.rest = rest := by
  have fits : cursor.position + bytes.length ≤ cursor.data.length := by
    have total := cursor.position_add_remaining
    rw [← length_rest, starts, List.length_append] at total
    omega
  have left : cursor.data.drop (cursor.position + bytes.length) = rest := by
    rw [← List.drop_drop]
    change cursor.rest.drop bytes.length = rest
    rw [starts, List.drop_left]
  refine ⟨⟨cursor.data, cursor.position + bytes.length, fits⟩, ⟨rfl, rfl, ?_⟩, left⟩
  rw [starts]
  exact congrArg _ left.symm

theorem passes_append_iff {before after : Cursor} {front back : Bytes} :
    before.Passes (front ++ back) after ↔
      ∃ middle, before.Passes front middle ∧ middle.Passes back after := by
  constructor
  · intro passes
    have starts : before.rest = front ++ (back ++ after.rest) := by
      rw [passes.rest_eq, List.append_assoc]
    obtain ⟨middle, first, left⟩ := exists_passes starts
    refine ⟨middle, first, passes.data_eq.trans first.data_eq.symm, ?_, left⟩
    rw [passes.position_eq, first.position_eq, List.length_append, Nat.add_assoc]
  · rintro ⟨middle, first, second⟩
    exact first.append second

theorem passes_take {cursor : Cursor} {count : Nat}
    (within : cursor.position + count ≤ cursor.data.length) :
    cursor.Passes (cursor.rest.take count) ⟨cursor.data, cursor.position + count, within⟩ where
  data_eq := rfl
  position_eq := by
    have total := cursor.position_add_remaining
    rw [List.length_take, length_rest, Nat.min_eq_left (by omega)]
  rest_eq := by
    change _ = _ ++ cursor.data.drop (cursor.position + count)
    rw [← List.drop_drop]
    exact (List.take_append_drop count cursor.rest).symm

end Cursor

namespace Reader

variable {α β : Type} {cursor after : Cursor} {cause : ReadError}

theorem bind_eq_ok_iff {reader : Reader α} {next : α → Reader β} {value : β} :
    (reader >>= next) cursor = .ok value after ↔
      ∃ first middle, reader cursor = .ok first middle ∧ next first middle = .ok value after := by
  simp only [bind, EStateM.bind]
  cases reader cursor <;> simp [and_assoc]

theorem bind_eq_error_iff {reader : Reader α} {next : α → Reader β} :
    (reader >>= next) cursor = .error cause after ↔
      reader cursor = .error cause after ∨
        ∃ first middle, reader cursor = .ok first middle ∧
          next first middle = .error cause after := by
  simp only [bind, EStateM.bind]
  cases reader cursor <;> simp [and_assoc]

theorem pure_eq_ok_iff {given value : α} :
    (pure given : Reader α) cursor = .ok value after ↔ given = value ∧ cursor = after := by
  simp [pure, EStateM.pure]

theorem readFrom_eq_ok_iff {reader : Reader α} {data : Bytes} {value : α} :
    reader.readFrom data = .ok value ↔ ∃ after, reader (Cursor.start data) = .ok value after := by
  unfold readFrom
  cases reader (Cursor.start data) <;> simp

theorem readFrom_eq_error_iff {reader : Reader α} {data : Bytes} :
    reader.readFrom data = .error cause ↔
      ∃ after, reader (Cursor.start data) = .error cause after := by
  unfold readFrom
  cases reader (Cursor.start data) <;> simp

theorem advance_eq_error_iff {count : Nat} :
    advance count cursor = .error cause after ↔
      cursor.data.length < cursor.position + count ∧ cause = .outOfBounds ∧ after = cursor := by
  by_cases within : cursor.position + count ≤ cursor.data.length
  · simp [advance_of_le within, Nat.not_lt_of_le within]
  · simp [advance, within, Nat.lt_of_not_le within, eq_comm]

theorem advance_eq_ok_iff {count : Nat} {value : Unit} :
    advance count cursor = .ok value after ↔
      ∃ skipped : Bytes, skipped.length = count ∧ cursor.Passes skipped after := by
  constructor
  · intro read
    by_cases within : cursor.position + count ≤ cursor.data.length
    · rw [advance_of_le within] at read
      obtain ⟨-, rfl⟩ := EStateM.Result.ok.inj read
      have passes := Cursor.passes_take within
      exact ⟨_, (Nat.add_left_cancel passes.position_eq).symm, passes⟩
    · simp [advance, within] at read
  · rintro ⟨skipped, rfl, passes⟩
    have within : cursor.position + skipped.length ≤ cursor.data.length := by
      rw [← passes.position_eq, ← passes.data_eq]
      exact after.position_le
    have landed : after = ⟨cursor.data, cursor.position + skipped.length, within⟩ :=
      Cursor.eq_of_position_eq passes.data_eq passes.position_eq
    rw [advance_of_le within, landed]

theorem bytes_eq_ok_iff {count : Nat} {value : Bytes} :
    bytes count cursor = .ok value after ↔ value.length = count ∧ cursor.Passes value after := by
  rw [bytes, bind_of_ok (get_apply cursor), bind_eq_ok_iff]
  constructor
  · rintro ⟨_, middle, advanced, given⟩
    obtain ⟨skipped, rfl, passes⟩ := advance_eq_ok_iff.mp advanced
    obtain ⟨rfl, rfl⟩ := pure_eq_ok_iff.mp given
    rw [← passes.eq_take]
    exact ⟨rfl, passes⟩
  · rintro ⟨rfl, passes⟩
    refine ⟨(), after, advance_eq_ok_iff.mpr ⟨value, rfl, passes⟩, ?_⟩
    exact pure_eq_ok_iff.mpr ⟨passes.eq_take.symm, rfl⟩

theorem bytes_eq_error_iff {count : Nat} :
    bytes count cursor = .error cause after ↔
      cursor.data.length < cursor.position + count ∧ cause = .outOfBounds ∧ after = cursor := by
  by_cases within : cursor.position + count ≤ cursor.data.length
  · simp [bytes_of_le within, Nat.not_lt_of_le within]
  · have short := Nat.lt_of_not_le within
    simp [bytes_of_lt short, short, eq_comm]

theorem scalar_eq_ok_iff {kind : Scalar} {value : kind.Value} :
    scalar kind cursor = .ok value after ↔ cursor.Passes (kind.encode value) after := by
  rw [scalar, bind_eq_ok_iff]
  constructor
  · rintro ⟨taken, middle, read, given⟩
    obtain ⟨sized, passes⟩ := bytes_eq_ok_iff.mp read
    obtain ⟨rfl, rfl⟩ := pure_eq_ok_iff.mp given
    rw [kind.encode_decode sized]
    exact passes
  · intro passes
    refine ⟨kind.encode value, after, bytes_eq_ok_iff.mpr ⟨kind.length_encode value, passes⟩, ?_⟩
    exact pure_eq_ok_iff.mpr ⟨kind.decode_encode value, rfl⟩

theorem scalar_eq_error_iff {kind : Scalar} :
    scalar kind cursor = .error cause after ↔
      cursor.data.length < cursor.position + kind.width ∧ cause = .outOfBounds ∧
        after = cursor := by
  rw [scalar, bind_eq_error_iff, bytes_eq_error_iff]
  simp [pure, EStateM.pure]

theorem unit_of_rest {low high : UInt8} {rest : Bytes}
    (starts : cursor.rest = low :: high :: rest) :
    ∃ after, scalar .uint16 cursor = .ok (UInt16.ofNat (low.toNat + 256 * high.toNat)) after ∧
      cursor.Passes [low, high] after ∧ after.rest = rest := by
  have pair : [low, high].length = Scalar.uint16.width := rfl
  change cursor.rest = [low, high] ++ rest at starts
  obtain ⟨after, passes, left⟩ := Cursor.exists_passes starts
  have read := passes
  rw [← Scalar.encode_decode .uint16 pair] at read
  exact ⟨after, scalar_eq_ok_iff.mpr read, passes, left⟩

theorem unitsToEnd_of_rest_nil (done : cursor.rest = []) : unitsToEnd cursor = .ok [] cursor := by
  rw [unitsToEnd]
  simp [Cursor.hasMore_eq, done]

theorem unitsToEnd_of_unit {middle : Cursor} {unit : UInt16} {units : List UInt16}
    (more : cursor.rest ≠ []) (read : scalar .uint16 cursor = .ok unit middle)
    (later : unitsToEnd middle = .ok units after) :
    unitsToEnd cursor = .ok (unit :: units) after := by
  rw [unitsToEnd]
  simp only [Cursor.hasMore_eq, more, ne_eq, not_false_eq_true, decide_true, ↓reduceIte]
  split <;> simp_all

/-- With no odd byte, each unit is there when it is read. -/
theorem unitsToEnd_of_even {cursor : Cursor} (even : cursor.rest.length % 2 = 0) :
    unitsToEnd cursor = .ok (Utf16.ofBytes cursor.rest) cursor.atEnd := by
  match starts : cursor.rest with
  | [] =>
    have total := cursor.position_add_remaining
    rw [← Cursor.length_rest, starts, List.length_nil, Nat.add_zero] at total
    have here : cursor = cursor.atEnd := Cursor.eq_of_position_eq rfl total
    rw [unitsToEnd_of_rest_nil starts, ← here]
    rfl
  | [byte] =>
    rw [starts] at even
    simp at even
  | low :: high :: rest =>
    obtain ⟨middle, read, passes, left⟩ := unit_of_rest starts
    have shorter : middle.remaining < cursor.remaining := remaining_lt_of_scalar read
    have still : middle.rest.length % 2 = 0 := by
      rw [starts, List.length_cons, List.length_cons] at even
      rw [left]
      omega
    have later := unitsToEnd_of_even still
    have same : middle.atEnd = cursor.atEnd :=
      Cursor.eq_of_position_eq passes.data_eq (congrArg List.length passes.data_eq)
    rw [left, same] at later
    exact unitsToEnd_of_unit (by simp [starts]) read later
termination_by cursor.remaining

theorem utf16ToEnd_of_even (even : cursor.rest.length % 2 = 0) :
    utf16ToEnd cursor =
      match Utf16.decode (Utf16.ofBytes cursor.rest) with
      | some text => .ok (String.ofList text) cursor.atEnd
      | none =>
          .error (.malformed (.unpairedSurrogate (Utf16.ofBytes cursor.rest))) cursor.atEnd := by
  have units := unitsToEnd_of_even even
  rw [Cursor.length_rest] at even
  rw [utf16ToEnd, bind_of_ok (get_apply cursor), if_pos even, bind_of_ok units]
  cases Utf16.decode (Utf16.ofBytes cursor.rest) <;> rfl

theorem utf16ToEnd_of_odd (odd : cursor.rest.length % 2 = 1) :
    utf16ToEnd cursor = .error (.malformed (.oddUtf16Length cursor.remaining)) cursor := by
  rw [Cursor.length_rest] at odd
  rw [utf16ToEnd, bind_of_ok (get_apply cursor), if_neg (by omega)]
  rfl

/-- All that is left is read as text, whichever text it encodes. -/
theorem utf16ToEnd_eq_ok_iff {text : String} :
    utf16ToEnd cursor = .ok text after ↔
      Utf16.littleEndian text = cursor.rest ∧ after = cursor.atEnd := by
  rcases Nat.mod_two_eq_zero_or_one cursor.rest.length with even | odd
  · rw [← Utf16.decode_ofBytes_eq_some_iff even text, utf16ToEnd_of_even even]
    cases Utf16.decode (Utf16.ofBytes cursor.rest) with
    | none => simp
    | some chars => simp [← String.toList_inj, eq_comm]
  · have other : Utf16.littleEndian text ≠ cursor.rest := by
      intro same
      have whole := Utf16.length_littleEndian_mod_two text
      rw [same] at whole
      omega
    simp [utf16ToEnd_of_odd odd, other]

/-- An odd length is noticed before anything is passed, a stray surrogate after all is passed. -/
theorem utf16ToEnd_eq_error_iff :
    utf16ToEnd cursor = .error cause after ↔
      (cursor.rest.length % 2 = 1 ∧ cause = .malformed (.oddUtf16Length cursor.remaining) ∧
        after = cursor) ∨
      (cursor.rest.length % 2 = 0 ∧ Utf16.HasStray (Utf16.ofBytes cursor.rest) ∧
        cause = .malformed (.unpairedSurrogate (Utf16.ofBytes cursor.rest)) ∧
        after = cursor.atEnd) := by
  rw [← Utf16.decode_eq_none_iff]
  rcases Nat.mod_two_eq_zero_or_one cursor.rest.length with even | odd
  · rw [utf16ToEnd_of_even even, even]
    cases Utf16.decode (Utf16.ofBytes cursor.rest) <;> simp [eq_comm]
  · rw [utf16ToEnd_of_odd odd, odd]
    simp [eq_comm]

end Reader

end CilSketch
