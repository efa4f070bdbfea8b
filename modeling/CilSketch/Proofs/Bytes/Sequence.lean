import CilSketch.Proofs.Bytes.Session
import Mathlib.Algebra.Order.Ring.Int

/-!
Scalars read one after the other. What was written in a row is read back in the same row, whatever
follows it. Conversely, the values that reads have given so far are those that the bytes passed so
far encode, without a gap between them, and a read that fails passes none.
-/

set_option autoImplicit false

namespace CilSketch

namespace Scalar

/-- The number that a value is. A floating-point value counts as its bit pattern. -/
def number : (kind : Scalar) → kind.Value → Int
  | .uint8, x => x.toNat
  | .int8, x => x.toInt
  | .uint16, x => x.toNat
  | .int16, x => x.toInt
  | .uint32, x => x.toNat
  | .int32, x => x.toInt
  | .uint64, x => x.toNat
  | .int64, x => x.toInt
  | .single, x => x.bits.toNat
  | .double, x => x.bits.toNat

theorem natCast_toNat_eq_emod {width : Nat} (bits : BitVec width) :
    (bits.toNat : Int) = bits.toInt % (2 ^ width : Nat) := by
  rw [BitVec.toInt_eq_toNat_bmod, Int.bmod_emod]
  exact_mod_cast (Nat.mod_eq_of_lt bits.isLt).symm

/-- Two's complement: the bits of a negative number are those of the number that the capacity of
the width adds to it. -/
theorem pattern_eq_number_emod (kind : Scalar) (x : kind.Value) :
    (kind.pattern x : Int) = kind.number x % (256 ^ kind.width : Nat) := by
  have unsigned : (kind.pattern x : Int) = (kind.pattern x : Int) % (256 ^ kind.width : Nat) := by
    exact_mod_cast (Nat.mod_eq_of_lt (kind.pattern_lt x)).symm
  cases kind with
  | uint8 | uint16 | uint32 | uint64 | single | double => exact unsigned
  | int8 | int16 | int32 | int64 => exact natCast_toNat_eq_emod x.toBitVec

end Scalar

namespace LittleEndian

theorem ofNat_eq_ofInt {m : Nat} {n : Int} (same : n % 256 = (m : Int) % 256) :
    UInt8.ofNat m = UInt8.ofInt n := by
  apply UInt8.toNat_inj.mp
  simp only [UInt8.ofInt, UInt8.toNat_ofNat']
  omega

/-- Numbers that differ by a multiple of the capacity have the same digits below it. -/
theorem encode_eq_digits (width m : Nat) (n q : Int) (congruent : n = m + q * 256 ^ width) :
    encode width m = (List.range width).map fun i => UInt8.ofInt (n / 256 ^ i) := by
  induction width generalizing m n with
  | zero => rfl
  | succ width ih =>
    have split : n = m + q * 256 ^ width * 256 := by rw [congruent, pow_succ, mul_assoc]
    have lowest : UInt8.ofNat m = UInt8.ofInt n := ofNat_eq_ofInt (by omega)
    have higher : n / 256 = (m / 256 : Nat) + q * 256 ^ width := by omega
    have shift (i : Nat) : n / 256 ^ (i + 1) = n / 256 / 256 ^ i := by
      rw [Int.ediv_ediv_of_nonneg (by decide), pow_succ']
    rw [encode, ih _ _ higher, List.range_succ_eq_map, List.map_cons, List.map_map, lowest]
    simp [shift]

end LittleEndian

/-- The bytes of a value are its digits in base 256, the lowest first. -/
theorem Scalar.encode_eq_digits (kind : Scalar) (x : kind.Value) :
    kind.encode x = (List.range kind.width).map fun i => UInt8.ofInt (kind.number x / 256 ^ i) := by
  apply LittleEndian.encode_eq_digits _ _ _ (kind.number x / 256 ^ kind.width)
  have pattern := kind.pattern_eq_number_emod x
  have whole := Int.emod_add_ediv_mul (kind.number x) (256 ^ kind.width)
  push_cast at pattern
  rw [pattern, whole]

/-- A value with the kind that it is read as. -/
structure Datum where
  kind : Scalar
  value : kind.Value

namespace Datum

def bytes (datum : Datum) : Bytes :=
  datum.kind.encode datum.value

def step (datum : Datum) : ReadStep :=
  .scalar datum.kind

theorem length_flatMap_bytes (data : List Datum) :
    (data.flatMap bytes).length = (data.map fun datum => datum.kind.width).sum := by
  simp [List.length_flatMap, bytes]

end Datum

namespace Reading

variable {cursor after : Cursor}

/-- The value that a read of a scalar gave, unless it failed. -/
def datum? : Reading → Option Datum
  | ⟨.scalar kind, .ok value, _⟩ => some ⟨kind, value⟩
  | _ => none

theorem perform_scalar_of_passes (datum : Datum) (passes : cursor.Passes datum.bytes after) :
    perform cursor datum.step = ⟨datum.step, .ok datum.value, after⟩ := by
  have read : datum.step.reader cursor = .ok datum.value after := Reader.scalar_eq_ok_iff.mpr passes
  rw [perform, read]

/-- All that reading a scalar can do. -/
theorem perform_scalar_cases (cursor : Cursor) (kind : Scalar) :
    (∃ value after, perform cursor (.scalar kind) = ⟨.scalar kind, .ok value, after⟩ ∧
      cursor.Passes (kind.encode value) after) ∨
      ∃ cause, perform cursor (.scalar kind) = ⟨.scalar kind, .error cause, cursor⟩ := by
  cases read : Reader.scalar kind cursor with
  | ok value after =>
    have passes := Reader.scalar_eq_ok_iff.mp read
    exact .inl ⟨value, after, perform_scalar_of_passes ⟨kind, value⟩ passes, passes⟩
  | error cause after =>
    obtain ⟨-, -, rfl⟩ := Reader.scalar_eq_error_iff.mp read
    refine .inr ⟨cause, ?_⟩
    simp only [perform, ReadStep.reader, read]

/-- From the first cursor of a session to its last one exactly the values that were read are
passed: each success adds its own bytes, and a failure adds none. -/
theorem passes_session (cursor : Cursor) (kinds : List Scalar) :
    cursor.Passes (((session cursor (kinds.map .scalar)).filterMap datum?).flatMap Datum.bytes)
      (cursorAfter cursor (kinds.map .scalar)) := by
  induction kinds generalizing cursor with
  | nil => exact ⟨rfl, rfl, rfl⟩
  | cons kind kinds ih =>
    obtain ⟨value, after, performed, passes⟩ | ⟨cause, performed⟩ :=
      perform_scalar_cases cursor kind
    · have later := ih after
      rw [List.map_cons, session, cursorAfter, List.foldl_cons, performed]
      exact passes.append later
    · have later := ih cursor
      rw [List.map_cons, session, cursorAfter, List.foldl_cons, performed]
      exact later

theorem session_of_rest (data : List Datum) {rest : Bytes}
    (starts : cursor.rest = data.flatMap Datum.bytes ++ rest) :
    (session cursor (data.map Datum.step)).map datum? = data.map some := by
  induction data generalizing cursor with
  | nil => rfl
  | cons datum data ih =>
    rw [List.flatMap_cons, List.append_assoc] at starts
    obtain ⟨middle, passes, left⟩ := Cursor.exists_passes starts
    rw [List.map_cons, session, perform_scalar_of_passes datum passes, List.map_cons, ih left]
    rfl

theorem filterMap_datum?_eq {readings : List Reading} {data : List Datum}
    (given : readings.map datum? = data.map some) : readings.filterMap datum? = data := by
  have kept := congrArg (List.filterMap id) given
  simpa using kept

theorem map_datum?_eq {readings : List Reading}
    (succeeded : ∀ reading ∈ readings, reading.datum?.isSome = true) :
    readings.map datum? = (readings.filterMap datum?).map some := by
  induction readings with
  | nil => rfl
  | cons reading readings ih =>
    obtain ⟨first, later⟩ := List.forall_mem_cons.mp succeeded
    obtain ⟨datum, given⟩ := Option.isSome_iff_exists.mp first
    rw [List.map_cons, List.filterMap_cons_some given, List.map_cons, given, ih later]

/-- Where nothing failed, there is a value of each kind that was asked for. -/
theorem map_kind_session {kinds : List Scalar}
    (succeeded : ∀ reading ∈ session cursor (kinds.map .scalar), reading.datum?.isSome = true) :
    ((session cursor (kinds.map .scalar)).filterMap datum?).map Datum.kind = kinds := by
  induction kinds generalizing cursor with
  | nil => rfl
  | cons kind kinds ih =>
    rw [List.map_cons, session] at succeeded ⊢
    obtain ⟨first, later⟩ := List.forall_mem_cons.mp succeeded
    obtain ⟨value, after, performed, -⟩ | ⟨cause, performed⟩ := perform_scalar_cases cursor kind
    · have given : (perform cursor (.scalar kind)).datum? = some ⟨kind, value⟩ := by
        rw [performed]
        rfl
      rw [List.filterMap_cons_some given, List.map_cons, ih later]
    · rw [performed] at first
      cases first

theorem after_of_error {kind : Scalar} {cause : ReadError}
    (failed : (perform cursor (.scalar kind)).result = .error cause) :
    (perform cursor (.scalar kind)).after = cursor := by
  obtain ⟨value, after, performed, -⟩ | ⟨found, performed⟩ := perform_scalar_cases cursor kind
  · rw [performed] at failed
    cases failed
  · rw [performed]

end Reading

/-- Values written one behind the other, each in its digits from the lowest on, are read back in
order, and the cursor ends behind the last one. Where a read fails, whatever comes after it, the
values read before it are encoded without gaps from the first position on, and it passes nothing
itself; if it is the first to fail, each read before it gave one of these values. -/
theorem scalars_read_in_sequence :
    (∀ (data : List Datum) (rest : Bytes),
      let cursor := Cursor.start (data.flatMap Datum.bytes ++ rest)
      let last := Reading.cursorAfter cursor (data.map Datum.step)
      (Reading.session cursor (data.map Datum.step)).map Reading.datum? = data.map some ∧
        last.position = (data.map fun datum => datum.kind.width).sum ∧
        last.remaining = rest.length) ∧
      (∀ datum : Datum,
        datum.bytes = (List.range datum.kind.width).map fun i =>
          UInt8.ofInt (datum.kind.number datum.value / 256 ^ i)) ∧
      ∀ (cursor : Cursor) (done later : List Scalar) (kind : Scalar) (cause : ReadError),
        let earlier := Reading.session cursor (done.map .scalar)
        let values := earlier.filterMap Reading.datum?
        let before := Reading.cursorAfter cursor (done.map .scalar)
        let failed := Reading.perform before (.scalar kind)
        failed.result = .error cause →
          Reading.session cursor ((done ++ kind :: later).map .scalar) =
              earlier ++ failed :: Reading.session before (later.map .scalar) ∧
            failed.after = before ∧
            cursor.Passes (values.flatMap Datum.bytes) before ∧
            ((∀ reading ∈ earlier, reading.datum?.isSome = true) →
              earlier.map Reading.datum? = values.map some ∧ values.map Datum.kind = done) := by
  refine ⟨?_, fun datum => datum.kind.encode_eq_digits datum.value, ?_⟩
  · intro data rest cursor last
    have starts := Cursor.rest_start (data.flatMap Datum.bytes ++ rest)
    have given := Reading.session_of_rest data starts
    have passes : cursor.Passes (data.flatMap Datum.bytes) last := by
      have kinds : (data.map Datum.kind).map ReadStep.scalar = data.map Datum.step := List.map_map
      have passed := Reading.passes_session cursor (data.map Datum.kind)
      rwa [kinds, Reading.filterMap_datum?_eq given] at passed
    refine ⟨given, ?_, ?_⟩
    · have moved := passes.position_eq
      rw [Datum.length_flatMap_bytes] at moved
      exact moved.trans (Nat.zero_add _)
    · have left : rest = last.rest := List.append_cancel_left passes.rest_eq
      rw [left, Cursor.length_rest]
  · intro cursor done later kind cause earlier values before failed refused
    have still : failed.after = before := Reading.after_of_error refused
    refine ⟨?_, still, Reading.passes_session cursor done, ?_⟩
    · rw [List.map_append, List.map_cons, Reading.session_append, Reading.session]
      change earlier ++ failed :: Reading.session failed.after (later.map .scalar) = _
      rw [still]
    · intro succeeded
      exact ⟨Reading.map_datum?_eq succeeded, Reading.map_kind_session succeeded⟩

/-- Eight bytes hold a word of four, a word of two and the least number of one byte, and then one
byte is too few for another word. -/
theorem word_fails_behind_three_scalars :
    let cursor := Cursor.start [0x01, 0x02, 0x03, 0x04, 0x05, 0x06, 0x80, 0x08]
    let earlier := Reading.session cursor [.scalar .uint32, .scalar .uint16, .scalar .int8]
    let before := Reading.cursorAfter cursor [.scalar .uint32, .scalar .uint16, .scalar .int8]
    let failed := Reading.perform before (.scalar .uint16)
    failed.result = .error .outOfBounds ∧ failed.after = before ∧
      cursor.Passes ((earlier.filterMap Reading.datum?).flatMap Datum.bytes) before ∧
      (earlier.filterMap Reading.datum?).map Datum.kind = [.uint32, .uint16, .int8] ∧
      earlier.filterMap Reading.datum? =
        [⟨.uint32, 0x04030201⟩, ⟨.uint16, 0x0605⟩, ⟨.int8, -128⟩] := by
  intro cursor earlier before failed
  have refused : failed.result = .error .outOfBounds := rfl
  have succeeded : ∀ reading ∈ earlier, reading.datum?.isSome = true := by decide
  obtain ⟨-, still, passes, whole⟩ :=
    scalars_read_in_sequence.2.2 cursor [.uint32, .uint16, .int8] [] .uint16 .outOfBounds refused
  exact ⟨refused, still, passes, (whole succeeded).2, rfl⟩

end CilSketch
