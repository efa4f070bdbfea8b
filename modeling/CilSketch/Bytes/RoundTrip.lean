import CilSketch.Bytes.Scalar
import Mathlib.Algebra.Ring.Nat

/-!
Values read back what was written. A number survives modulo the capacity of its width, and a scalar
always fits its own width.
-/

set_option autoImplicit false

namespace CilSketch

namespace LittleEndian

theorem decode_lt (bytes : Bytes) : decode bytes < 256 ^ bytes.length := by
  induction bytes with
  | nil => simp [decode]
  | cons byte rest ih =>
    have low : byte.toNat < 256 := byte.toNat_lt
    simp only [decode, List.length_cons, Nat.pow_succ]
    omega

theorem decode_encode (width n : Nat) : decode (encode width n) = n % 256 ^ width := by
  induction width generalizing n with
  | zero => simp [encode, decode, Nat.mod_one]
  | succ width ih =>
    rw [encode, decode, ih, Nat.pow_succ', Nat.mod_mul]
    simp

end LittleEndian

namespace Scalar

theorem pattern_lt (kind : Scalar) (x : kind.Value) : kind.pattern x < 256 ^ kind.width := by
  cases kind with
  | uint8 => exact x.toNat_lt
  | int8 => exact x.toUInt8.toNat_lt
  | uint16 => exact x.toNat_lt
  | int16 => exact x.toUInt16.toNat_lt
  | uint32 => exact x.toNat_lt
  | int32 => exact x.toUInt32.toNat_lt
  | uint64 => exact x.toNat_lt
  | int64 => exact x.toUInt64.toNat_lt
  | single => exact x.bits.isLt
  | double => exact x.bits.isLt

@[simp] theorem ofPattern_pattern (kind : Scalar) (x : kind.Value) :
    kind.ofPattern (kind.pattern x) = x := by
  cases kind <;> simp [ofPattern, pattern]

/-- The bytes of a value are the number that its bits are. -/
theorem littleEndian_encode (kind : Scalar) (x : kind.Value) :
    LittleEndian.decode (kind.encode x) = kind.pattern x := by
  rw [encode, LittleEndian.decode_encode, Nat.mod_eq_of_lt (kind.pattern_lt x)]

@[simp] theorem decode_encode (kind : Scalar) (x : kind.Value) :
    kind.decode (kind.encode x) = x := by
  rw [decode, littleEndian_encode, ofPattern_pattern]

end Scalar

end CilSketch
