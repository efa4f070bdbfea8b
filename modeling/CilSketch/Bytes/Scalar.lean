import CilSketch.Bytes.LittleEndian
import CilSketch.Number.Binary

/-!
The fixed-width values of a metadata blob. Each is stored in little-endian order; signed values in
two's complement, floating-point values as their bit pattern.
-/

set_option autoImplicit false

namespace CilSketch

inductive Scalar where
  | uint8 | int8 | uint16 | int16 | uint32 | int32 | uint64 | int64 | single | double
  deriving DecidableEq, Repr

namespace Scalar

def width : Scalar → Nat
  | .uint8 | .int8 => 1
  | .uint16 | .int16 => 2
  | .uint32 | .int32 | .single => 4
  | .uint64 | .int64 | .double => 8

theorem width_pos (kind : Scalar) : 0 < kind.width := by
  cases kind <;> decide

abbrev Value : Scalar → Type
  | .uint8 => UInt8
  | .int8 => Int8
  | .uint16 => UInt16
  | .int16 => Int16
  | .uint32 => UInt32
  | .int32 => Int32
  | .uint64 => UInt64
  | .int64 => Int64
  | .single => Binary .single
  | .double => Binary .double

/-- The value whose bits, read as an unsigned number, are the given number. -/
def ofPattern : (kind : Scalar) → Nat → kind.Value
  | .uint8, n => UInt8.ofNat n
  | .int8, n => (UInt8.ofNat n).toInt8
  | .uint16, n => UInt16.ofNat n
  | .int16, n => (UInt16.ofNat n).toInt16
  | .uint32, n => UInt32.ofNat n
  | .int32, n => (UInt32.ofNat n).toInt32
  | .uint64, n => UInt64.ofNat n
  | .int64, n => (UInt64.ofNat n).toInt64
  | .single, n => ⟨BitVec.ofNat _ n⟩
  | .double, n => ⟨BitVec.ofNat _ n⟩

/-- The bits of a value, read as an unsigned number. -/
def pattern : (kind : Scalar) → kind.Value → Nat
  | .uint8, x => x.toNat
  | .int8, x => x.toUInt8.toNat
  | .uint16, x => x.toNat
  | .int16, x => x.toUInt16.toNat
  | .uint32, x => x.toNat
  | .int32, x => x.toUInt32.toNat
  | .uint64, x => x.toNat
  | .int64, x => x.toUInt64.toNat
  | .single, x => x.bits.toNat
  | .double, x => x.bits.toNat

def decode (kind : Scalar) (bytes : Bytes) : kind.Value :=
  kind.ofPattern (LittleEndian.decode bytes)

def encode (kind : Scalar) (x : kind.Value) : Bytes :=
  LittleEndian.encode kind.width (kind.pattern x)

@[simp] theorem length_encode (kind : Scalar) (x : kind.Value) :
    (kind.encode x).length = kind.width := by
  simp [encode]

end Scalar

end CilSketch
