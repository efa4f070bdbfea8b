/-!
Numbers as bytes, least significant byte first. Encoding and decoding at one width are inverse on
the numbers that the width can hold.
-/

set_option autoImplicit false

namespace CilSketch

abbrev Bytes := List UInt8

namespace LittleEndian

def decode : Bytes → Nat
  | [] => 0
  | byte :: rest => byte.toNat + 256 * decode rest

/-- The lowest `width` base-256 digits of a number. -/
def encode : Nat → Nat → Bytes
  | 0, _ => []
  | width + 1, n => UInt8.ofNat n :: encode width (n / 256)

@[simp] theorem length_encode (width n : Nat) : (encode width n).length = width := by
  induction width generalizing n with
  | zero => rfl
  | succ width ih => simp [encode, ih]

theorem encode_decode (bytes : Bytes) : encode bytes.length (decode bytes) = bytes := by
  induction bytes with
  | nil => rfl
  | cons byte rest ih =>
    have low : byte.toNat < 256 := byte.toNat_lt
    have head : UInt8.ofNat (byte.toNat + 256 * decode rest) = byte := by
      apply UInt8.toNat_inj.mp
      simp
    have tail : (byte.toNat + 256 * decode rest) / 256 = decode rest := by omega
    simp [encode, decode, head, tail, ih]

end LittleEndian

end CilSketch
