import CilSketch.Bytes.LittleEndian

/-!
UTF-16 text, strictly: a surrogate is accepted only as half of a high-low pair. Every text has one
encoding, and `decode` accepts nothing else.
-/

set_option autoImplicit false

namespace CilSketch.Utf16

/-- The character that a unit is by itself; a surrogate is none. -/
def ofUnit? (unit : UInt16) : Option Char :=
  if valid : unit.toNat.isValidChar then some (Char.ofNatAux unit.toNat valid) else none

/-- The character above the basic plane that a surrogate pair stands for. -/
def ofPair? (high low : UInt16) : Option Char :=
  if 0xD800 ≤ high.toNat ∧ high.toNat < 0xDC00 ∧ 0xDC00 ≤ low.toNat ∧ low.toNat < 0xE000 then
    some (Char.ofNat (0x10000 + (high.toNat - 0xD800) * 0x400 + (low.toNat - 0xDC00)))
  else
    none

def decode : List UInt16 → Option (List Char)
  | [] => some []
  | [unit] => (ofUnit? unit).map fun char => [char]
  | unit :: next :: rest =>
      match ofUnit? unit with
      | some char => (decode (next :: rest)).map (char :: ·)
      | none =>
          match ofPair? unit next with
          | some char => (decode rest).map (char :: ·)
          | none => none

def encodeChar (char : Char) : List UInt16 :=
  if char.toNat < 0x10000 then [UInt16.ofNat char.toNat]
  else
    let above := char.toNat - 0x10000
    [UInt16.ofNat (0xD800 + above / 0x400), UInt16.ofNat (0xDC00 + above % 0x400)]

def encode (text : List Char) : List UInt16 :=
  text.flatMap encodeChar

/-- The units of a blob in little-endian order. A last odd byte is no unit. -/
def ofBytes : Bytes → List UInt16
  | low :: high :: rest => UInt16.ofNat (low.toNat + 256 * high.toNat) :: ofBytes rest
  | _ => []

def toBytes (units : List UInt16) : Bytes :=
  units.flatMap fun unit => LittleEndian.encode 2 unit.toNat

end CilSketch.Utf16
