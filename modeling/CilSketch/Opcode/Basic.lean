import CilSketch.Bytes.LittleEndian
import CilSketch.Opcode.Mnemonic
import CilSketch.Text.Digits

/-!
Opcodes as tokens of a method's code. A token names the instruction that starts at an offset;
operand bytes are not skipped, so every byte of the code belongs to some token.
-/

set_option autoImplicit false

namespace CilSketch

structure Opcode where
  /-- Where the first byte of the opcode stands in the code. -/
  offset : Nat
  /-- The first byte of a two-byte opcode, and zero for any other. -/
  lead : UInt8
  code : UInt8
  deriving DecidableEq, Repr

namespace Opcode

/-- The first byte of every two-byte opcode. -/
def extendedLead : UInt8 := 0xFE

def isExtended (opcode : Opcode) : Bool :=
  opcode.lead == extendedLead

def size (opcode : Opcode) : Nat :=
  if opcode.isExtended then 2 else 1

/-- Both bytes as one number, the lead byte first. -/
def value (opcode : Opcode) : Nat :=
  256 * opcode.lead.toNat + opcode.code.toNat

def bytes (opcode : Opcode) : Bytes :=
  if opcode.isExtended then [opcode.lead, opcode.code] else [opcode.code]

@[simp] theorem length_bytes (opcode : Opcode) : opcode.bytes.length = opcode.size := by
  unfold bytes size
  split <;> rfl

def mnemonic? (opcode : Opcode) : Option String :=
  mnemonicIn? (if opcode.isExtended then twoByteMnemonics else singleByteMnemonics) opcode.code

/-- The mnemonic; an unassigned opcode shows its bytes instead. -/
def display (opcode : Opcode) : String :=
  opcode.mnemonic?.getD <|
    (if opcode.isExtended then "<unknown FE " else "<unknown ") ++
      Digits.capitalHex 2 opcode.code.toNat ++ ">"

/-- The opcode at the head of some code, unless its second byte is missing. -/
def head? (offset : Nat) : Bytes → Option Opcode
  | [] => none
  | byte :: rest =>
      if byte = extendedLead then rest.head?.map fun code => ⟨offset, byte, code⟩
      else some ⟨offset, 0, byte⟩

end Opcode

end CilSketch
