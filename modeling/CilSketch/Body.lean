import CilSketch.Bytes.Cursor

/-!
Method bodies. A body is stored behind a tiny header of one byte or a fat header of at least
twelve; the two lowest bits of the first byte tell them apart.
-/

set_option autoImplicit false

namespace CilSketch

structure Body where
  code : Bytes
  maxStack : UInt16
  isFat : Bool
  initLocals : Bool
  /-- The metadata token of the local variables' signature, and zero if there is none. -/
  localsToken : UInt32
  deriving DecidableEq, Repr

namespace Body

/-- The stack depth of a body whose header does not state one. -/
def tinyMaxStack : UInt16 := 8

/-- A body as a tiny header describes it. -/
def ofCode (code : Bytes) : Body where
  code
  maxStack := tinyMaxStack
  isFat := false
  initLocals := false
  localsToken := 0

def size (body : Body) : Nat :=
  body.code.length

/-- The least size of a fat header, which its fixed fields take. -/
def fatHeaderSize : Nat := 12

end Body

/-- The fixed fields of a fat header. -/
structure FatHeader where
  /-- The flags in the low twelve bits and above them the size of the header. -/
  word : UInt16
  maxStack : UInt16
  codeSize : UInt32
  localsToken : UInt32
  deriving DecidableEq, Repr

namespace FatHeader

/-- The size of the whole header, which the first word states in units of four bytes. -/
def size (header : FatHeader) : Nat :=
  header.word.toNat / 4096 * 4

def initLocals (header : FatHeader) : Bool :=
  header.word.toNat.testBit 4

/-- All fields are read before the size is judged. -/
def read : Reader FatHeader := do
  let word ← Reader.scalar .uint16
  let maxStack ← Reader.scalar .uint16
  let codeSize ← Reader.scalar .uint32
  let localsToken ← Reader.scalar .uint32
  return { word, maxStack, codeSize, localsToken }

end FatHeader

namespace Body

/-- One byte: the size of the code above the two format bits. -/
def readTiny : Reader Body := do
  let lead ← Reader.scalar .uint8
  let code ← Reader.bytes (lead.toNat / 4)
  return ofCode code

/-- A body as a fat header describes it. -/
def ofHeader (header : FatHeader) (code : Bytes) : Body where
  code
  maxStack := header.maxStack
  isFat := true
  initLocals := header.initLocals
  localsToken := header.localsToken

/-- What follows the fixed fields: padding up to the size of the header, and the code. -/
def readPadded (header : FatHeader) : Reader Body := do
  let cursor ← get
  Reader.advance (header.size - cursor.position)
  let code ← Reader.bytes header.codeSize.toNat
  return ofHeader header code

def readFat : Reader Body := do
  let header ← FatHeader.read
  if header.size < fatHeaderSize then
    throw (.malformed (.shortFatHeader header.size))
  else
    readPadded header

/-- Bytes after the code are ignored. -/
def parse : Bytes → Except ReadError Body
  | [] => .error (.malformed .emptyBody)
  | data@(lead :: _) =>
      match lead.toNat % 4 with
      | 2 => readTiny.readFrom data
      | 3 => readFat.readFrom data
      | _ => .error (.malformed (.unknownHeader lead))

end Body

end CilSketch
