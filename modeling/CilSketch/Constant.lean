import CilSketch.Bytes.Cursor

/-!
Constants of fields. A constant is stored as a blob whose layout an element type selects; integers
of every width become one signed or one unsigned kind.
-/

set_option autoImplicit false

namespace CilSketch

inductive Constant where
  | string (text : String)
  | char (character : Char)
  | boolean (flag : Bool)
  | integer (number : Int64)
  | unsigned (number : UInt64)
  | single (number : Binary .single)
  | double (number : Binary .double)
  /-- A constant that is known only by its text. -/
  | other (text : String)
  deriving DecidableEq, Repr

/-- The element types that a constant may have. -/
inductive ElementType where
  | boolean | char
  | int8 | uint8 | int16 | uint16 | int32 | uint32 | int64 | uint64
  | single | double
  | string | nullReference
  deriving DecidableEq, Repr

namespace ElementType

def ofTag? (tag : UInt8) : Option ElementType :=
  match tag.toNat with
  | 0x02 => some .boolean
  | 0x03 => some .char
  | 0x04 => some .int8
  | 0x05 => some .uint8
  | 0x06 => some .int16
  | 0x07 => some .uint16
  | 0x08 => some .int32
  | 0x09 => some .uint32
  | 0x0A => some .int64
  | 0x0B => some .uint64
  | 0x0C => some .single
  | 0x0D => some .double
  | 0x0E => some .string
  | 0x12 => some .nullReference
  | _ => none

end ElementType

namespace Constant

/-- A single UTF-16 unit, which a surrogate is not enough for. -/
def readChar : Reader Constant := do
  let unit ← Reader.scalar .uint16
  match Utf16.ofUnit? unit with
  | some character => return .char character
  | none => throw (.malformed (.surrogateChar unit))

/-- A value of fixed width leaves later bytes unread; text takes all of them. -/
def read : ElementType → Reader Constant
  | .boolean => return .boolean ((← Reader.scalar .uint8) != 0)
  | .char => readChar
  | .int8 => return .integer (← Reader.scalar .int8).toInt64
  | .uint8 => return .unsigned (← Reader.scalar .uint8).toUInt64
  | .int16 => return .integer (← Reader.scalar .int16).toInt64
  | .uint16 => return .unsigned (← Reader.scalar .uint16).toUInt64
  | .int32 => return .integer (← Reader.scalar .int32).toInt64
  | .uint32 => return .unsigned (← Reader.scalar .uint32).toUInt64
  | .int64 => return .integer (← Reader.scalar .int64)
  | .uint64 => return .unsigned (← Reader.scalar .uint64)
  | .single => return .single (← Reader.scalar .single)
  | .double => return .double (← Reader.scalar .double)
  | .string => return .string (← Reader.utf16ToEnd)
  | .nullReference => return .other "null"

def ofBlob (tag : UInt8) (data : Bytes) : Except ReadError Constant :=
  match ElementType.ofTag? tag with
  | some element => (read element).readFrom data
  | none => .error (.malformed (.unsupportedElement tag))

def ofInt32 (number : Int32) : Constant :=
  .integer number.toInt64

def ofUInt32 (number : UInt32) : Constant :=
  .unsigned number.toUInt64

/-- Equality of the denoted values. Constants of different kinds are never equal, and floating-point
numbers compare as numbers. -/
def equal : Constant → Constant → Bool
  | .string a, .string b => a == b
  | .char a, .char b => a == b
  | .boolean a, .boolean b => a == b
  | .integer a, .integer b => a == b
  | .unsigned a, .unsigned b => a == b
  | .single a, .single b => a.equal b
  | .double a, .double b => a.equal b
  | .other a, .other b => a == b
  | _, _ => false

end Constant

end CilSketch
