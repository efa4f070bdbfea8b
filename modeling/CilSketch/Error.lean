import CilSketch.Text.Digits

/-!
Why reading metadata stops. A cause keeps the data that its report needs, and the wording of every
report is in `message`.
-/

set_option autoImplicit false

namespace CilSketch

/-- A violated rule of the metadata format. -/
inductive Malformation where
  | emptyBody
  | shortFatHeader (size : Nat)
  | unknownHeader (lead : UInt8)
  | surrogateChar (unit : UInt16)
  | unsupportedElement (tag : UInt8)
  | oddUtf16Length (length : Nat)
  | unpairedSurrogate (units : List UInt16)
  deriving DecidableEq, Repr

inductive ReadError where
  /-- The code ends between the lead byte of an opcode and its second byte. -/
  | midOpcode (offset : Nat)
  | malformed (cause : Malformation)
  | outOfBounds
  deriving DecidableEq, Repr

/-- The units of rejected text in decimal, as a bracketed list. -/
def unitList (units : List UInt16) : String :=
  "[" ++ ", ".intercalate (units.map fun unit => unit.toNat.repr) ++ "]"

/-- Each unit of rejected text stands for two bytes of the blob, and the report counts bytes. -/
def Malformation.message : Malformation → String
  | .emptyBody => "Provided data for body parsing is empty"
  | .shortFatHeader size => "Fat method header too small - " ++ size.repr ++ " bytes"
  | .unknownHeader lead => "MethodHeader is neither FAT nor TINY - " ++ lead.toNat.repr
  | .surrogateChar unit => "Invalid UTF-16 char - 0x" ++ Digits.capitalHex 4 unit.toNat
  | .unsupportedElement tag =>
      "Unsupported constant element type - 0x" ++ Digits.capitalHex 2 tag.toNat
  | .oddUtf16Length length => "Invalid UTF-16 length - " ++ length.repr
  | .unpairedSurrogate units =>
      "Invalid UTF-16 str - " ++ (2 * units.length).repr ++ " - " ++ unitList units

def ReadError.message : ReadError → String
  | .midOpcode offset => "Method body ends mid-opcode at offset " ++ offset.repr
  | .malformed cause => cause.message
  | .outOfBounds => "Out of Bound read would have occurred"

end CilSketch
