import CilSketch.Text.Digits

/-!
How words of projected source are coloured.
-/

set_option autoImplicit false

namespace CilSketch

structure Color where
  red : UInt8
  green : UInt8
  blue : UInt8
  deriving DecidableEq, Repr

def Color.toText (color : Color) : String :=
  "#" ++ Digits.capitalHex 2 color.red.toNat ++ Digits.capitalHex 2 color.green.toNat ++
    Digits.capitalHex 2 color.blue.toNat

structure Style where
  name : String
  foreground : Color
  deriving DecidableEq, Repr

inductive StyleCategory where
  | keyword | type | string | note
  deriving DecidableEq, Repr

namespace StyleCategory

def all : List StyleCategory := [.keyword, .type, .string, .note]

def style : StyleCategory → Style
  | .keyword => ⟨"Keyword", 0x00, 0x00, 0xFF⟩
  | .type => ⟨"Type", 0xAD, 0xD8, 0xE6⟩
  | .string => ⟨"String", 0xDB, 0x70, 0x93⟩
  | .note => ⟨"Annotation", 0x00, 0x80, 0x00⟩

end StyleCategory

end CilSketch
