/-!
Binary floating-point values as bit patterns. A value is kept as the pattern it was read from, so
nothing is lost, the sign of zero and the payload of a NaN included.
-/

set_option autoImplicit false

namespace CilSketch

/-- An interchange format: one sign bit, then the biased exponent, then the fraction. -/
structure BinaryFormat where
  exponentBits : Nat
  fractionBits : Nat
  deriving DecidableEq, Repr

namespace BinaryFormat

def single : BinaryFormat := ⟨8, 23⟩

def double : BinaryFormat := ⟨11, 52⟩

def width (format : BinaryFormat) : Nat :=
  1 + format.exponentBits + format.fractionBits

/-- The exponent field of infinities and NaNs. -/
def topExponent (format : BinaryFormat) : Nat :=
  Nat.pow 2 format.exponentBits - 1

def bias (format : BinaryFormat) : Nat :=
  Nat.pow 2 (format.exponentBits - 1) - 1

end BinaryFormat

structure Binary (format : BinaryFormat) where
  bits : BitVec format.width
  deriving DecidableEq, Repr

namespace Binary

variable {format : BinaryFormat}

def isNegative (x : Binary format) : Bool :=
  x.bits.msb

def exponentField (x : Binary format) : Nat :=
  x.bits.toNat / Nat.pow 2 format.fractionBits % Nat.pow 2 format.exponentBits

def fractionField (x : Binary format) : Nat :=
  x.bits.toNat % Nat.pow 2 format.fractionBits

def isNaN (x : Binary format) : Bool :=
  x.exponentField == format.topExponent && x.fractionField != 0

def isInfinite (x : Binary format) : Bool :=
  x.exponentField == format.topExponent && x.fractionField == 0

def isZero (x : Binary format) : Bool :=
  x.exponentField == 0 && x.fractionField == 0

/-- The magnitude of a finite value is `significand * 2 ^ exponent`. The lowest exponent field has
no hidden bit. -/
def significand (x : Binary format) : Nat :=
  if x.exponentField = 0 then x.fractionField else Nat.pow 2 format.fractionBits + x.fractionField

/-- The two lowest exponent fields share one exponent, so subnormal values continue the spacing of
the smallest normal ones. -/
def exponent (x : Binary format) : Int :=
  (max x.exponentField 1 : Nat) - (format.bias : Int) - (format.fractionBits : Int)

/-- Whether the next smaller magnitude is only half a unit away: so at a power of two, unless the
value below it is subnormal. -/
def isBinadeStart (x : Binary format) : Bool :=
  1 < x.exponentField && x.fractionField == 0

/-- Equality of numbers, not of patterns: both zeros are equal, and a NaN equals nothing. -/
def equal (x y : Binary format) : Bool :=
  !x.isNaN && !y.isNaN && (x.bits == y.bits || x.isZero && y.isZero)

end Binary

end CilSketch
