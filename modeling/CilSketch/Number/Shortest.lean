import CilSketch.Number.Binary
import CilSketch.Number.Decimal

/-!
The shortest decimal that rounds to a binary value. The numbers that round to a value form a
window around it; on ever finer powers of ten, the first that has a multiple inside the window
gives the fewest digits. All arithmetic is on natural numbers.
-/

set_option autoImplicit false

namespace CilSketch

/-- The numbers that round to `mid`, all in one common unit. -/
structure RoundingWindow where
  low : Nat
  mid : Nat
  high : Nat
  /-- Whether the ends themselves round to `mid`. -/
  closed : Bool
  deriving DecidableEq, Repr

namespace RoundingWindow

def contains (w : RoundingWindow) (n : Nat) : Bool :=
  if w.closed then w.low ≤ n && n ≤ w.high else w.low < n && n < w.high

/-- If any multiple of `step` is in the window, then so is one of the two next to `mid`. Of two, the
nearer is taken, and the larger if both are equally near. -/
def multipleOf (w : RoundingWindow) (step : Nat) : Option Nat :=
  let below := w.mid / step
  let above := below + 1
  match w.contains (below * step), w.contains (above * step) with
  | true, true => some (if 2 * (w.mid % step) < step then below else above)
  | true, false => some below
  | false, true => some above
  | false, false => none

/-- The coarsest power of ten, up to the given one, that has a multiple in the window. The unit
itself always has one. -/
def shortest (w : RoundingWindow) : Nat → Decimal
  | 0 => ⟨w.mid, 0⟩
  | power + 1 =>
      match w.multipleOf (Nat.pow 10 (power + 1)) with
      | some digits => ⟨digits, power + 1⟩
      | none => w.shortest power

def scale (w : RoundingWindow) (factor : Nat) : RoundingWindow :=
  ⟨w.low * factor, w.mid * factor, w.high * factor, w.closed⟩

/-- The shortest decimal in a window whose unit is a power of ten. No power of ten above the bound
of the search has a multiple in the window. -/
def shortestInUnit (w : RoundingWindow) (unit : Int) : Decimal :=
  let found := w.shortest (w.mid.log2 / 3 + 1)
  ⟨found.digits, found.exponent + unit⟩

/-- A unit of `2 ^ exponent` becomes a power of ten: above one the window takes the factor, below
one `2 ^ -n = 5 ^ n * 10 ^ -n`. -/
def shortestBinary (w : RoundingWindow) (exponent : Int) : Decimal :=
  match exponent with
  | .ofNat n => (w.scale (Nat.pow 2 n)).shortestInUnit 0
  | .negSucc n => (w.scale (Nat.pow 5 (n + 1))).shortestInUnit (.negSucc n)

end RoundingWindow

namespace Binary

variable {format : BinaryFormat}

/-- Quarters of the last place, so that the midpoints to both neighbours are whole numbers. A tie
rounds to the even significand. -/
def quarterWindow (x : Binary format) : RoundingWindow where
  low := 4 * x.significand - if x.isBinadeStart then 1 else 2
  mid := 4 * x.significand
  high := 4 * x.significand + 2
  closed := x.significand % 2 == 0

/-- The shortest decimal that rounds to the magnitude of a finite value. -/
def shortest (x : Binary format) : Decimal :=
  if x.significand = 0 then ⟨0, 0⟩ else x.quarterWindow.shortestBinary (x.exponent - 2)

/-- The text of a value: its shortest decimal in positional form. A NaN has no sign. -/
def toText (x : Binary format) : String :=
  if x.isNaN then "NaN"
  else
    let sign := if x.isNegative then "-" else ""
    sign ++ if x.isInfinite then "inf" else x.shortest.positional

end Binary

end CilSketch
