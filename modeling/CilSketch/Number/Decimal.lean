import CilSketch.Text.Digits

/-!
Decimal numbers and their positional text. The text never has an exponent, and a whole number has
no point.
-/

set_option autoImplicit false

namespace CilSketch

/-- The number `digits * 10 ^ exponent`. -/
structure Decimal where
  digits : Nat
  exponent : Int
  deriving DecidableEq, Repr

namespace Decimal

/-- A number that is divided by a power of ten has as many places after the point. -/
def positional (d : Decimal) : String :=
  match d.exponent with
  | .ofNat zeros => String.ofList (Nat.toDigits 10 d.digits ++ List.replicate zeros '0')
  | .negSucc n =>
      let point := Nat.pow 10 (n + 1)
      String.ofList
        (Nat.toDigits 10 (d.digits / point) ++ '.' :: Digits.places 10 (n + 1) (d.digits % point))

end Decimal

end CilSketch
