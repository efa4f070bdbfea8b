/-!
Numerals of a fixed number of places. Places that a number does not reach are filled with zeros,
and places above the width are dropped, so the width alone fixes the length of the text.
-/

set_option autoImplicit false

namespace CilSketch.Digits

/-- The lowest `width` places of `n` in the given base, most significant first. -/
def places (base : Nat) : Nat → Nat → List Char
  | 0, _ => []
  | width + 1, n => places base width (n / base) ++ [Nat.digitChar (n % base)]

@[simp] theorem length_places (base width n : Nat) : (places base width n).length = width := by
  induction width generalizing n with
  | zero => rfl
  | succ width ih => simp [places, ih]

/-- Hexadecimal places in small letters. -/
def hex (width n : Nat) : String :=
  String.ofList (places 16 width n)

/-- Hexadecimal places in capital letters. -/
def capitalHex (width n : Nat) : String :=
  String.ofList ((places 16 width n).map Char.toUpper)

end CilSketch.Digits
