import CilSketch.Text.Digits

/-!
Decimal numerals of integers. Each integer has one without needless characters, and reading it gives
the integer back.
-/

set_option autoImplicit false

namespace CilSketch

/-- Digits with no zero in front of others. -/
structure PlainDigits (digits : List Char) : Prop where
  nonempty : digits ≠ []
  isDigit : ∀ c ∈ digits, c.isDigit = true
  noLeadingZero : digits.head? = some '0' → digits = ['0']

/-- The integer that a numeral stands for, with or without a sign. -/
def numeralValue : List Char → Int
  | '-' :: digits => -Nat.ofDigitChars 10 digits 0
  | digits => Nat.ofDigitChars 10 digits 0

/-- The text is the numeral of the integer: a sign only if it is negative, and plain digits, which
read back as the integer. -/
def IsNumeral (text : String) (x : Int) : Prop :=
  ∃ digits, PlainDigits digits ∧ text.toList = (if x < 0 then '-' :: digits else digits) ∧
    numeralValue text.toList = x

theorem eq_zero_of_head?_toDigits {n : Nat} (leads : (Nat.toDigits 10 n).head? = some '0') :
    n = 0 := by
  induction n using Nat.strongRecOn with
  | ind n ih =>
    by_cases small : n < 10
    · have digit : ∀ d < 10, Nat.digitChar d = '0' → d = 0 := by decide
      rw [Nat.toDigits_of_lt_base small, List.head?_cons, Option.some.injEq] at leads
      exact digit n small leads
    · have large : 10 ≤ n := Nat.le_of_not_lt small
      have front : (Nat.toDigits 10 n).head? = (Nat.toDigits 10 (n / 10)).head? := by
        rw [Nat.toDigits_of_base_le (by decide) large, List.head?_append]
        apply Option.or_of_isSome
        rw [List.isSome_head?]
        simp [Nat.toDigits_ne_nil]
      have quotient := ih (n / 10) (by omega) (front ▸ leads)
      omega

theorem plainDigits_toDigits (n : Nat) : PlainDigits (Nat.toDigits 10 n) where
  nonempty := Nat.toDigits_ne_nil
  isDigit _ member := Nat.isDigit_of_mem_toDigits (by decide) (by decide) member
  noLeadingZero leads := by
    rw [eq_zero_of_head?_toDigits leads]
    rfl

theorem numeralValue_minus (digits : List Char) :
    numeralValue ('-' :: digits) = -Nat.ofDigitChars 10 digits 0 := rfl

/-- A sign is no digit. -/
theorem numeralValue_of_plainDigits {digits : List Char} (plain : PlainDigits digits) :
    numeralValue digits = Nat.ofDigitChars 10 digits 0 := by
  unfold numeralValue
  split
  · next rest =>
    have sign := plain.isDigit '-' List.mem_cons_self
    exact absurd sign (by decide)
  · rfl

theorem isNumeral_repr (n : Nat) : IsNumeral n.repr n := by
  have plain := plainDigits_toDigits n
  have chars : n.repr.toList = Nat.toDigits 10 n := Nat.toList_repr
  refine ⟨Nat.toDigits 10 n, plain, ?_, ?_⟩
  · rw [chars, if_neg (by omega)]
  · rw [chars, numeralValue_of_plainDigits plain, Nat.ofDigitChars_ten_toDigits]

theorem isNumeral_int_repr (x : Int) : IsNumeral x.repr x := by
  rw [Int.repr_eq_if]
  by_cases nonnegative : 0 ≤ x
  · obtain ⟨n, rfl⟩ := Int.eq_ofNat_of_zero_le nonnegative
    rw [if_pos nonnegative]
    exact isNumeral_repr n
  · have chars : ("-" ++ (-x).toNat.repr).toList = '-' :: Nat.toDigits 10 (-x).toNat := by
      rw [String.toList_append, Nat.toList_repr]
      rfl
    rw [if_neg nonnegative]
    refine ⟨Nat.toDigits 10 (-x).toNat, plainDigits_toDigits _, ?_, ?_⟩
    · rw [chars, if_pos (by omega)]
    · rw [chars, numeralValue_minus, Nat.ofDigitChars_ten_toDigits]
      omega

theorem Digits.exists_digitChar_of_mem {base width n : Nat} {digit : Char} (positive : 0 < base)
    (member : digit ∈ places base width n) : ∃ d < base, digit = Nat.digitChar d := by
  induction width generalizing n with
  | zero => simp [places] at member
  | succ width ih =>
    rw [places, List.mem_append, List.mem_singleton] at member
    rcases member with earlier | last
    · exact ih earlier
    · exact ⟨n % base, Nat.mod_lt n positive, last⟩

end CilSketch
