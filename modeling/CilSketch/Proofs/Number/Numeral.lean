import CilSketch.Proofs.Number.Window
import CilSketch.Proofs.Text.Numeral
import Mathlib.Data.List.TakeWhile
import Mathlib.Tactic.Positivity

/-!
Decimal numerals with places after the point: what number one stands for, and how many of its digits
are significant. The positional text of a decimal is such a numeral. It has no zeros at its ends
that could be left out, and no significant digits but those of the decimal.
-/

set_option autoImplicit false

namespace CilSketch

/-- A numeral without an exponent. It has a point exactly if there are places behind it. -/
structure Numeral where
  negative : Bool
  whole : List Char
  places : List Char
  whole_nonempty : whole ≠ []
  isDigit : ∀ c ∈ whole ++ places, c.isDigit = true

def trimZeros (digits : List Char) : List Char :=
  digits.dropWhile (· == '0')

namespace Numeral

def digits (numeral : Numeral) : List Char :=
  numeral.whole ++ numeral.places

def point (numeral : Numeral) : List Char :=
  if numeral.places = [] then [] else '.' :: numeral.places

def text (numeral : Numeral) : String :=
  String.ofList ((if numeral.negative then ['-'] else []) ++ numeral.whole ++ numeral.point)

def magnitude (numeral : Numeral) : ℚ :=
  Nat.ofDigitChars 10 numeral.digits 0 / 10 ^ numeral.places.length

def value (numeral : Numeral) : ℚ :=
  withSign numeral.negative numeral.magnitude

/-- The number of digits from the first to the last that is not zero. -/
def significantDigits (numeral : Numeral) : Nat :=
  (trimZeros (trimZeros numeral.digits).reverse).length

/-- No zero could be left out, so in particular no place is zero if there is only one. -/
structure IsPlain (numeral : Numeral) : Prop where
  plainWhole : PlainDigits numeral.whole
  noTrailingZero : numeral.places.getLast? ≠ some '0'

theorem magnitude_nonneg (numeral : Numeral) : 0 ≤ numeral.magnitude := by
  unfold magnitude
  positivity

end Numeral

section Zeros

theorem exists_zeros (digits : List Char) :
    ∃ count, digits = List.replicate count '0' ++ trimZeros digits := by
  refine ⟨(digits.takeWhile (· == '0')).length, ?_⟩
  have zeros : digits.takeWhile (· == '0') =
      List.replicate (digits.takeWhile (· == '0')).length '0' := by
    refine List.eq_replicate_iff.mpr ⟨rfl, fun c member => ?_⟩
    simpa using List.mem_takeWhile_imp member
  rw [← zeros]
  exact List.takeWhile_append_dropWhile.symm

theorem trimZeros_append (count : Nat) (digits : List Char) :
    trimZeros (List.replicate count '0' ++ digits) = trimZeros digits := by
  refine List.dropWhile_append_of_pos fun c member => ?_
  simpa using List.eq_of_mem_replicate member

theorem length_trimZeros_le (digits : List Char) : (trimZeros digits).length ≤ digits.length :=
  List.length_dropWhile_le _ _

end Zeros

namespace Numeral

/-- The digits of a numeral between zeros at both ends. -/
def HasCore (numeral : Numeral) (core : List Char) (back : Nat) : Prop :=
  ∃ front, numeral.digits = List.replicate front '0' ++ core ++ List.replicate back '0'

theorem HasCore.isDigit {numeral : Numeral} {core : List Char} {back : Nat}
    (hasCore : numeral.HasCore core back) : ∀ c ∈ core, c.isDigit = true := by
  obtain ⟨front, digits⟩ := hasCore
  intro c member
  refine numeral.isDigit c ?_
  rw [← Numeral.digits, digits]
  exact List.mem_append_left _ (List.mem_append_right _ member)

theorem exists_hasCore (numeral : Numeral) :
    ∃ core back, numeral.HasCore core back ∧ core.length = numeral.significantDigits := by
  obtain ⟨front, leading⟩ := exists_zeros numeral.digits
  obtain ⟨back, trailing⟩ := exists_zeros (trimZeros numeral.digits).reverse
  refine ⟨(trimZeros (trimZeros numeral.digits).reverse).reverse, back, ⟨front, ?_⟩,
    List.length_reverse⟩
  have reversed := congrArg List.reverse trailing
  rw [List.reverse_reverse, List.reverse_append, List.reverse_replicate] at reversed
  rw [List.append_assoc, ← reversed]
  exact leading

theorem significantDigits_le {numeral : Numeral} {core : List Char} {back : Nat}
    (hasCore : numeral.HasCore core back) : numeral.significantDigits ≤ core.length := by
  obtain ⟨front, digits⟩ := hasCore
  rw [significantDigits, digits, List.append_assoc, trimZeros_append]
  by_cases zeros : trimZeros core = []
  · have trimmed : trimZeros (core ++ List.replicate back '0') = [] := by
      rw [trimZeros, List.dropWhile_append, ← trimZeros, zeros]
      simp
    rw [trimmed]
    exact Nat.zero_le _
  · have trimmed : trimZeros (core ++ List.replicate back '0') =
        trimZeros core ++ List.replicate back '0' := by
      rw [trimZeros, List.dropWhile_append, ← trimZeros, if_neg (by simpa using zeros)]
    rw [trimmed, List.reverse_append, List.reverse_replicate, trimZeros_append]
    refine (length_trimZeros_le _).trans ?_
    rw [List.length_reverse]
    exact length_trimZeros_le core

theorem magnitude_eq {numeral : Numeral} {core : List Char} {back : Nat}
    (hasCore : numeral.HasCore core back) :
    numeral.magnitude = Nat.ofDigitChars 10 core 0 * 10 ^ ((back : ℤ) - numeral.places.length) := by
  obtain ⟨front, digits⟩ := hasCore
  rw [magnitude, digits, Nat.ofDigitChars_append, Nat.ofDigitChars_append,
    Nat.ofDigitChars_replicate_zero, Nat.ofDigitChars_replicate_zero, Nat.mul_zero,
    zpow_sub₀ (by norm_num), zpow_natCast, zpow_natCast]
  push_cast
  ring

end Numeral

theorem digit_le_nine {c : Char} (isDigit : c.isDigit = true) : c.toNat - '0'.toNat ≤ 9 := by
  have bounds : 48 ≤ c.toNat ∧ c.toNat ≤ 57 := by
    simpa [Char.isDigit, UInt32.le_iff_toNat_le] using isDigit
  change c.toNat - 48 ≤ 9
  omega

theorem ofDigitChars_lt {digits : List Char} (isDigit : ∀ c ∈ digits, c.isDigit = true) :
    Nat.ofDigitChars 10 digits 0 < 10 ^ digits.length := by
  induction digits with
  | nil => simp
  | cons c digits ih =>
    obtain ⟨first, others⟩ := List.forall_mem_cons.mp isDigit
    have leading := Nat.mul_le_mul_left (10 ^ digits.length) (digit_le_nine first)
    have rest := ih others
    rw [Nat.ofDigitChars_cons, Nat.ofDigitChars_eq_ofDigitChars_zero, List.length_cons, pow_succ,
      Nat.mul_zero, Nat.zero_add]
    omega

namespace Numeral

theorem isDigit_whole (numeral : Numeral) : ∀ c ∈ numeral.whole, c.isDigit = true :=
  fun c member => numeral.isDigit c (List.mem_append_left _ member)

theorem head?_whole_ne (numeral : Numeral) : numeral.whole.head? ≠ some '-' := by
  intro isSign
  have digit := numeral.isDigit_whole '-' (List.mem_of_head? isSign)
  exact absurd digit (by decide)

theorem takeWhile_point (numeral : Numeral) : numeral.point.takeWhile Char.isDigit = [] := by
  unfold point
  split <;> rfl

theorem toList_text (numeral : Numeral) :
    numeral.text.toList =
      (if numeral.negative then ['-'] else []) ++ numeral.whole ++ numeral.point :=
  String.toList_ofList

theorem not_mem_text (numeral : Numeral) {c : Char} (letter : c.isDigit = false) (notSign : c ≠ '-')
    (notPoint : c ≠ '.') : c ∉ numeral.text.toList := by
  have notDigit : c ∉ numeral.whole ++ numeral.places := by
    intro member
    rw [numeral.isDigit c member] at letter
    contradiction
  rw [List.mem_append, not_or] at notDigit
  have signs : c ∉ (if numeral.negative then ['-'] else []) := by
    split <;> simp [notSign]
  have point : c ∉ numeral.point := by
    unfold Numeral.point
    split <;> simp [notPoint, notDigit.2]
  simp only [toList_text, List.mem_append, not_or]
  exact ⟨⟨signs, notDigit.1⟩, point⟩

theorem head?_text_iff (numeral : Numeral) :
    numeral.text.toList.head? = some '-' ↔ numeral.negative = true := by
  rw [toList_text]
  cases numeral.negative with
  | true => simp
  | false =>
    have first : (numeral.whole ++ numeral.point).head? = numeral.whole.head? :=
      List.head?_append_of_ne_nil _ numeral.whole_nonempty
    simpa [first] using numeral.head?_whole_ne

/-- The sign, the point and the digits before and behind it can all be told from the text. -/
theorem text_injective : Function.Injective text := by
  intro a b same
  have chars := congrArg String.toList same
  rw [toList_text, toList_text, List.append_assoc, List.append_assoc] at chars
  have signs : a.negative = b.negative := by
    rw [Bool.eq_iff_iff, ← head?_text_iff, ← head?_text_iff, same]
  rw [signs, List.append_cancel_left_eq] at chars
  have wholes : a.whole = b.whole := by
    have digits := congrArg (List.takeWhile Char.isDigit) chars
    rw [List.takeWhile_append_of_pos a.isDigit_whole, List.takeWhile_append_of_pos b.isDigit_whole,
      takeWhile_point, takeWhile_point, List.append_nil, List.append_nil] at digits
    exact digits
  rw [wholes, List.append_cancel_left_eq] at chars
  have places : a.places = b.places := by
    unfold point at chars
    split at chars <;> split at chars <;> simp_all
  cases a
  cases b
  simp_all

end Numeral

theorem isDigit_of_mem_toDigits {n : Nat} {c : Char} (member : c ∈ Nat.toDigits 10 n) :
    c.isDigit = true :=
  Nat.isDigit_of_mem_toDigits (by decide) (by decide) member

theorem isDigit_of_mem_zeros {count : Nat} {c : Char} (member : c ∈ List.replicate count '0') :
    c.isDigit = true := by
  rw [List.eq_of_mem_replicate member]
  rfl

theorem isDigit_of_mem_places {width n : Nat} {c : Char} (member : c ∈ Digits.places 10 width n) :
    c.isDigit = true := by
  obtain ⟨d, isLess, rfl⟩ := Digits.exists_digitChar_of_mem (by decide) member
  rw [Nat.isDigit_digitChar, decide_eq_true isLess]

namespace Decimal

/-- The positional text of a decimal, with a sign. -/
def numeral (d : Decimal) (negative : Bool) : Numeral :=
  match d.exponent with
  | .ofNat zeros =>
    { negative
      whole := Nat.toDigits 10 d.digits ++ List.replicate zeros '0'
      places := []
      whole_nonempty := by simp
      isDigit := by
        simp only [List.append_nil]
        exact fun c member => (List.mem_append.mp member).elim isDigit_of_mem_toDigits
          isDigit_of_mem_zeros }
  | .negSucc n =>
    { negative
      whole := Nat.toDigits 10 (d.digits / 10 ^ (n + 1))
      places := Digits.places 10 (n + 1) (d.digits % 10 ^ (n + 1))
      whole_nonempty := Nat.toDigits_ne_nil
      isDigit := fun c member => (List.mem_append.mp member).elim isDigit_of_mem_toDigits
        isDigit_of_mem_places }

theorem negative_numeral (d : Decimal) (negative : Bool) :
    (d.numeral negative).negative = negative := by
  unfold numeral
  split <;> rfl

theorem text_numeral (d : Decimal) (negative : Bool) :
    (d.numeral negative).text = (if negative then "-" else "") ++ d.positional := by
  apply String.toList_inj.mp
  rw [Numeral.toList_text, negative_numeral, String.toList_append, List.append_assoc]
  congr 1
  · cases negative <;> rfl
  · cases isExponent : d.exponent with
    | ofNat zeros => simp [numeral, positional, isExponent, Numeral.point]
    | negSucc n =>
      have nonempty : Digits.places 10 (n + 1) (d.digits % 10 ^ (n + 1)) ≠ [] :=
        List.ne_nil_of_length_pos (by simp)
      simp [numeral, positional, isExponent, Numeral.point, nonempty]

/-- Zeros in front fill the places that the digits do not reach. -/
theorem exists_front_zeros (digits width : Nat) :
    ∃ front, Nat.toDigits 10 (digits / 10 ^ width) ++ Digits.places 10 width (digits % 10 ^ width) =
      List.replicate front '0' ++ Nat.toDigits 10 digits := by
  induction width generalizing digits with
  | zero => exact ⟨0, by simp [Digits.places]⟩
  | succ width ih =>
    obtain ⟨front, places⟩ := ih (digits / 10)
    rw [pow_succ', ← Nat.div_div_eq_div_mul, Digits.places, Nat.mod_mul_right_div_self,
      Nat.mod_mul_right_mod, ← List.append_assoc, places]
    by_cases small : digits < 10
    · refine ⟨front + 1, ?_⟩
      rw [Nat.div_eq_of_lt small, Nat.mod_eq_of_lt small, Nat.toDigits_of_lt_base small,
        Nat.toDigits_zero, List.replicate_succ', List.append_assoc]
    · refine ⟨front, ?_⟩
      rw [Nat.toDigits_of_base_le (by decide) (Nat.le_of_not_lt small), List.append_assoc]

/-- Apart from zeros at the ends, the digits of the numeral are those of the decimal. -/
theorem hasCore_numeral (d : Decimal) (negative : Bool) :
    ∃ back : Nat, (d.numeral negative).HasCore (Nat.toDigits 10 d.digits) back ∧
      (back : ℤ) - (d.numeral negative).places.length = d.exponent := by
  unfold numeral
  split
  · next zeros isExponent =>
    refine ⟨zeros, ⟨0, by simp [Numeral.digits]⟩, ?_⟩
    simp [isExponent]
  · next n isExponent =>
    obtain ⟨front, digits⟩ := exists_front_zeros d.digits (n + 1)
    refine ⟨0, ⟨front, by simpa [Numeral.digits] using digits⟩, ?_⟩
    simp [isExponent, Int.negSucc_eq]

theorem magnitude_numeral (d : Decimal) (negative : Bool) :
    (d.numeral negative).magnitude = d.value := by
  obtain ⟨back, hasCore, exponent⟩ := d.hasCore_numeral negative
  rw [Numeral.magnitude_eq hasCore, Nat.ofDigitChars_ten_toDigits, exponent]
  rfl

theorem significantDigits_numeral_le (d : Decimal) (negative : Bool) :
    (d.numeral negative).significantDigits ≤ (Nat.toDigits 10 d.digits).length := by
  obtain ⟨back, hasCore, -⟩ := d.hasCore_numeral negative
  exact Numeral.significantDigits_le hasCore

theorem isPlain_numeral {d : Decimal} (trimmed : d.digits % 10 ≠ 0) (negative : Bool) :
    (d.numeral negative).IsPlain := by
  unfold numeral
  split
  · refine ⟨⟨by simp, ?_, ?_⟩, by simp⟩
    · exact fun c member => (List.mem_append.mp member).elim isDigit_of_mem_toDigits
        isDigit_of_mem_zeros
    · intro leads
      rw [List.head?_append_of_ne_nil _ Nat.toDigits_ne_nil] at leads
      rw [eq_zero_of_head?_toDigits leads] at trimmed
      contradiction
  · next n _ =>
    have digit : ∀ k < 10, Nat.digitChar k = '0' → k = 0 := by decide
    have last : (Digits.places 10 (n + 1) (d.digits % 10 ^ (n + 1))).getLast? =
        some (Nat.digitChar (d.digits % 10)) := by
      rw [Digits.places, List.getLast?_concat, pow_succ', Nat.mod_mul_right_mod]
    refine ⟨plainDigits_toDigits _, fun isZero => trimmed ?_⟩
    exact digit _ (Nat.mod_lt _ (by decide)) (Option.some.inj (last.symm.trans isZero))

theorem isPlain_zero (negative : Bool) : (numeral ⟨0, 0⟩ negative).IsPlain := by
  refine ⟨?_, by simp [numeral]⟩
  simpa [numeral] using plainDigits_toDigits 0

theorem significantDigits_zero (negative : Bool) :
    (numeral ⟨0, 0⟩ negative).significantDigits = 0 := by
  have hasCore : (numeral ⟨0, 0⟩ negative).HasCore [] 0 := ⟨1, rfl⟩
  exact Nat.le_zero.mp (Numeral.significantDigits_le hasCore)

end Decimal

end CilSketch
