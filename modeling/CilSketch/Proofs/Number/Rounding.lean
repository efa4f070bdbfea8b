import CilSketch.Number.Binary
import Mathlib.Algebra.Order.Field.Power
import Mathlib.Algebra.Order.Field.Rat
import Mathlib.Tactic.Linarith
import Mathlib.Tactic.Ring

/-!
Rounding of rational numbers to the nearest binary value. Without its sign, a pattern is a number,
and these numbers count the magnitudes in order: from one to the next it is one unit in the last
place. So the neighbours of a value decide what rounds to it, and no number rounds to two patterns.
-/

set_option autoImplicit false

namespace CilSketch

namespace BinaryFormat

variable (format : BinaryFormat)

/-- The distance from a magnitude to the next one, in the smallest distance there is. -/
def gap (code : Nat) : Nat :=
  2 ^ (code / 2 ^ format.fractionBits - 1)

/-- The magnitude of a pattern that is the given number without its sign. -/
def magnitude (code : Nat) : Nat :=
  (if code / 2 ^ format.fractionBits = 0 then code % 2 ^ format.fractionBits
    else 2 ^ format.fractionBits + code % 2 ^ format.fractionBits) * format.gap code

/-- The smallest distance between two magnitudes. -/
def quantum : ℚ :=
  2 ^ (1 - (format.bias : ℤ) - format.fractionBits)

/-- The last of the patterns that are numbers. -/
def infinityCode : Nat :=
  format.topExponent * 2 ^ format.fractionBits

theorem quantum_pos : 0 < format.quantum :=
  zpow_pos two_pos _

/-- A carry out of the fraction doubles the gap, and the value goes on without a jump. -/
theorem magnitude_succ (code : Nat) :
    format.magnitude (code + 1) = format.magnitude code + format.gap code := by
  have positive : 0 < 2 ^ format.fractionBits := Nat.two_pow_pos _
  unfold magnitude gap
  generalize 2 ^ format.fractionBits = size at positive ⊢
  obtain ⟨field, fraction, isLess, rfl⟩ :
      ∃ field fraction, fraction < size ∧ code = size * field + fraction :=
    ⟨code / size, code % size, Nat.mod_lt _ positive, (Nat.div_add_mod code size).symm⟩
  have fieldOf : (size * field + fraction) / size = field := by
    rw [Nat.mul_add_div positive, Nat.div_eq_of_lt isLess, Nat.add_zero]
  have fractionOf : (size * field + fraction) % size = fraction := by
    rw [Nat.mul_add_mod, Nat.mod_eq_of_lt isLess]
  rw [fieldOf, fractionOf]
  by_cases carries : fraction + 1 = size
  · have next : size * field + fraction + 1 = size * (field + 1) := by
      rw [Nat.add_assoc, carries, Nat.mul_succ]
    rw [next, Nat.mul_div_cancel_left _ positive, Nat.mul_mod_right, Nat.add_sub_cancel,
      if_neg field.succ_ne_zero, ← carries]
    cases field with
    | zero => simp
    | succ field =>
      rw [if_neg field.succ_ne_zero, Nat.add_sub_cancel, pow_succ]
      ring
  · have stays : fraction + 1 < size := by omega
    rw [Nat.add_assoc, Nat.mul_add_div positive, Nat.div_eq_of_lt stays, Nat.add_zero,
      Nat.mul_add_mod, Nat.mod_eq_of_lt stays]
    split <;> ring

theorem gap_pos (code : Nat) : 0 < format.gap code :=
  Nat.two_pow_pos _

theorem strictMono_magnitude : StrictMono format.magnitude := by
  refine strictMono_nat_of_lt_succ fun code => ?_
  rw [magnitude_succ]
  exact Nat.lt_add_of_pos_right (format.gap_pos code)

theorem magnitude_zero : format.magnitude 0 = 0 := by
  simp [magnitude]

/-- The gap below a magnitude is that above it, except at the start of a binade. -/
theorem gap_succ (code : Nat) :
    format.gap (code + 1) =
      (if 1 < (code + 1) / 2 ^ format.fractionBits ∧ (code + 1) % 2 ^ format.fractionBits = 0
        then 2 else 1) * format.gap code := by
  unfold gap
  simp only [← Nat.dvd_iff_mod_eq_zero, Nat.succ_div]
  by_cases carries : 2 ^ format.fractionBits ∣ code + 1
  · simp only [carries, if_true, and_true]
    cases code / 2 ^ format.fractionBits with
    | zero => simp
    | succ field => simp [pow_succ, Nat.mul_comm]
  · simp [carries]

theorem width_eq : format.width = format.exponentBits + format.fractionBits + 1 := by
  rw [width, Nat.add_assoc, Nat.add_comm]

theorem infinityCode_lt :
    format.infinityCode < 2 ^ (format.exponentBits + format.fractionBits) := by
  have top : format.topExponent < 2 ^ format.exponentBits := by
    rw [topExponent, Nat.pow_eq]
    exact Nat.sub_one_lt (Nat.two_pow_pos _).ne'
  rw [infinityCode, pow_add]
  exact Nat.mul_lt_mul_of_pos_right top (Nat.two_pow_pos _)

end BinaryFormat

namespace Binary

variable {format : BinaryFormat}

/-- A pattern without its sign. -/
def code (x : Binary format) : Nat :=
  x.bits.toNat % 2 ^ (format.exponentBits + format.fractionBits)

def ofCode (negative : Bool) (code : Nat) : Binary format :=
  ⟨BitVec.ofNat _ (code + if negative then 2 ^ (format.exponentBits + format.fractionBits) else 0)⟩

theorem exponentField_eq (x : Binary format) :
    x.exponentField = x.code / 2 ^ format.fractionBits := by
  rw [exponentField, code, Nat.pow_eq, Nat.pow_eq, Nat.add_comm, pow_add,
    Nat.mod_mul_right_div_self]

theorem fractionField_eq (x : Binary format) :
    x.fractionField = x.code % 2 ^ format.fractionBits := by
  rw [fractionField, code, Nat.pow_eq, Nat.add_comm, pow_add, Nat.mod_mul_right_mod]

theorem isNegative_eq (x : Binary format) :
    x.isNegative = decide (2 ^ (format.exponentBits + format.fractionBits) ≤ x.bits.toNat) := by
  have topBit : format.width - 1 = format.exponentBits + format.fractionBits := by
    rw [format.width_eq, Nat.add_sub_cancel]
  rw [isNegative, BitVec.msb_eq_decide, topBit]

theorem bits_eq (x : Binary format) :
    x.bits.toNat =
      x.code + if x.isNegative then 2 ^ (format.exponentBits + format.fractionBits) else 0 := by
  have bound : x.bits.toNat < 2 ^ (format.exponentBits + format.fractionBits) * 2 :=
    calc
      x.bits.toNat < 2 ^ format.width := x.bits.isLt
      _ = 2 ^ (format.exponentBits + format.fractionBits) * 2 := by rw [format.width_eq, pow_succ]
  rw [code, isNegative_eq]
  generalize 2 ^ (format.exponentBits + format.fractionBits) = size at bound ⊢
  by_cases high : size ≤ x.bits.toNat
  · rw [Nat.mod_eq_sub_mod high, Nat.mod_eq_of_lt (by omega)]
    simp [high]
  · rw [Nat.mod_eq_of_lt (by omega)]
    simp [high]

theorem ext_of_code {x y : Binary format} (codes : x.code = y.code)
    (signs : x.isNegative = y.isNegative) : x = y := by
  cases x with
  | mk bits =>
    cases y with
    | mk others =>
      congr
      apply BitVec.eq_of_toNat_eq
      have left := bits_eq (⟨bits⟩ : Binary format)
      have right := bits_eq (⟨others⟩ : Binary format)
      rw [codes, signs] at left
      exact left.trans right.symm

section OfCode

variable {code : Nat} (isLess : code < 2 ^ (format.exponentBits + format.fractionBits))
  (negative : Bool)

include isLess

theorem bits_ofCode : (ofCode negative code : Binary format).bits.toNat =
    code + if negative then 2 ^ (format.exponentBits + format.fractionBits) else 0 := by
  rw [ofCode, BitVec.toNat_ofNat]
  apply Nat.mod_eq_of_lt
  rw [format.width_eq, pow_succ]
  split <;> omega

theorem code_ofCode : (ofCode negative code : Binary format).code = code := by
  rw [Binary.code, bits_ofCode isLess]
  cases negative <;> simp [Nat.mod_eq_of_lt isLess]

theorem isNegative_ofCode : (ofCode negative code : Binary format).isNegative = negative := by
  rw [isNegative_eq, bits_ofCode isLess]
  cases negative <;> simp [isLess]

end OfCode

theorem exponentField_le (x : Binary format) : x.exponentField ≤ format.topExponent := by
  have isLess : x.exponentField < 2 ^ format.exponentBits := Nat.mod_lt _ (Nat.two_pow_pos _)
  exact Nat.le_sub_one_of_lt isLess

theorem code_eq (x : Binary format) :
    x.code = x.exponentField * 2 ^ format.fractionBits + x.fractionField := by
  rw [exponentField_eq, fractionField_eq, Nat.mul_comm, Nat.div_add_mod]

theorem code_lt_of_exponentField_lt (x : Binary format)
    (below : x.exponentField < format.topExponent) : x.code < format.infinityCode := by
  have fraction : x.fractionField < 2 ^ format.fractionBits := Nat.mod_lt _ (Nat.two_pow_pos _)
  have next := Nat.mul_le_mul_right (2 ^ format.fractionBits) (Nat.succ_le_of_lt below)
  rw [Nat.succ_mul] at next
  rw [code_eq, BinaryFormat.infinityCode]
  omega

theorem code_le_infinityCode_iff (x : Binary format) :
    x.code ≤ format.infinityCode ↔ x.isNaN = false := by
  rcases Nat.lt_or_eq_of_le x.exponentField_le with below | isTop
  · simp [isNaN, below.ne, (x.code_lt_of_exponentField_lt below).le]
  · simp [code_eq, BinaryFormat.infinityCode, isNaN, isTop]

theorem code_lt_infinityCode_iff (x : Binary format) :
    x.code < format.infinityCode ↔ x.isNaN = false ∧ x.isInfinite = false := by
  rcases Nat.lt_or_eq_of_le x.exponentField_le with below | isTop
  · simp [isNaN, isInfinite, below.ne, x.code_lt_of_exponentField_lt below]
  · simp [code_eq, BinaryFormat.infinityCode, isNaN, isInfinite, isTop]

theorem code_of_isInfinite {x : Binary format} (isNumber : x.isNaN = false)
    (isInfinite : x.isInfinite = true) : x.code = format.infinityCode := by
  refine Nat.le_antisymm (x.code_le_infinityCode_iff.mpr isNumber) (Nat.le_of_not_lt ?_)
  intro isLess
  have isFinite := (x.code_lt_infinityCode_iff.mp isLess).2
  rw [isInfinite] at isFinite
  contradiction

theorem code_eq_zero {x : Binary format} (zero : x.significand = 0) : x.code = 0 := by
  unfold significand at zero
  split at zero
  · next subnormal => rw [code_eq, subnormal, zero, Nat.zero_mul]
  · have positive := Nat.two_pow_pos format.fractionBits
    rw [Nat.pow_eq] at zero
    omega

end Binary

/-- The magnitude that a code stands for. -/
def BinaryFormat.point (format : BinaryFormat) (code : Nat) : ℚ :=
  format.magnitude code * format.quantum

theorem BinaryFormat.strictMono_point (format : BinaryFormat) : StrictMono format.point := by
  intro a b isLess
  have magnitudes : (format.magnitude a : ℚ) < format.magnitude b := by
    exact_mod_cast format.strictMono_magnitude isLess
  exact mul_lt_mul_of_pos_right magnitudes format.quantum_pos

def withSign (negative : Bool) (q : ℚ) : ℚ :=
  if negative then -q else q

theorem abs_withSign_sub (negative : Bool) (q r : ℚ) :
    |withSign negative q - withSign negative r| = |q - r| := by
  cases negative with
  | false => rfl
  | true =>
    rw [abs_sub_comm q]
    simp [withSign, sub_eq_add_neg, add_comm]

theorem abs_withSign_sub_of_ne {negative other : Bool} (opposite : other ≠ negative) (q r : ℚ) :
    |withSign negative q - withSign other r| = |q + r| := by
  cases negative <;> cases other
  · contradiction
  · simp [withSign]
  · rw [← abs_neg (q + r)]
    simp [withSign, sub_eq_add_neg, add_comm]
  · contradiction

theorem abs_sub_le_withSign (negative other : Bool) {q r : ℚ} (q_nonneg : 0 ≤ q)
    (r_nonneg : 0 ≤ r) : |q - r| ≤ |withSign negative q - withSign other r| := by
  by_cases same : other = negative
  · rw [same, abs_withSign_sub]
  · rw [abs_withSign_sub_of_ne same, abs_of_nonneg (add_nonneg q_nonneg r_nonneg), abs_le]
    constructor <;> linarith

theorem withSign_injective (negative : Bool) : Function.Injective (withSign negative) := by
  intro q r same
  cases negative <;> simpa [withSign] using same

namespace Binary

variable {format : BinaryFormat}

/-- The number that a pattern stands for. An infinity takes the place of the power of two that
follows the finite numbers: what is at least as near to it as to them overflows. -/
def value (x : Binary format) : ℚ :=
  withSign x.isNegative (x.significand * 2 ^ x.exponent)

/-- The value is nearest to a number. Of two that are equally near, it is the even one. -/
structure Nearest (x : Binary format) (q : ℚ) : Prop where
  closest : ∀ y : Binary format, y.isNaN = false → |q - x.value| ≤ |q - y.value|
  even_of_tie : ∀ y : Binary format, y.isNaN = false → y.value ≠ x.value →
    |q - y.value| = |q - x.value| → x.significand % 2 = 0

theorem two_zpow_exponent (x : Binary format) :
    (2 : ℚ) ^ x.exponent = format.gap x.code * format.quantum := by
  have shift : ((max x.exponentField 1 : Nat) : ℤ) = (x.exponentField - 1 : Nat) + 1 := by
    omega
  rw [exponent, shift, BinaryFormat.gap, ← exponentField_eq, BinaryFormat.quantum,
    Nat.cast_pow, Nat.cast_ofNat, ← zpow_natCast, ← zpow_add₀ two_ne_zero]
  congr 1
  ring

theorem point_code (x : Binary format) :
    format.point x.code = x.significand * 2 ^ x.exponent := by
  have significand : format.magnitude x.code = x.significand * format.gap x.code := by
    rw [BinaryFormat.magnitude, ← exponentField_eq, ← fractionField_eq]
    rfl
  rw [two_zpow_exponent, BinaryFormat.point, significand, Nat.cast_mul, mul_assoc]

theorem value_eq (x : Binary format) : x.value = withSign x.isNegative (format.point x.code) := by
  rw [point_code, value]

theorem significand_mod_two (fraction : 0 < format.fractionBits) (x : Binary format) :
    x.significand % 2 = x.code % 2 := by
  have even : 2 ∣ 2 ^ format.fractionBits := dvd_pow_self 2 fraction.ne'
  have field : x.fractionField % 2 = x.code % 2 := by
    rw [fractionField_eq, Nat.mod_mod_of_dvd _ even]
  rw [significand]
  split
  · exact field
  · rw [Nat.pow_eq, Nat.add_mod, Nat.mod_eq_zero_of_dvd even, Nat.zero_add, Nat.mod_mod, field]

end Binary

namespace BinaryFormat

variable (format : BinaryFormat)

theorem point_zero : format.point 0 = 0 := by
  rw [point, magnitude_zero, Nat.cast_zero, zero_mul]

theorem point_nonneg (code : Nat) : 0 ≤ format.point code :=
  mul_nonneg (Nat.cast_nonneg _) format.quantum_pos.le

/-- Nearest values among magnitudes alone. -/
structure NearestCode (code : Nat) (q : ℚ) : Prop where
  closest : ∀ other ≤ format.infinityCode, |q - format.point code| ≤ |q - format.point other|
  even_of_tie : ∀ other ≤ format.infinityCode, other ≠ code →
    |q - format.point other| = |q - format.point code| → code % 2 = 0

end BinaryFormat

namespace Binary

variable {format : BinaryFormat}

/-- Of the values with the other sign none is nearer than its opposite. -/
theorem nearest_withSign_iff (fraction : 0 < format.fractionBits) (x : Binary format) {q : ℚ}
    (nonneg : 0 ≤ q) :
    x.Nearest (withSign x.isNegative q) ↔ format.NearestCode x.code q := by
  have distance : |withSign x.isNegative q - x.value| = |q - format.point x.code| := by
    rw [value_eq, abs_withSign_sub]
  constructor
  · intro nearest
    -- A magnitude is compared through the pattern that has it, with the sign of the number.
    have pattern (other : Nat) (isNumber : other ≤ format.infinityCode) :
        ∃ y : Binary format,
          y.isNaN = false ∧ y.value = withSign x.isNegative (format.point other) := by
      have isLess := isNumber.trans_lt format.infinityCode_lt
      refine ⟨ofCode x.isNegative other, ?_, ?_⟩
      · rw [← code_le_infinityCode_iff, code_ofCode isLess]
        exact isNumber
      · rw [value_eq, code_ofCode isLess, isNegative_ofCode isLess]
    constructor
    · intro other isNumber
      obtain ⟨y, number, value⟩ := pattern other isNumber
      have closest := nearest.closest y number
      rwa [distance, value, abs_withSign_sub] at closest
    · intro other isNumber different tie
      obtain ⟨y, number, value⟩ := pattern other isNumber
      rw [← significand_mod_two fraction]
      refine nearest.even_of_tie y number ?_ ?_
      · rw [value, value_eq]
        exact (withSign_injective _).ne (format.strictMono_point.injective.ne different)
      · rw [distance, value, abs_withSign_sub]
        exact tie
  · intro nearest
    constructor
    · intro y number
      rw [distance, value_eq]
      exact (nearest.closest y.code (y.code_le_infinityCode_iff.mpr number)).trans
        (abs_sub_le_withSign _ _ nonneg (format.point_nonneg _))
    · intro y number different tie
      have isCode := y.code_le_infinityCode_iff.mpr number
      rw [distance, value_eq] at tie
      rw [significand_mod_two fraction]
      by_cases same : y.code = x.code
      · -- The opposite of the value is as near only to zero, and then zero would be nearer.
        have opposite : y.isNegative ≠ x.isNegative := by
          intro signs
          exact different (congrArg value (ext_of_code same signs))
        have zero := nearest.closest 0 (Nat.zero_le _)
        rw [same, abs_withSign_sub_of_ne opposite] at tie
        rw [format.point_zero, sub_zero, ← tie,
          abs_of_nonneg (add_nonneg nonneg (format.point_nonneg _)), abs_of_nonneg nonneg] at zero
        have isZero : format.point x.code = 0 := by
          linarith [format.point_nonneg x.code]
        refine absurd ?_ different
        rw [value_eq, value_eq, same, isZero]
        simp [withSign]
      · refine nearest.even_of_tie y.code isCode same (le_antisymm ?_ (nearest.closest _ isCode))
        rw [← tie]
        exact abs_sub_le_withSign _ _ nonneg (format.point_nonneg _)

end Binary

theorem abs_sub_le_lower_iff {a b q : ℚ} (isLess : a < b) : |q - a| ≤ |q - b| ↔ 2 * q ≤ a + b := by
  constructor
  · intro near
    by_contra beyond
    have nearer : |q - b| < q - a := by
      rw [abs_lt]
      constructor <;> linarith
    linarith [le_abs_self (q - a)]
  · intro near
    rw [abs_sub_comm q b, abs_of_nonneg (by linarith : 0 ≤ b - q), abs_le]
    constructor <;> linarith

theorem abs_sub_le_upper_iff {a b q : ℚ} (isLess : a < b) : |q - b| ≤ |q - a| ↔ a + b ≤ 2 * q := by
  have mirrored := abs_sub_le_lower_iff (q := -q) (neg_lt_neg isLess)
  have right : |-q - -a| = |q - a| := by rw [← neg_sub', abs_neg]
  have left : |-q - -b| = |q - b| := by rw [← neg_sub', abs_neg]
  rw [left, right] at mirrored
  rw [mirrored]
  constructor <;> intro <;> linarith

namespace BinaryFormat

variable {format : BinaryFormat}

variable (format) in
theorem nearestCode_zero : format.NearestCode 0 0 := by
  constructor
  · intro other _
    simp [format.point_zero]
  · intro other _ _ _
    rfl

namespace NearestCode

theorem le {a b : Nat} {q : ℚ} (lower : format.NearestCode a q) (upper : format.NearestCode b q)
    (isNumber : b ≤ format.infinityCode) : b ≤ a := by
  by_contra beyond
  have isLess : a < b := Nat.lt_of_not_le beyond
  have tie : |q - format.point a| = |q - format.point b| :=
    le_antisymm (lower.closest b isNumber) (upper.closest a (isLess.le.trans isNumber))
  have lowerEven := lower.even_of_tie b isNumber isLess.ne' tie.symm
  have upperEven := upper.even_of_tie a (isLess.le.trans isNumber) isLess.ne tie
  -- Codes of one parity are not next to each other, and the one between is nearer.
  have between : a + 1 < b := by omega
  have midpoint := (abs_sub_le_upper_iff (format.strictMono_point isLess)).mp tie.ge
  have nearer := lower.closest (a + 1) (between.le.trans isNumber)
  rw [abs_sub_le_lower_iff (format.strictMono_point a.lt_succ_self)] at nearer
  linarith [format.strictMono_point between]

theorem unique {a b : Nat} {q : ℚ} (first : format.NearestCode a q)
    (second : format.NearestCode b q) (isFirst : a ≤ format.infinityCode)
    (isSecond : b ≤ format.infinityCode) : a = b :=
  Nat.le_antisymm (second.le first isFirst) (first.le second isSecond)

end NearestCode

/-- The two neighbours decide what is nearest to a magnitude. -/
theorem nearestCode_succ_iff {code : Nat} (isFinite : code + 1 < format.infinityCode) (q : ℚ) :
    format.NearestCode (code + 1) q ↔
      if (code + 1) % 2 = 0 then
        format.point code + format.point (code + 1) ≤ 2 * q ∧
          2 * q ≤ format.point (code + 1) + format.point (code + 2)
      else
        format.point code + format.point (code + 1) < 2 * q ∧
          2 * q < format.point (code + 1) + format.point (code + 2) := by
  have increasing := format.strictMono_point
  have below := increasing code.lt_succ_self
  have above := increasing (code + 1).lt_succ_self
  constructor
  · intro nearest
    have lower := nearest.closest code (by omega)
    have upper := nearest.closest (code + 2) (by omega)
    rw [abs_sub_le_upper_iff below] at lower
    rw [abs_sub_le_lower_iff above] at upper
    split
    · exact ⟨lower, upper⟩
    · next odd =>
      constructor
      · refine lower.lt_of_ne fun tie => odd ?_
        exact nearest.even_of_tie code (by omega) (by omega) (le_antisymm
          ((abs_sub_le_lower_iff below).mpr tie.ge) ((abs_sub_le_upper_iff below).mpr tie.le))
      · refine upper.lt_of_ne fun tie => odd ?_
        exact nearest.even_of_tie (code + 2) (by omega) (by omega) (le_antisymm
          ((abs_sub_le_upper_iff above).mpr tie.ge) ((abs_sub_le_lower_iff above).mpr tie.le))
  · intro within
    have lower (other : Nat) (isLess : other < code + 1) : format.point other ≤ format.point code :=
      increasing.monotone (Nat.le_of_lt_succ isLess)
    have upper (other : Nat) (isGreater : code + 1 < other) :
        format.point (code + 2) ≤ format.point other :=
      increasing.monotone isGreater
    constructor
    · intro other isNumber
      have ends : format.point code + format.point (code + 1) ≤ 2 * q ∧
          2 * q ≤ format.point (code + 1) + format.point (code + 2) := by
        split at within
        · exact within
        · exact ⟨within.1.le, within.2.le⟩
      rcases Nat.lt_trichotomy other (code + 1) with isLess | rfl | isGreater
      · rw [abs_sub_le_upper_iff (increasing isLess)]
        linarith [lower other isLess]
      · exact le_rfl
      · rw [abs_sub_le_lower_iff (increasing isGreater)]
        linarith [upper other isGreater]
    · intro other isNumber different tie
      by_contra odd
      rw [if_neg odd] at within
      rcases different.lt_or_gt with isLess | isGreater
      · have midpoint := (abs_sub_le_lower_iff (increasing isLess)).mp tie.le
        linarith [lower other isLess]
      · have midpoint := (abs_sub_le_upper_iff (increasing isGreater)).mp tie.le
        linarith [upper other isGreater]

end BinaryFormat

/-- No number is nearest to two values of one sign. -/
theorem Binary.Nearest.unique {format : BinaryFormat} (fraction : 0 < format.fractionBits)
    {x y : Binary format} {negative : Bool} {q : ℚ} (nonneg : 0 ≤ q)
    (first : x.Nearest (withSign negative q)) (second : y.Nearest (withSign negative q))
    (isFirst : x.isNaN = false) (isSecond : y.isNaN = false)
    (firstSign : x.isNegative = negative) (secondSign : y.isNegative = negative) : x = y := by
  rw [← firstSign, nearest_withSign_iff fraction x nonneg] at first
  rw [← secondSign, nearest_withSign_iff fraction y nonneg] at second
  refine ext_of_code ?_ (firstSign.trans secondSign.symm)
  exact first.unique second (x.code_le_infinityCode_iff.mpr isFirst)
    (y.code_le_infinityCode_iff.mpr isSecond)

end CilSketch
