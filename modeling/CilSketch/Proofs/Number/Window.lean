import CilSketch.Number.Shortest
import CilSketch.Proofs.Number.Rounding

/-!
The window of a binary value holds exactly the numbers that round to it, and the search finds a
decimal in it that has the fewest digits. The first power of ten that has a multiple in the window
is the coarsest; a number with fewer digits would leave room for a multiple of a coarser one.
-/

set_option autoImplicit false

namespace CilSketch

namespace RoundingWindow

variable {w : RoundingWindow}

/-- Membership in a window, for all rational numbers. -/
def Covers (w : RoundingWindow) (q : ℚ) : Prop :=
  if w.closed then w.low ≤ q ∧ q ≤ w.high else w.low < q ∧ q < w.high

/-- A window lies around a positive number, which is large enough to bound it. -/
structure Proper (w : RoundingWindow) : Prop where
  low_pos : 0 < w.low
  low_lt_mid : w.low < w.mid
  mid_lt_high : w.mid < w.high
  high_le : w.high ≤ 2 * w.mid

theorem covers_natCast_iff (n : Nat) : w.Covers n ↔ w.contains n = true := by
  unfold Covers contains
  split <;> simp

theorem Covers.between {a b q : ℚ} (lower : w.Covers a) (upper : w.Covers b) (a_le : a ≤ q)
    (le_b : q ≤ b) : w.Covers q := by
  unfold Covers at *
  split at lower
  · rw [if_pos ‹_›] at upper ⊢
    exact ⟨lower.1.trans a_le, le_b.trans upper.2⟩
  · rw [if_neg ‹_›] at upper ⊢
    exact ⟨lower.1.trans_le a_le, le_b.trans_lt upper.2⟩

theorem contains_between {a b n : Nat} (lower : w.contains a = true) (upper : w.contains b = true)
    (a_le : a ≤ n) (le_b : n ≤ b) : w.contains n = true := by
  rw [← covers_natCast_iff] at *
  exact lower.between upper (by exact_mod_cast a_le) (by exact_mod_cast le_b)

theorem Covers.low_le {q : ℚ} (covers : w.Covers q) : (w.low : ℚ) ≤ q := by
  unfold Covers at covers
  split at covers
  · exact covers.1
  · exact covers.1.le

theorem Covers.le_high {q : ℚ} (covers : w.Covers q) : q ≤ w.high := by
  unfold Covers at covers
  split at covers
  · exact covers.2
  · exact covers.2.le

theorem Proper.contains_mid (proper : w.Proper) : w.contains w.mid = true := by
  have below := proper.low_lt_mid
  have above := proper.mid_lt_high
  unfold contains
  split <;> simp <;> omega

theorem contains_multipleOf {step digits : Nat} (found : w.multipleOf step = some digits) :
    w.contains (digits * step) = true := by
  unfold multipleOf at found
  cases below : w.contains (w.mid / step * step) <;>
    cases above : w.contains ((w.mid / step + 1) * step) <;> simp only [below, above] at found
  · cases found
  · cases found
    exact above
  · cases found
    exact below
  · cases found
    split
    · exact below
    · exact above

/-- Between a multiple in the window and the middle there is one of the two multiples next to the
middle. -/
theorem Proper.not_contains_multiple (proper : w.Proper) {step : Nat} (step_pos : 0 < step)
    (missing : w.multipleOf step = none) (m : Nat) : w.contains (m * step) = false := by
  obtain ⟨below, above⟩ : w.contains (w.mid / step * step) = false ∧
      w.contains ((w.mid / step + 1) * step) = false := by
    unfold multipleOf at missing
    cases below : w.contains (w.mid / step * step) <;>
      cases above : w.contains ((w.mid / step + 1) * step) <;> simp_all
  have middle := proper.contains_mid
  by_contra inside
  rw [Bool.not_eq_false] at inside
  rcases Nat.lt_or_ge (w.mid / step) m with isGreater | isLess
  · have beyond : w.mid ≤ (w.mid / step + 1) * step := (Nat.lt_mul_of_div_lt
      (Nat.lt_succ_self _) step_pos).le
    have contained := contains_between middle inside beyond (Nat.mul_le_mul_right step isGreater)
    simp [above] at contained
  · have contained := contains_between inside middle
      (Nat.mul_le_mul_right step isLess) (Nat.div_mul_le_self w.mid step)
    simp [below] at contained

/-- A multiple of a power of ten in the window, where the next power has none. -/
structure Coarsest (w : RoundingWindow) (digits power : Nat) : Prop where
  contains : w.contains (digits * 10 ^ power) = true
  not_contains : ∀ m, w.contains (m * 10 ^ (power + 1)) = false

theorem Proper.coarsest_shortest (proper : w.Proper) (bound : Nat)
    (limit : ∀ m, w.contains (m * 10 ^ (bound + 1)) = false) :
    ∃ power : Nat, (w.shortest bound).exponent = power ∧
      w.Coarsest (w.shortest bound).digits power := by
  induction bound with
  | zero => exact ⟨0, rfl, by simpa [shortest] using proper.contains_mid, limit⟩
  | succ bound ih =>
    rw [shortest]
    split
    · next digits found => exact ⟨bound + 1, rfl, contains_multipleOf found, limit⟩
    · next missing =>
      exact ih (proper.not_contains_multiple (Nat.pow_pos (by decide)) missing)

/-- The search starts above all powers of ten that can have a multiple in the window: eight takes
three bits, so ten to a third of the number of bits is beyond the middle. -/
theorem Proper.not_contains_beyond (proper : w.Proper) (m : Nat) :
    w.contains (m * 10 ^ (w.mid.log2 / 3 + 1 + 1)) = false := by
  have beyond : w.high < 10 ^ (w.mid.log2 / 3 + 1 + 1) :=
    calc
      w.high ≤ 2 * w.mid := proper.high_le
      _ < 2 * 2 ^ (w.mid.log2 + 1) := by
        have := Nat.lt_log2_self (n := w.mid)
        omega
      _ = 2 ^ (w.mid.log2 + 2) := by ring
      _ ≤ 2 ^ (3 * (w.mid.log2 / 3 + 1 + 1)) := Nat.pow_le_pow_right (by decide) (by omega)
      _ = (2 ^ 3) ^ (w.mid.log2 / 3 + 1 + 1) := pow_mul _ _ _
      _ ≤ 10 ^ (w.mid.log2 / 3 + 1 + 1) := Nat.pow_le_pow_left (by decide) _
  by_contra inside
  rw [Bool.not_eq_false, ← covers_natCast_iff] at inside
  have low : w.low ≤ m * 10 ^ (w.mid.log2 / 3 + 1 + 1) := by exact_mod_cast inside.low_le
  have high : m * 10 ^ (w.mid.log2 / 3 + 1 + 1) ≤ w.high := by exact_mod_cast inside.le_high
  have isZero : m = 0 := by
    by_contra nonzero
    have := Nat.le_mul_of_pos_left (10 ^ (w.mid.log2 / 3 + 1 + 1)) (Nat.pos_of_ne_zero nonzero)
    omega
  rw [isZero, Nat.zero_mul] at low
  exact absurd proper.low_pos (Nat.not_lt_of_le low)

/-- A number in the window that has fewer digits is finer, hence the smaller one. Then the power of
ten with that many zeros lies between them, but it is a multiple of the coarser power. -/
theorem Coarsest.digits_lt {digits power : Nat} (coarsest : w.Coarsest digits power)
    (proper : w.Proper) {e m : Nat} {j : ℤ} (covers : w.Covers (e * 10 ^ j)) (bound : e < 10 ^ m) :
    digits < 10 ^ m := by
  have ten : (0 : ℚ) < 10 := by norm_num
  have finer : j ≤ power := by
    by_contra coarser
    obtain ⟨zeros, rfl⟩ : ∃ zeros : Nat, j = (power + 1 + zeros : Nat) :=
      ⟨(j - power - 1).toNat, by omega⟩
    have multiple : (e : ℚ) * 10 ^ ((power + 1 + zeros : Nat) : ℤ) =
        (e * 10 ^ zeros * 10 ^ (power + 1) : Nat) := by
      rw [zpow_natCast]
      push_cast
      ring
    rw [multiple, covers_natCast_iff, coarsest.not_contains] at covers
    contradiction
  by_contra larger
  have lower : (e : ℚ) * 10 ^ j ≤ (10 ^ m * 10 ^ power : Nat) := by
    have digit : (e : ℚ) ≤ 10 ^ m := by exact_mod_cast bound.le
    have grid : (10 : ℚ) ^ j ≤ 10 ^ power := by
      rw [← zpow_natCast]
      exact zpow_le_zpow_right₀ (by norm_num) finer
    push_cast
    gcongr
  have upper : ((10 ^ m * 10 ^ power : Nat) : ℚ) ≤ (digits * 10 ^ power : Nat) := by
    exact_mod_cast Nat.mul_le_mul_right _ (Nat.le_of_not_lt larger)
  have between := covers.between ((covers_natCast_iff _).mpr coarsest.contains) lower upper
  rw [covers_natCast_iff] at between
  cases m with
  | zero =>
    have isZero : e = 0 := by simpa using bound
    have low := covers.low_le
    have positive : (0 : ℚ) < w.low := by exact_mod_cast proper.low_pos
    rw [isZero, Nat.cast_zero, zero_mul] at low
    exact absurd positive (not_lt_of_ge low)
  | succ m =>
    have multiple : 10 ^ (m + 1) * 10 ^ power = 10 ^ m * 10 ^ (power + 1) := by ring
    rw [multiple, coarsest.not_contains] at between
    contradiction

theorem Coarsest.digits_mod_ten {digits power : Nat} (coarsest : w.Coarsest digits power) :
    digits % 10 ≠ 0 := by
  intro isMultiple
  have inside := coarsest.contains
  have multiple : digits * 10 ^ power = digits / 10 * 10 ^ (power + 1) := by
    rw [pow_succ']
    nth_rewrite 1 [← Nat.div_mul_cancel (Nat.dvd_of_mod_eq_zero isMultiple)]
    ring
  rw [multiple, coarsest.not_contains] at inside
  contradiction

theorem Proper.scale (proper : w.Proper) {factor : Nat} (positive : 0 < factor) :
    (w.scale factor).Proper where
  low_pos := Nat.mul_pos proper.low_pos positive
  low_lt_mid := Nat.mul_lt_mul_of_pos_right proper.low_lt_mid positive
  mid_lt_high := Nat.mul_lt_mul_of_pos_right proper.mid_lt_high positive
  high_le := by
    have scaled := Nat.mul_le_mul_right factor proper.high_le
    rwa [Nat.mul_assoc] at scaled

theorem covers_scale_iff {factor : Nat} (positive : 0 < factor) (q : ℚ) :
    (w.scale factor).Covers (q * factor) ↔ w.Covers q := by
  have positive : (0 : ℚ) < factor := by exact_mod_cast positive
  unfold Covers RoundingWindow.scale
  push_cast
  simp only [mul_le_mul_iff_left₀ positive, mul_lt_mul_iff_left₀ positive]

end RoundingWindow

def Decimal.value (d : Decimal) : ℚ :=
  d.digits * 10 ^ d.exponent

/-- A decimal is among some numbers, and none of them has fewer digits. -/
structure Decimal.IsShortest (d : Decimal) (among : ℚ → Prop) : Prop where
  among_value : among d.value
  digits_mod_ten : d.digits % 10 ≠ 0
  fewest : ∀ (n m : Nat) (j : ℤ), among (n * 10 ^ j) → n < 10 ^ m → d.digits < 10 ^ m

theorem Decimal.IsShortest.congr {d : Decimal} {among others : ℚ → Prop}
    (isShortest : d.IsShortest among) (same : ∀ q, among q ↔ others q) : d.IsShortest others := by
  rwa [← funext fun q => propext (same q)]

namespace RoundingWindow

variable {w : RoundingWindow}

theorem Proper.isShortest_inUnit (proper : w.Proper) (unit : ℤ) :
    (w.shortestInUnit unit).IsShortest fun q => w.Covers (q / 10 ^ unit) := by
  obtain ⟨power, exponent, coarsest⟩ :=
    proper.coarsest_shortest (w.mid.log2 / 3 + 1) proper.not_contains_beyond
  have shift (n : Nat) (j : ℤ) : (n : ℚ) * 10 ^ j / 10 ^ unit = n * 10 ^ (j - unit) := by
    rw [zpow_sub₀ (by norm_num), mul_div_assoc]
  refine ⟨?_, coarsest.digits_mod_ten, ?_⟩
  · have inside := (covers_natCast_iff _).mpr coarsest.contains
    have value : (w.shortestInUnit unit).value / 10 ^ unit =
        ((w.shortest (w.mid.log2 / 3 + 1)).digits * 10 ^ power : Nat) := by
      rw [Decimal.value, shift, shortestInUnit, exponent, add_sub_cancel_right, zpow_natCast]
      push_cast
      rfl
    rwa [value]
  · intro n m j covers bound
    rw [shift] at covers
    exact coarsest.digits_lt proper covers bound

theorem Proper.isShortest_binary (proper : w.Proper) (exponent : ℤ) :
    (w.shortestBinary exponent).IsShortest fun q => w.Covers (q / 2 ^ exponent) := by
  cases exponent with
  | ofNat n =>
    have positive : 0 < 2 ^ n := Nat.two_pow_pos n
    refine ((proper.scale positive).isShortest_inUnit 0).congr fun q => ?_
    have split : q / 10 ^ (0 : ℤ) = q / 2 ^ Int.ofNat n * (2 ^ n : Nat) := by
      simp
    rw [split, covers_scale_iff positive]
  | negSucc n =>
    have positive : 0 < 5 ^ (n + 1) := Nat.pow_pos (by decide)
    refine ((proper.scale positive).isShortest_inUnit (.negSucc n)).congr fun q => ?_
    have split : q / 10 ^ Int.negSucc n = q / 2 ^ Int.negSucc n * (5 ^ (n + 1) : Nat) := by
      rw [zpow_negSucc, zpow_negSucc, div_inv_eq_mul, div_inv_eq_mul, mul_assoc, Nat.cast_pow,
        Nat.cast_ofNat, ← mul_pow]
      norm_num
    rw [split, covers_scale_iff positive]

end RoundingWindow

namespace Binary

variable {format : BinaryFormat}

theorem proper_quarterWindow {x : Binary format} (nonzero : x.significand ≠ 0) :
    x.quarterWindow.Proper := by
  cases isStart : x.isBinadeStart <;> constructor <;> simp only [quarterWindow, isStart] <;> grind

/-- The ends of the window are the midpoints to the two neighbours. -/
theorem ends_quarterWindow {x : Binary format} (nonzero : x.significand ≠ 0) {before : Nat}
    (isNext : x.code = before + 1) :
    2 * (x.quarterWindow.low * 2 ^ (x.exponent - 2)) =
        format.point before + format.point (before + 1) ∧
      2 * (x.quarterWindow.high * 2 ^ (x.exponent - 2)) =
        format.point (before + 1) + format.point (before + 2) := by
  have step (code : Nat) : format.point (code + 1) =
      format.point code + format.gap code * format.quantum := by
    rw [BinaryFormat.point, format.magnitude_succ, Nat.cast_add, add_mul]
    rfl
  have own : format.point (before + 1) = x.significand * 2 ^ x.exponent := by
    rw [← isNext, point_code]
  have unit : format.gap (before + 1) * format.quantum = (2 : ℚ) ^ x.exponent := by
    rw [← isNext, two_zpow_exponent]
  have quarter : (2 : ℚ) ^ (x.exponent - 2) = 2 ^ x.exponent / 4 := by
    rw [zpow_sub₀ two_ne_zero]
    norm_num
  have below : (2 : ℚ) ^ x.exponent =
      (if x.isBinadeStart then 2 else 1) * (format.gap before * format.quantum) := by
    rw [← unit, format.gap_succ, isBinadeStart, exponentField_eq, fractionField_eq, isNext]
    simp [mul_assoc]
  have low : (x.quarterWindow.low : ℚ) + (if x.isBinadeStart then 1 else 2) =
      4 * x.significand := by
    have whole : x.quarterWindow.low + (if x.isBinadeStart then 1 else 2) = 4 * x.significand :=
      Nat.sub_add_cancel (by split <;> omega)
    exact_mod_cast whole
  have high : (x.quarterWindow.high : ℚ) = 4 * x.significand + 2 := by
    rw [quarterWindow]
    push_cast
    rfl
  have first := step before
  have second := step (before + 1)
  rw [own] at first
  rw [own, unit] at second
  rw [own, quarter]
  constructor
  · have isLow : (x.quarterWindow.low : ℚ) =
        4 * x.significand - (if x.isBinadeStart then 1 else 2) := by
      linarith
    rw [isLow]
    by_cases isStart : x.isBinadeStart
    · rw [if_pos isStart] at below ⊢
      linarith
    · rw [if_neg isStart] at below ⊢
      linarith
  · rw [high, second]
    ring

theorem nearestCode_iff_covers (fraction : 0 < format.fractionBits) {x : Binary format}
    (isFinite : x.code < format.infinityCode) (nonzero : x.significand ≠ 0) (q : ℚ) :
    format.NearestCode x.code q ↔ x.quarterWindow.Covers (q / 2 ^ (x.exponent - 2)) := by
  obtain ⟨before, isNext⟩ : ∃ before, x.code = before + 1 := by
    refine Nat.exists_eq_succ_of_ne_zero fun isZero => nonzero ?_
    simp [significand, exponentField_eq, fractionField_eq, isZero]
  obtain ⟨low, high⟩ := ends_quarterWindow nonzero isNext
  have positive : (0 : ℚ) < 2 ^ (x.exponent - 2) := zpow_pos two_pos _
  have parity : x.quarterWindow.closed = decide ((before + 1) % 2 = 0) := by
    rw [← isNext, ← significand_mod_two fraction]
    rfl
  rw [isNext, BinaryFormat.nearestCode_succ_iff (isNext ▸ isFinite), RoundingWindow.Covers, parity,
    ← low, ← high]
  simp only [le_div_iff₀ positive, div_le_iff₀ positive, lt_div_iff₀ positive, div_lt_iff₀ positive,
    mul_le_mul_iff_right₀ two_pos, mul_lt_mul_iff_right₀ two_pos, decide_eq_true_eq]

theorem isShortest_shortest (fraction : 0 < format.fractionBits) {x : Binary format}
    (isFinite : x.code < format.infinityCode) (nonzero : x.significand ≠ 0) :
    x.shortest.IsShortest (format.NearestCode x.code) := by
  rw [shortest, if_neg nonzero]
  refine ((proper_quarterWindow nonzero).isShortest_binary _).congr fun q => ?_
  rw [nearestCode_iff_covers fraction isFinite nonzero]

end Binary

end CilSketch
