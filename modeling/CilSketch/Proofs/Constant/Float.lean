import CilSketch.Projection.Literal
import CilSketch.Proofs.Constant.Outcome
import CilSketch.Proofs.Number.Numeral

/-!
Floating-point constants from blob to source. The constant has the bits of the blob, at its own
width. Its literal is a numeral that rounds to these bits and to no others, and no numeral that does
so has fewer significant digits. Except for NaNs, different bits have different literals.
-/

set_option autoImplicit false

namespace CilSketch

/-- The pattern that a numeral is read as: the nearest value that has its sign. -/
structure Numeral.RoundsTo {format : BinaryFormat} (numeral : Numeral) (x : Binary format) :
    Prop where
  isNumber : x.isNaN = false
  sign : x.isNegative = numeral.negative
  nearest : x.Nearest numeral.value

namespace Binary

variable {format : BinaryFormat}

/-- The text of a pattern, which is no NaN, from which the pattern can be read back. -/
structure ReadsBackFrom (x : Binary format) (text : String) : Prop where
  infinite : x.isInfinite = true → text = if x.isNegative then "-inf" else "inf"
  finite : x.isInfinite = false → ∃ numeral : Numeral, text = numeral.text ∧ numeral.IsPlain ∧
    (∀ y : Binary format, numeral.RoundsTo y ↔ y = x) ∧
    ∀ other : Numeral, other.RoundsTo x → numeral.significantDigits ≤ other.significantDigits

section Rounding

variable (fraction : 0 < format.fractionBits)

include fraction

theorem roundsTo_iff {numeral : Numeral} {x : Binary format} :
    numeral.RoundsTo x ↔
      x.isNaN = false ∧ x.isNegative = numeral.negative ∧
        format.NearestCode x.code numeral.magnitude := by
  constructor
  · rintro ⟨isNumber, sign, nearest⟩
    rw [Numeral.value, ← sign, nearest_withSign_iff fraction x numeral.magnitude_nonneg] at nearest
    exact ⟨isNumber, sign, nearest⟩
  · rintro ⟨isNumber, sign, nearest⟩
    refine ⟨isNumber, sign, ?_⟩
    rwa [Numeral.value, ← sign, nearest_withSign_iff fraction x numeral.magnitude_nonneg]

theorem eq_of_roundsTo {numeral : Numeral} {x y : Binary format} (first : numeral.RoundsTo x)
    (second : numeral.RoundsTo y) : x = y :=
  first.nearest.unique fraction numeral.magnitude_nonneg second.nearest first.isNumber
    second.isNumber first.sign second.sign

theorem significantDigits_le_of_roundsTo {x : Binary format} {other : Numeral}
    (isShortest : x.shortest.IsShortest (format.NearestCode x.code)) (rounds : other.RoundsTo x) :
    (x.shortest.numeral x.isNegative).significantDigits ≤ other.significantDigits := by
  obtain ⟨core, back, hasCore, length⟩ := other.exists_hasCore
  have near := ((roundsTo_iff fraction).mp rounds).2.2
  rw [Numeral.magnitude_eq hasCore] at near
  have bound : x.shortest.digits < 10 ^ core.length :=
    isShortest.fewest _ _ _ near (ofDigitChars_lt hasCore.isDigit)
  have nonempty : 0 < core.length := by
    refine Nat.pos_of_ne_zero fun isEmpty => isShortest.digits_mod_ten ?_
    rw [isEmpty, pow_zero] at bound
    rw [Nat.lt_one_iff.mp bound]
  rw [← length]
  exact (Decimal.significantDigits_numeral_le _ _).trans
    ((Nat.length_toDigits_le_iff (by decide) nonempty).mpr bound)

/-- Zero has no significant digits, and any other value is printed with the fewest. -/
theorem exists_shortest_numeral {x : Binary format} (isFinite : x.code < format.infinityCode) :
    ∃ numeral : Numeral,
      (if x.isNegative then "-" else "") ++ x.shortest.positional = numeral.text ∧
        numeral.IsPlain ∧ numeral.RoundsTo x ∧
        ∀ other : Numeral, other.RoundsTo x →
          numeral.significantDigits ≤ other.significantDigits := by
  have isNumber : x.isNaN = false := x.code_le_infinityCode_iff.mp isFinite.le
  refine ⟨x.shortest.numeral x.isNegative, (Decimal.text_numeral _ _).symm, ?_⟩
  by_cases zero : x.significand = 0
  · rw [shortest, if_pos zero]
    refine ⟨Decimal.isPlain_zero _, ?_, ?_⟩
    · rw [roundsTo_iff fraction, Decimal.magnitude_numeral, Decimal.negative_numeral,
        code_eq_zero zero]
      exact ⟨isNumber, rfl, by simpa [Decimal.value] using format.nearestCode_zero⟩
    · intro other _
      rw [Decimal.significantDigits_zero]
      exact Nat.zero_le _
  · have isShortest := isShortest_shortest fraction isFinite zero
    refine ⟨Decimal.isPlain_numeral isShortest.digits_mod_ten _, ?_, ?_⟩
    · rw [roundsTo_iff fraction, Decimal.magnitude_numeral, Decimal.negative_numeral]
      exact ⟨isNumber, rfl, isShortest.among_value⟩
    · exact fun other rounds => significantDigits_le_of_roundsTo fraction isShortest rounds

theorem readsBackFrom_toText {x : Binary format} (isNumber : x.isNaN = false) :
    x.ReadsBackFrom x.toText := by
  refine ⟨?_, ?_⟩
  · intro isInfinite
    cases sign : x.isNegative <;> simp [toText, isNumber, isInfinite, sign]
  · intro isFinite
    have below := x.code_lt_infinityCode_iff.mpr ⟨isNumber, isFinite⟩
    obtain ⟨numeral, text, isPlain, rounds, fewest⟩ := exists_shortest_numeral fraction below
    refine ⟨numeral, ?_, isPlain, fun y => ⟨?_, ?_⟩, fewest⟩
    · simp [toText, isNumber, isFinite, text]
    · exact fun other => eq_of_roundsTo fraction other rounds
    · rintro rfl
      exact rounds

end Rounding

example : (⟨0x3DCCCCCD#32⟩ : Binary .single).toText = "0.1" := by decide +kernel

namespace ReadsBackFrom

variable {x y : Binary format} {text : String}

/-- An infinity is told from a numeral by its letters. -/
theorem mem_text_iff (reads : x.ReadsBackFrom text) :
    'f' ∈ text.toList ↔ x.isInfinite = true := by
  constructor
  · intro letter
    by_contra isFinite
    obtain ⟨numeral, rfl, -⟩ := reads.finite (by simpa using isFinite)
    exact numeral.not_mem_text (by decide) (by decide) (by decide) letter
  · intro isInfinite
    rw [reads.infinite isInfinite]
    split <;> decide

theorem unique (first : x.ReadsBackFrom text) (second : y.ReadsBackFrom text)
    (isFirst : x.isNaN = false) (isSecond : y.isNaN = false) : x = y := by
  have alike : x.isInfinite = y.isInfinite := by
    rw [Bool.eq_iff_iff, ← first.mem_text_iff, ← second.mem_text_iff]
  cases isInfinite : x.isInfinite with
  | true =>
    have again : y.isInfinite = true := alike.symm.trans isInfinite
    have texts := (first.infinite isInfinite).symm.trans (second.infinite again)
    refine ext_of_code ?_ ?_
    · rw [code_of_isInfinite isFirst isInfinite, code_of_isInfinite isSecond again]
    · revert texts
      cases x.isNegative <;> cases y.isNegative <;> decide
  | false =>
    obtain ⟨numeral, written, -, rounds, -⟩ := first.finite isInfinite
    obtain ⟨other, again, -, roundsToo, -⟩ := second.finite (alike.symm.trans isInfinite)
    obtain rfl := Numeral.text_injective (written.symm.trans again)
    exact (roundsToo x).mp ((rounds x).mpr rfl)

end ReadsBackFrom

end Binary

theorem Constant.ofBlob_sized {element : ElementType} {data : Bytes} (kind : Scalar)
    (wrap : kind.Value → Constant)
    (reads : read element = Reader.scalar kind >>= fun value => pure (wrap value))
    (sized : data.length = kind.width) :
    ofBlob element.tag data = .ok (wrap (kind.decode data)) := by
  rw [ofBlob_value kind wrap reads sized.ge, List.take_of_length_le sized.le]

/-- The two widths of floating-point constants. -/
inductive FloatType where
  | single | double
  deriving DecidableEq, Repr

namespace FloatType

def format : FloatType → BinaryFormat
  | .single => .single
  | .double => .double

def element : FloatType → ElementType
  | .single => .single
  | .double => .double

def bytes : FloatType → Nat
  | .single => 4
  | .double => 8

def constant : (type : FloatType) → Binary type.format → Constant
  | .single, x => .single x
  | .double, x => .double x

theorem fractionBits_pos (type : FloatType) : 0 < type.format.fractionBits := by
  cases type <;> decide

theorem text_constant (type : FloatType) (options : Options) (x : Binary type.format) :
    (Literal.ofConstant options (type.constant x)).text = x.toText := by
  cases type <;> rfl

theorem exists_ofBlob (type : FloatType) {data : Bytes} (sized : data.length = type.bytes) :
    ∃ x : Binary type.format, Constant.ofBlob type.element.tag data = .ok (type.constant x) ∧
      x.bits.toNat = LittleEndian.decode data := by
  cases type with
  | single =>
    exact ⟨_, Constant.ofBlob_sized .single .single rfl sized, Scalar.single.pattern_decode sized⟩
  | double =>
    exact ⟨_, Constant.ofBlob_sized .double .double rfl sized, Scalar.double.pattern_decode sized⟩

end FloatType

/-- Floating-point constants are printed so that they read back at their own width, with as few
digits as that takes; hence no two of them are printed alike. -/
theorem float_literals_read_back (type : FloatType) (options : Options) :
    (∀ data : Bytes, data.length = type.bytes → ∃ x : Binary type.format,
      Constant.ofBlob type.element.tag data = .ok (type.constant x) ∧
        x.bits.toNat = LittleEndian.decode data ∧
        (x.isNaN = false →
          x.ReadsBackFrom (Literal.ofConstant options (type.constant x)).text)) ∧
      ∀ x y : Binary type.format, x.isNaN = false → y.isNaN = false → x ≠ y →
        (Literal.ofConstant options (type.constant x)).text ≠
          (Literal.ofConstant options (type.constant y)).text := by
  have reads {x : Binary type.format} (isNumber : x.isNaN = false) :
      x.ReadsBackFrom (Literal.ofConstant options (type.constant x)).text := by
    rw [type.text_constant]
    exact Binary.readsBackFrom_toText type.fractionBits_pos isNumber
  constructor
  · intro data sized
    obtain ⟨x, read, bits⟩ := type.exists_ofBlob sized
    exact ⟨x, read, bits, reads⟩
  · intro x y isFirst isSecond different same
    have first := reads isFirst
    rw [same] at first
    exact different (first.unique (reads isSecond) isFirst isSecond)

/-- The single-precision number that is nearest to a tenth, and the two zeros. -/
theorem tenth_and_zeros_read_back :
    (∃ x : Binary .single, Constant.ofBlob 0x0C [0xCD, 0xCC, 0xCC, 0x3D] = .ok (.single x) ∧
      x.isNaN = false ∧ x.ReadsBackFrom (Literal.ofConstant {} (.single x)).text) ∧
      (Literal.ofConstant {} (.double ⟨0x0000000000000000#64⟩)).text ≠
        (Literal.ofConstant {} (.double ⟨0x8000000000000000#64⟩)).text := by
  constructor
  · obtain ⟨x, read, bits, reads⟩ :=
      (float_literals_read_back .single {}).1 [0xCD, 0xCC, 0xCC, 0x3D] rfl
    have isNumber : x.isNaN = false := by
      rw [Binary.isNaN, Binary.exponentField, Binary.fractionField, bits]
      decide
    exact ⟨x, read, isNumber, reads isNumber⟩
  · exact (float_literals_read_back .double {}).2 ⟨0x0000000000000000#64⟩ ⟨0x8000000000000000#64⟩
      (by decide) (by decide) (by decide)

end CilSketch
