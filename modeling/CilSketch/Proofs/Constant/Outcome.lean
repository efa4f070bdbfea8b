import CilSketch.Proofs.Bytes.FixedSize
import CilSketch.Proofs.Constant.Text

/-!
What becomes of a blob, element type by element type. A type of fixed width decides on its first
bytes alone and fails for lack of bytes exactly if there are fewer; text takes whatever there is,
and the null reference needs nothing.
-/

set_option autoImplicit false

namespace CilSketch

namespace ElementType

/-- The number that stands for an element type in metadata. -/
def tag : ElementType → UInt8
  | .boolean => 0x02
  | .char => 0x03
  | .int8 => 0x04
  | .uint8 => 0x05
  | .int16 => 0x06
  | .uint16 => 0x07
  | .int32 => 0x08
  | .uint32 => 0x09
  | .int64 => 0x0A
  | .uint64 => 0x0B
  | .single => 0x0C
  | .double => 0x0D
  | .string => 0x0E
  | .nullReference => 0x12

theorem ofTag?_tag (element : ElementType) : ofTag? element.tag = some element := by
  cases element <;> rfl

theorem eq_tag_of_ofTag? {number : UInt8} {element : ElementType}
    (found : ofTag? number = some element) : number = element.tag := by
  apply UInt8.toNat_inj.mp
  unfold ofTag? at found
  split at found <;> cases found <;> assumption

/-- The number of bytes of a constant, for the types that fix it. -/
def width? : ElementType → Option Nat
  | .boolean | .int8 | .uint8 => some 1
  | .char | .int16 | .uint16 => some 2
  | .int32 | .uint32 | .single => some 4
  | .int64 | .uint64 | .double => some 8
  | .string | .nullReference => none

end ElementType

namespace Constant

theorem ofBlob_tag (element : ElementType) (data : Bytes) :
    ofBlob element.tag data = (read element).readFrom data := by
  rw [ofBlob, element.ofTag?_tag]

theorem ofBlob_of_unknown {tag : UInt8} (unknown : ∀ element : ElementType, tag ≠ element.tag)
    (data : Bytes) : ofBlob tag data = .error (.malformed (.unsupportedElement tag)) := by
  cases found : ElementType.ofTag? tag with
  | some element => exact absurd (ElementType.eq_tag_of_ofTag? found) (unknown element)
  | none => rw [ofBlob, found]

/-- What a unit is as a character constant. -/
def judgeUnit (unit : UInt16) : Except ReadError Constant :=
  match Utf16.ofUnit? unit with
  | some character => .ok (.char character)
  | none => .error (.malformed (.surrogateChar unit))

theorem readChar_eq :
    readChar = Reader.scalar .uint16 >>= fun unit => ofExcept (judgeUnit unit) := by
  unfold readChar judgeUnit
  congr
  funext unit
  cases Utf16.ofUnit? unit <;> rfl

/-- The outcome of a read from the start hangs on the first `width` bytes, and lack of bytes is the
fault exactly if there are fewer. -/
structure DecidedBy (reader : Reader Constant) (width : Nat) : Prop where
  outOfBounds_iff : ∀ data, reader.readFrom data = .error .outOfBounds ↔ data.length < width
  same : ∀ {data other : Bytes}, width ≤ data.length → other.take width = data.take width →
    reader.readFrom other = reader.readFrom data

theorem length_le_of_take_eq {data other : Bytes} {width : Nat} (enough : width ≤ data.length)
    (same : other.take width = data.take width) : width ≤ other.length := by
  have lengths := congrArg List.length same
  rw [List.length_take, List.length_take] at lengths
  omega

theorem decidedBy_scalar {kind : Scalar} {judge : kind.Value → Except ReadError Constant}
    (never : ∀ value, judge value ≠ .error .outOfBounds) :
    DecidedBy (Reader.scalar kind >>= fun value => ofExcept (judge value)) kind.width where
  outOfBounds_iff data := by
    rw [Reader.readFrom_scalar_bind]
    split
    · next short => exact iff_of_true rfl short
    · next enough => exact iff_of_false (never _) enough
  same := by
    intro data other enough same
    have enoughToo := length_le_of_take_eq enough same
    rw [Reader.readFrom_scalar_bind, Reader.readFrom_scalar_bind,
      if_neg (Nat.not_lt_of_le enough), if_neg (Nat.not_lt_of_le enoughToo), same]

theorem decidedBy_value (kind : Scalar) (wrap : kind.Value → Constant) :
    DecidedBy (Reader.scalar kind >>= fun value => pure (wrap value)) kind.width := by
  have never : ∀ value, (.ok (wrap value) : Except ReadError Constant) ≠ .error .outOfBounds := by
    simp
  exact decidedBy_scalar never

theorem ofBlob_value {element : ElementType} {data : Bytes} (kind : Scalar)
    (wrap : kind.Value → Constant)
    (reads : read element = Reader.scalar kind >>= fun value => pure (wrap value))
    (enough : kind.width ≤ data.length) :
    ofBlob element.tag data = .ok (wrap (kind.decode (data.take kind.width))) := by
  have outcome := Reader.readFrom_scalar_bind kind (fun value => .ok (wrap value)) data
  rw [if_neg (Nat.not_lt_of_le enough)] at outcome
  rw [ofBlob_tag, reads]
  exact outcome

theorem decidedBy_readChar : DecidedBy readChar 2 := by
  have never : ∀ unit, judgeUnit unit ≠ .error .outOfBounds := by
    intro unit
    unfold judgeUnit
    split <;> simp
  rw [readChar_eq]
  exact decidedBy_scalar never

theorem decidedBy_read {element : ElementType} {width : Nat} (fixed : element.width? = some width) :
    DecidedBy (read element) width := by
  cases element with
  | string | nullReference => cases fixed
  | char =>
    cases fixed
    exact decidedBy_readChar
  | boolean | int8 | uint8 | int16 | uint16 | int32 | uint32 | int64 | uint64 | single | double =>
    cases fixed
    exact decidedBy_value _ _

theorem judgeUnit_eq_ok_iff {unit : UInt16} {character : Char} :
    judgeUnit unit = .ok (.char character) ↔ character.toNat = unit.toNat := by
  rw [← Utf16.ofUnit?_eq_some_iff]
  unfold judgeUnit
  cases Utf16.ofUnit? unit <;> simp

theorem exists_malformed_judgeUnit_iff {unit : UInt16} :
    (∃ violation, judgeUnit unit = .error (.malformed violation)) ↔
      0xD800 ≤ unit.toNat ∧ unit.toNat ≤ 0xDFFF := by
  have surrogate : Utf16.ofUnit? unit = none ↔ 0xD800 ≤ unit.toNat ∧ unit.toNat ≤ 0xDFFF := by
    rw [Utf16.ofUnit?_eq_none_iff]
    unfold Utf16.IsHigh Utf16.IsLow
    omega
  rw [← surrogate]
  unfold judgeUnit
  cases Utf16.ofUnit? unit <;> simp

/-- Whatever is no surrogate is a character. -/
theorem exists_ok_judgeUnit {unit : UInt16} (plain : ¬(0xD800 ≤ unit.toNat ∧ unit.toNat ≤ 0xDFFF)) :
    ∃ character : Char, character.toNat = unit.toNat ∧ judgeUnit unit = .ok (.char character) := by
  cases found : Utf16.ofUnit? unit with
  | some character =>
    have same := Utf16.ofUnit?_eq_some_iff.mp found
    exact ⟨character, same, judgeUnit_eq_ok_iff.mpr same⟩
  | none =>
    have refused : judgeUnit unit = .error (.malformed (.surrogateChar unit)) := by
      rw [judgeUnit, found]
    exact absurd (exists_malformed_judgeUnit_iff.mp ⟨_, refused⟩) plain

theorem ofBlob_char {data : Bytes} (enough : 2 ≤ data.length) :
    ∃ unit : UInt16, unit.toNat = LittleEndian.decode (data.take 2) ∧
      ofBlob ElementType.char.tag data = judgeUnit unit := by
  have sized : (data.take 2).length = Scalar.uint16.width := List.length_take_of_le enough
  refine ⟨Scalar.uint16.decode (data.take 2), Scalar.uint16.pattern_decode sized, ?_⟩
  rw [ofBlob_tag, read, readChar_eq, Reader.readFrom_scalar_bind]
  exact if_neg (Nat.not_lt_of_le enough)

theorem ofBlob_char_encode {character : Char} (small : character.toNat ≤ 0xFFFF) :
    ofBlob ElementType.char.tag (LittleEndian.encode 2 character.toNat) =
      .ok (.char character) := by
  obtain ⟨unit, number, outcome⟩ :=
    ofBlob_char (Nat.le_of_eq (LittleEndian.length_encode 2 character.toNat).symm)
  have whole : LittleEndian.decode ((LittleEndian.encode 2 character.toNat).take 2) =
      character.toNat := by
    rw [List.take_of_length_le (Nat.le_of_eq (LittleEndian.length_encode 2 _)),
      LittleEndian.decode_encode]
    exact Nat.mod_eq_of_lt (Nat.lt_succ_of_le small)
  rw [outcome, judgeUnit_eq_ok_iff, number, whole]

theorem ofBlob_string_ne_outOfBounds (data : Bytes) :
    ofBlob ElementType.string.tag data ≠ .error .outOfBounds := by
  intro failed
  rw [ofBlob_tag, Reader.readFrom_eq_error_iff] at failed
  obtain ⟨after, failed⟩ := failed
  rcases Reader.bind_eq_error_iff.mp failed with failed | ⟨_, _, _, given⟩
  · rcases Reader.utf16ToEnd_eq_error_iff.mp failed with ⟨-, malformed, -⟩ | ⟨-, -, malformed, -⟩
    · cases malformed
    · cases malformed
  · cases given

end Constant

/-- Every element type and every blob have one outcome, and it is known beforehand. A type of fixed
width lacks bytes exactly if there are fewer than its width, and otherwise whatever follows these is
ignored; a unit is a character unless it is a surrogate; text never lacks bytes, the null reference
needs none, and any other tag is refused. -/
theorem constant_outcome_determined (element : ElementType) (tag : UInt8) (data : Bytes) :
    let unit := LittleEndian.decode (data.take 2)
    (∀ width, element.width? = some width →
        (Constant.ofBlob element.tag data = .error .outOfBounds ↔ data.length < width) ∧
        (width ≤ data.length → ∀ other : Bytes, other.take width = data.take width →
          Constant.ofBlob element.tag other = Constant.ofBlob element.tag data) ∧
        (width ≤ data.length → ∀ more : Bytes,
          Constant.ofBlob element.tag (data ++ more) = Constant.ofBlob element.tag data)) ∧
      (2 ≤ data.length →
        ((∃ violation, Constant.ofBlob ElementType.char.tag data = .error (.malformed violation)) ↔
            0xD800 ≤ unit ∧ unit ≤ 0xDFFF) ∧
          (¬(0xD800 ≤ unit ∧ unit ≤ 0xDFFF) → ∃ character : Char, character.toNat = unit ∧
            Constant.ofBlob ElementType.char.tag data = .ok (.char character))) ∧
      (∀ character : Char, character.toNat ≤ 0xFFFF →
        Constant.ofBlob ElementType.char.tag (LittleEndian.encode 2 character.toNat) =
          .ok (.char character)) ∧
      Constant.ofBlob ElementType.string.tag data ≠ .error .outOfBounds ∧
      Constant.ofBlob ElementType.nullReference.tag data = .ok (.other "null") ∧
      ((∀ known : ElementType, tag ≠ known.tag) →
        Constant.ofBlob tag data = .error (.malformed (.unsupportedElement tag))) := by
  intro unit
  refine ⟨?_, ?_, fun character => Constant.ofBlob_char_encode,
    Constant.ofBlob_string_ne_outOfBounds data, rfl,
    fun unknown => Constant.ofBlob_of_unknown unknown data⟩
  · intro width fixed
    have decided := Constant.decidedBy_read fixed
    simp only [Constant.ofBlob_tag]
    refine ⟨decided.outOfBounds_iff data, fun enough other same => decided.same enough same, ?_⟩
    intro enough more
    apply decided.same enough
    rw [List.take_append_of_le_length enough]
  · intro enough
    obtain ⟨read, number, outcome⟩ := Constant.ofBlob_char enough
    have same : read.toNat = unit := number
    rw [outcome, ← same]
    exact ⟨Constant.exists_malformed_judgeUnit_iff, Constant.exists_ok_judgeUnit⟩

end CilSketch
