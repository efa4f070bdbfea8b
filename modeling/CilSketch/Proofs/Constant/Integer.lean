import CilSketch.Projection.Literal
import CilSketch.Proofs.Constant.Outcome
import CilSketch.Proofs.Text.Numeral
import Mathlib.Algebra.Ring.Int.Defs
import Mathlib.Algebra.Ring.Nat

/-!
Integer constants from blob to source. A blob of an integer type is a number in two's complement or
without a sign; the constant keeps this number whatever the width, and its literal is the numeral.
-/

set_option autoImplicit false

namespace CilSketch

/-- The number of bytes of an integer. -/
inductive IntegerWidth where
  | one | two | four | eight
  deriving DecidableEq, Repr

def IntegerWidth.bytes : IntegerWidth → Nat
  | .one => 1
  | .two => 2
  | .four => 4
  | .eight => 8

structure IntegerType where
  width : IntegerWidth
  signed : Bool
  deriving DecidableEq, Repr

namespace IntegerType

def element : IntegerType → ElementType
  | ⟨.one, true⟩ => .int8
  | ⟨.one, false⟩ => .uint8
  | ⟨.two, true⟩ => .int16
  | ⟨.two, false⟩ => .uint16
  | ⟨.four, true⟩ => .int32
  | ⟨.four, false⟩ => .uint32
  | ⟨.eight, true⟩ => .int64
  | ⟨.eight, false⟩ => .uint64

/-- How many numbers the type has. -/
def modulus (type : IntegerType) : Nat :=
  2 ^ (8 * type.width.bytes)

def InRange (type : IntegerType) (x : Int) : Prop :=
  if type.signed then -2 ^ (8 * type.width.bytes - 1) ≤ x ∧ x < 2 ^ (8 * type.width.bytes - 1)
  else 0 ≤ x ∧ x < 2 ^ (8 * type.width.bytes)

/-- The bytes of a number, a negative one in two's complement. -/
def bytes (type : IntegerType) (x : Int) : Bytes :=
  LittleEndian.encode type.width.bytes (x % type.modulus).toNat

/-- The number of the type that a number without a sign stands for. -/
def ofPattern (type : IntegerType) (n : Nat) : Int :=
  if type.signed then Int.bmod n type.modulus else n

end IntegerType

/-- The constant is a number of the signed or the unsigned kind. -/
def Constant.Stores (signed : Bool) (x : Int) : Constant → Prop
  | .integer number => signed = true ∧ number.toInt = x
  | .unsigned number => signed = false ∧ number.toNat = x
  | _ => False

namespace IntegerType

variable {type : IntegerType} {x : Int} {n : Nat} {data : Bytes} {constant : Constant}

theorem modulus_pos (type : IntegerType) : 0 < type.modulus :=
  Nat.pow_pos (by decide)

theorem modulus_eq (type : IntegerType) : type.modulus = 256 ^ type.width.bytes :=
  Nat.pow_mul 2 8 type.width.bytes

theorem inRange_iff :
    type.InRange x ↔
      if type.signed then -((type.modulus : Int) / 2) ≤ x ∧ x < ((type.modulus : Int) + 1) / 2
      else 0 ≤ x ∧ x < type.modulus := by
  obtain ⟨width, signed⟩ := type
  cases width <;> cases signed <;> simp [InRange, modulus, IntegerWidth.bytes]

theorem inRange_ofPattern (small : n < type.modulus) : type.InRange (type.ofPattern n) := by
  rw [inRange_iff]
  unfold ofPattern
  split
  · exact ⟨Int.le_bmod type.modulus_pos, Int.bmod_lt type.modulus_pos⟩
  · omega

theorem ofPattern_emod (small : n < type.modulus) :
    (type.ofPattern n % type.modulus).toNat = n := by
  have kept : ((n : Int) % type.modulus).toNat = n := by
    rw [← Int.natCast_emod, Int.toNat_natCast, Nat.mod_eq_of_lt small]
  unfold ofPattern
  split
  · rw [Int.bmod_emod, kept]
  · exact kept

theorem ofPattern_of_inRange (inRange : type.InRange x) :
    type.ofPattern (x % type.modulus).toNat = x := by
  have positive : (0 : Int) < type.modulus := Int.natCast_pos.mpr type.modulus_pos
  have pattern : ((x % type.modulus).toNat : Int) = x % type.modulus :=
    Int.toNat_of_nonneg (Int.emod_nonneg x (Int.ne_of_gt positive))
  rw [inRange_iff] at inRange
  unfold ofPattern
  split at inRange
  · rw [if_pos ‹_›, pattern, Int.emod_bmod]
    exact Int.bmod_eq_of_le inRange.1 inRange.2
  · rw [if_neg ‹_›, pattern]
    exact Int.emod_eq_of_lt inRange.1 inRange.2

theorem ofPattern_toNat {bits : Nat} {width : IntegerWidth} (pattern : BitVec bits)
    (wide : bits = 8 * width.bytes) : ofPattern ⟨width, true⟩ pattern.toNat = pattern.toInt := by
  subst wide
  rw [BitVec.toInt_eq_toNat_bmod]
  rfl

theorem width?_element (type : IntegerType) : type.element.width? = some type.width.bytes := by
  obtain ⟨width, signed⟩ := type
  cases width <;> cases signed <;> rfl

theorem length_bytes (type : IntegerType) (x : Int) :
    (type.bytes x).length = type.width.bytes :=
  LittleEndian.length_encode _ _

theorem decode_bytes (type : IntegerType) (x : Int) :
    LittleEndian.decode (type.bytes x) = (x % type.modulus).toNat := by
  have positive : (0 : Int) < type.modulus := Int.natCast_pos.mpr type.modulus_pos
  have below := Int.emod_lt_of_pos x positive
  rw [bytes, LittleEndian.decode_encode]
  apply Nat.mod_eq_of_lt
  rw [← modulus_eq]
  omega

theorem exists_stores_of_reads {kind : Scalar} {wrap : kind.Value → Constant}
    (reads : Constant.read type.element = Reader.scalar kind >>= fun value => pure (wrap value))
    (width : kind.width = type.width.bytes)
    (stores : ∀ value, (wrap value).Stores type.signed (type.ofPattern (kind.pattern value)))
    (enough : type.width.bytes ≤ data.length) :
    ∃ constant, Constant.ofBlob type.element.tag data = .ok constant ∧
      constant.Stores type.signed
        (type.ofPattern (LittleEndian.decode (data.take type.width.bytes))) := by
  rw [← width] at enough ⊢
  refine ⟨_, Constant.ofBlob_value kind wrap reads enough, ?_⟩
  rw [← kind.pattern_decode (List.length_take_of_le enough)]
  exact stores _

/-- Each type is read as a scalar of its own; whichever it is, the constant is the number that the
bytes stand for. -/
theorem exists_stores (enough : type.width.bytes ≤ data.length) :
    ∃ constant, Constant.ofBlob type.element.tag data = .ok constant ∧
      constant.Stores type.signed
        (type.ofPattern (LittleEndian.decode (data.take type.width.bytes))) := by
  obtain ⟨width, signed⟩ := type
  cases width <;> cases signed <;> refine exists_stores_of_reads rfl rfl ?_ enough <;> intro number
  case one.true =>
    exact ⟨rfl, (Int8.toInt_toInt64 number).trans (ofPattern_toNat number.toBitVec rfl).symm⟩
  case one.false => exact ⟨rfl, congrArg Nat.cast (UInt8.toNat_toUInt64 number)⟩
  case two.true =>
    exact ⟨rfl, (Int16.toInt_toInt64 number).trans (ofPattern_toNat number.toBitVec rfl).symm⟩
  case two.false => exact ⟨rfl, congrArg Nat.cast (UInt16.toNat_toUInt64 number)⟩
  case four.true =>
    exact ⟨rfl, (Int32.toInt_toInt64 number).trans (ofPattern_toNat number.toBitVec rfl).symm⟩
  case four.false => exact ⟨rfl, congrArg Nat.cast (UInt32.toNat_toUInt64 number)⟩
  case eight.true => exact ⟨rfl, (ofPattern_toNat number.toBitVec rfl).symm⟩
  case eight.false => exact ⟨rfl, rfl⟩

theorem ofBlob_bytes_append (inRange : type.InRange x) (rest : Bytes) :
    ∃ constant, Constant.ofBlob type.element.tag (type.bytes x ++ rest) = .ok constant ∧
      constant.Stores type.signed x := by
  have front : (type.bytes x ++ rest).take type.width.bytes = type.bytes x := by
    rw [← type.length_bytes x, List.take_left]
  have enough : type.width.bytes ≤ (type.bytes x ++ rest).length := by
    rw [List.length_append, type.length_bytes x]
    exact Nat.le_add_right _ _
  have read := exists_stores enough
  rwa [front, type.decode_bytes, ofPattern_of_inRange inRange] at read

theorem exists_bytes_of_ofBlob
    (accepted : Constant.ofBlob type.element.tag data = .ok constant) :
    ∃ x rest, type.InRange x ∧ data = type.bytes x ++ rest ∧ constant.Stores type.signed x := by
  have enough : type.width.bytes ≤ data.length := by
    by_contra short
    have decided := Constant.decidedBy_read type.width?_element
    have lacking := (decided.outOfBounds_iff data).mpr (Nat.lt_of_not_le short)
    rw [← Constant.ofBlob_tag, accepted] at lacking
    cases lacking
  obtain ⟨found, read, stores⟩ := exists_stores enough
  rw [accepted] at read
  obtain rfl := Except.ok.inj read
  have sized : (data.take type.width.bytes).length = type.width.bytes :=
    List.length_take_of_le enough
  have small : LittleEndian.decode (data.take type.width.bytes) < type.modulus := by
    have below := LittleEndian.decode_lt (data.take type.width.bytes)
    rwa [sized, ← modulus_eq] at below
  have front : type.bytes (type.ofPattern (LittleEndian.decode (data.take type.width.bytes))) =
      data.take type.width.bytes := by
    have whole := LittleEndian.encode_decode (data.take type.width.bytes)
    rwa [sized, ← ofPattern_emod small] at whole
  refine ⟨_, data.drop type.width.bytes, inRange_ofPattern small, ?_, stores⟩
  rw [front, List.take_append_drop]

end IntegerType

namespace Constant

variable {constant other : Constant} {signed : Bool} {x : Int}

theorem Stores.unique (stores : constant.Stores signed x) (same : other.Stores signed x) :
    constant = other := by
  cases constant with
  | integer number =>
    obtain ⟨rfl, rfl⟩ := stores
    cases other with
    | integer found => exact congrArg _ (Int64.toInt_inj.mp same.2.symm)
    | unsigned found => cases same.1
    | _ => exact False.elim same
  | unsigned number =>
    obtain ⟨rfl, rfl⟩ := stores
    cases other with
    | integer found => cases same.1
    | unsigned found => exact congrArg _ (UInt64.toNat_inj.mp (Int.ofNat.inj same.2.symm))
    | _ => exact False.elim same
  | _ => exact False.elim stores

theorem Stores.isNumeral (stores : constant.Stores signed x) (options : Options) :
    IsNumeral (Literal.ofConstant options constant).text x := by
  cases constant with
  | integer number =>
    obtain ⟨-, rfl⟩ := stores
    exact isNumeral_int_repr number.toInt
  | unsigned number =>
    obtain ⟨-, rfl⟩ := stores
    exact isNumeral_repr number.toNat
  | _ => exact False.elim stores

end Constant

namespace IntegerType

/-- A number of the right kind is what its bytes are read as. -/
theorem ofBlob_eq_ok_of_stores (type : IntegerType) {x : Int} {constant : Constant}
    (inRange : type.InRange x) (stores : constant.Stores type.signed x) (rest : Bytes) :
    Constant.ofBlob type.element.tag (type.bytes x ++ rest) = .ok constant := by
  obtain ⟨found, read, same⟩ := ofBlob_bytes_append inRange rest
  rw [read, same.unique stores]

end IntegerType

/-- An integer of any width and kind comes out of its bytes as itself, whatever follows them, and is
shown as its numeral; nothing else comes out of a blob of its type. At 32 and 64 bits the same
constant is made of the number directly. -/
theorem integer_constants_survive (type : IntegerType) (options : Options) :
    (∀ (x : Int) (rest : Bytes), type.InRange x →
        ∃ constant, Constant.ofBlob type.element.tag (type.bytes x ++ rest) = .ok constant ∧
          constant.Stores type.signed x ∧
          IsNumeral (Literal.ofConstant options constant).text x) ∧
      (∀ (data : Bytes) (constant : Constant),
        Constant.ofBlob type.element.tag data = .ok constant →
          ∃ x rest, type.InRange x ∧ data = type.bytes x ++ rest ∧
            constant.Stores type.signed x) ∧
      ∀ rest : Bytes,
        (∀ x : Int32, Constant.ofBlob ElementType.int32.tag
          (IntegerType.bytes ⟨.four, true⟩ x.toInt ++ rest) = .ok (.ofInt32 x)) ∧
        (∀ x : Int64, Constant.ofBlob ElementType.int64.tag
          (IntegerType.bytes ⟨.eight, true⟩ x.toInt ++ rest) = .ok (.integer x)) ∧
        (∀ x : UInt32, Constant.ofBlob ElementType.uint32.tag
          (IntegerType.bytes ⟨.four, false⟩ x.toNat ++ rest) = .ok (.ofUInt32 x)) ∧
        ∀ x : UInt64, Constant.ofBlob ElementType.uint64.tag
          (IntegerType.bytes ⟨.eight, false⟩ x.toNat ++ rest) = .ok (.unsigned x) := by
  refine ⟨?_, fun data constant => IntegerType.exists_bytes_of_ofBlob, ?_⟩
  · intro x rest inRange
    obtain ⟨constant, read, stores⟩ := IntegerType.ofBlob_bytes_append inRange rest
    exact ⟨constant, read, stores, stores.isNumeral options⟩
  · intro rest
    refine ⟨?_, ?_, ?_, ?_⟩
    · intro x
      apply IntegerType.ofBlob_eq_ok_of_stores ⟨.four, true⟩
      · exact ⟨x.le_toInt, x.toInt_lt⟩
      · exact ⟨rfl, x.toInt_toInt64⟩
    · intro x
      apply IntegerType.ofBlob_eq_ok_of_stores ⟨.eight, true⟩
      · exact ⟨x.le_toInt, x.toInt_lt⟩
      · exact ⟨rfl, rfl⟩
    · intro x
      apply IntegerType.ofBlob_eq_ok_of_stores ⟨.four, false⟩
      · exact ⟨Int.natCast_nonneg _, Int.ofNat_lt.mpr x.toNat_lt⟩
      · exact ⟨rfl, congrArg Nat.cast x.toNat_toUInt64⟩
    · intro x
      apply IntegerType.ofBlob_eq_ok_of_stores ⟨.eight, false⟩
      · exact ⟨Int.natCast_nonneg _, Int.ofNat_lt.mpr x.toNat_lt⟩
      · exact ⟨rfl, rfl⟩

/-- The sign of a byte is kept in the wider number. -/
example : Constant.ofBlob ElementType.int8.tag [0x80, 0x2A] = .ok (.integer (-128)) := by
  rfl

end CilSketch
