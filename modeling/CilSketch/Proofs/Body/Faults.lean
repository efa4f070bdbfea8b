import CilSketch.Proofs.Body.Layout
import CilSketch.Proofs.Bytes.FixedSize

/-!
Why a stored body is refused. Several rules can be broken at once, so the answer depends on the
order in which they are checked: the format of the header, its fixed fields, the size it states, and
then what should follow it.
-/

set_option autoImplicit false

namespace CilSketch

open Reader (Takes takes_pure takes_advance takes_bytes takes_scalar)

/-- The number that `width` bytes of a blob are, from the given offset on. -/
def numberAt (data : Bytes) (offset width : Nat) : Nat :=
  LittleEndian.decode ((data.drop offset).take width)

namespace FatHeader

theorem takes_read : Takes read Body.fatHeaderSize :=
  (takes_scalar .uint16).bind fun _ => (takes_scalar .uint16).bind fun _ =>
    (takes_scalar .uint32).bind fun _ => (takes_scalar .uint32).bind fun _ => takes_pure _

theorem numberAt_word (header : FatHeader) (rest : Bytes) :
    numberAt (header.bytes ++ rest) 0 2 = header.word.toNat :=
  Scalar.littleEndian_encode .uint16 header.word

theorem numberAt_codeSize (header : FatHeader) (rest : Bytes) :
    numberAt (header.bytes ++ rest) 4 4 = header.codeSize.toNat :=
  Scalar.littleEndian_encode .uint32 header.codeSize

end FatHeader

namespace Body

/-- The rule that some data break first, if they break any. A size of code is in the first byte or
in the fifth to eighth, and a size of a header in the topmost four bits of the first two bytes. -/
def fault? : Bytes → Option ReadError
  | [] => some (.malformed .emptyBody)
  | data@(lead :: _) =>
      let format := lead.toNat % 4
      let units := numberAt data 0 2 / 4096
      if format = 2 then
        if data.length < 1 + lead.toNat / 4 then some .outOfBounds else none
      else if format = 3 then
        if data.length < 12 then some .outOfBounds
        else if units < 3 then some (.malformed (.shortFatHeader (4 * units)))
        else if data.length < 4 * units + numberAt data 4 4 then some .outOfBounds
        else none
      else
        some (.malformed (.unknownHeader lead))

theorem fault?_readTiny (lead : UInt8) (rest : Bytes) :
    readTiny.fault? (Cursor.start (lead :: rest)) =
      if (lead :: rest).length < 1 + lead.toNat / 4 then some .outOfBounds else none := by
  have starts : (Cursor.start (lead :: rest)).rest = [lead] ++ rest := rfl
  obtain ⟨middle, passes, left⟩ := Cursor.exists_passes starts
  have read : Reader.scalar .uint8 (Cursor.start (lead :: rest)) = .ok lead middle := by
    apply Reader.scalar_eq_ok_iff.mpr
    rwa [encode_uint8]
  have code : Takes (Reader.bytes (lead.toNat / 4) >>= fun code => pure (ofCode code))
      (lead.toNat / 4) :=
    (takes_bytes _).bind fun _ => takes_pure _
  rw [readTiny, Reader.fault?_bind_of_ok read, code.fault?_eq, ← Cursor.length_rest, left]
  apply if_congr _ rfl rfl
  rw [List.length_cons]
  omega

/-- Padding and code are read one after the other, so it does not matter which of them lacks. -/
theorem fault?_readPadded (header : FatHeader) (cursor : Cursor) :
    (readPadded header).fault? cursor =
      if cursor.remaining < header.size - cursor.position + header.codeSize.toNat then
        some .outOfBounds
      else none := by
  rw [readPadded, Reader.fault?_bind_of_ok (Reader.get_apply cursor)]
  apply Takes.fault?_eq
  exact (takes_advance _).bind fun _ => (takes_bytes _).bind fun _ => takes_pure _

theorem fault?_readFat (data : Bytes) :
    readFat.fault? (Cursor.start data) =
      if data.length < 12 then some .outOfBounds
      else if numberAt data 0 2 / 4096 < 3 then
        some (.malformed (.shortFatHeader (4 * (numberAt data 0 2 / 4096))))
      else if data.length < 4 * (numberAt data 0 2 / 4096) + numberAt data 4 4 then
        some .outOfBounds
      else none := by
  by_cases short : data.length < 12
  · rw [if_pos short, readFat]
    apply Reader.fault?_bind_of_fault
    rw [FatHeader.takes_read.fault?_eq]
    exact if_pos short
  · obtain ⟨header, after, fields⟩ :=
      FatHeader.takes_read.exists_ok (Cursor.start data) (Nat.le_of_not_lt short)
    have passes := FatHeader.read_eq_ok_iff.mp fields
    have whole : data = header.bytes ++ after.rest := passes.rest_eq
    have word : numberAt data 0 2 = header.word.toNat := by
      rw [whole, FatHeader.numberAt_word]
    have codeSize : numberAt data 4 4 = header.codeSize.toNat := by
      rw [whole, FatHeader.numberAt_codeSize]
    have size : header.size = 4 * (header.word.toNat / 4096) := Nat.mul_comm _ _
    rw [if_neg short, readFat, Reader.fault?_bind_of_ok fields, word, codeSize, ← size]
    by_cases small : header.size < fatHeaderSize
    · have units : header.word.toNat / 4096 < 3 := by
        unfold fatHeaderSize at small
        omega
      rw [if_pos small, if_pos units]
      rfl
    · have units : ¬header.word.toNat / 4096 < 3 := by
        unfold fatHeaderSize at small
        omega
      rw [if_neg small, if_neg units, fault?_readPadded, FatHeader.position_of_read fields]
      apply if_congr _ rfl rfl
      have total := after.position_add_remaining
      rw [FatHeader.position_of_read fields, passes.data_eq] at total
      change _ = data.length at total
      omega

theorem faultOf_parse (data : Bytes) : faultOf (parse data) = fault? data := by
  cases data with
  | nil => rfl
  | cons lead rest =>
    by_cases tiny : lead.toNat % 4 = 2
    · rw [parse_of_tiny tiny, Reader.faultOf_readFrom, fault?_readTiny, fault?, if_pos tiny]
    · by_cases fat : lead.toNat % 4 = 3
      · rw [parse_of_fat fat, Reader.faultOf_readFrom, fault?_readFat, fault?, if_neg tiny,
          if_pos fat]
      · rw [parse_of_unknown (by omega), fault?, if_neg tiny, if_neg fat]
        rfl

theorem fault?_ne_midOpcode (data : Bytes) (offset : Nat) :
    fault? data ≠ some (.midOpcode offset) := by
  unfold fault?
  split
  · simp
  · dsimp only
    split_ifs <;> simp

end Body

/-- Parsing fails exactly where a rule is broken, and reports the one that is checked first; so it
succeeds on all other data. No fault of an opcode is ever reported. -/
theorem body_parse_reports_first_fault (data : Bytes) :
    (∀ cause, Body.parse data = .error cause ↔ Body.fault? data = some cause) ∧
      ((∃ body, Body.parse data = .ok body) ↔ Body.fault? data = none) ∧
      ∀ cause, Body.parse data = .error cause →
        cause = .outOfBounds ∨ ∃ violation, cause = .malformed violation := by
  have agrees := Body.faultOf_parse data
  refine ⟨?_, ?_, ?_⟩
  · intro cause
    rw [← agrees, faultOf_eq_some_iff]
  · rw [← agrees, faultOf_eq_none_iff]
  · intro cause failed
    rw [← faultOf_eq_some_iff, agrees] at failed
    cases cause with
    | midOpcode offset => exact absurd failed (Body.fault?_ne_midOpcode data offset)
    | malformed violation => exact .inr ⟨violation, rfl⟩
    | outOfBounds => exact .inl rfl

/-- The header states four bytes and sixteen of code, of which there is one: its own size is judged
first. -/
example :
    Body.parse [0x03, 0x10, 0x08, 0x00, 0x10, 0x00, 0x00, 0x00, 0x00, 0x00, 0x00, 0x00, 0x2A] =
      .error (.malformed (.shortFatHeader 4)) := by
  rfl

end CilSketch
