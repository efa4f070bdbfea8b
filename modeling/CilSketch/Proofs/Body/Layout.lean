import CilSketch.Body
import CilSketch.Proofs.Bytes.Reads

/-!
The two layouts of a stored body, and that parsing accepts exactly these. Either header states how
much of the blob is code, so whatever follows the code has no influence.
-/

set_option autoImplicit false

namespace CilSketch

open Reader (bind_eq_ok_iff pure_eq_ok_iff scalar_eq_ok_iff bytes_eq_ok_iff advance_eq_ok_iff)

namespace FatHeader

variable {cursor after : Cursor} {header : FatHeader}

def bytes (header : FatHeader) : Bytes :=
  Scalar.uint16.encode header.word ++ Scalar.uint16.encode header.maxStack ++
    Scalar.uint32.encode header.codeSize ++ Scalar.uint32.encode header.localsToken

theorem length_bytes (header : FatHeader) : header.bytes.length = Body.fatHeaderSize := by
  simp [bytes, Scalar.width, Body.fatHeaderSize]

theorem read_eq_ok_iff : read cursor = .ok header after ↔ cursor.Passes header.bytes after := by
  simp only [read, bytes, bind_eq_ok_iff, pure_eq_ok_iff, Cursor.passes_append_iff]
  constructor
  · rintro ⟨_, first, word, _, second, maxStack, _, third, codeSize, _, _, token, rfl, rfl⟩
    exact ⟨third, ⟨second, ⟨first, scalar_eq_ok_iff.mp word, scalar_eq_ok_iff.mp maxStack⟩,
      scalar_eq_ok_iff.mp codeSize⟩, scalar_eq_ok_iff.mp token⟩
  · rintro ⟨third, ⟨second, ⟨first, word, maxStack⟩, codeSize⟩, token⟩
    exact ⟨_, first, scalar_eq_ok_iff.mpr word, _, second, scalar_eq_ok_iff.mpr maxStack, _, third,
      scalar_eq_ok_iff.mpr codeSize, _, after, scalar_eq_ok_iff.mpr token, rfl, rfl⟩

/-- The fixed fields end where the least header ends. -/
theorem position_of_read {data : Bytes} (fields : read (Cursor.start data) = .ok header after) :
    after.position = Body.fatHeaderSize := by
  rw [(read_eq_ok_iff.mp fields).position_eq, header.length_bytes]
  exact Nat.zero_add _

end FatHeader

namespace Body

/-- How a body is stored: the header, padding after a fat one, the code, and anything after it. -/
inductive Layout : Bytes → Body → Prop where
  | tiny (code rest : Bytes) (short : code.length ≤ 63) :
      Layout ([UInt8.ofNat (4 * code.length + 2)] ++ code ++ rest)
        { code, maxStack := 8, isFat := false, initLocals := false, localsToken := 0 }
  | fat (header : FatHeader) (padding code rest : Bytes) (format : header.word.toNat % 4 = 3)
      (large : 3 ≤ header.word.toNat / 4096)
      (padded : padding.length = 4 * (header.word.toNat / 4096) - 12)
      (sized : code.length = header.codeSize.toNat) :
      Layout (header.bytes ++ padding ++ code ++ rest)
        { code
          maxStack := header.maxStack
          isFat := true
          initLocals := header.word.toNat.testBit 4
          localsToken := header.localsToken }

theorem Layout.append {data : Bytes} {body : Body} (layout : Layout data body) (more : Bytes) :
    Layout (data ++ more) body := by
  cases layout with
  | tiny code rest short =>
    rw [List.append_assoc]
    exact .tiny code (rest ++ more) short
  | fat header padding code rest format large padded sized =>
    rw [List.append_assoc]
    exact .fat header padding code (rest ++ more) format large padded sized

variable {cursor after : Cursor} {body : Body}

theorem encode_uint8 (byte : UInt8) : Scalar.uint8.encode byte = [byte] := by
  simp [Scalar.encode, Scalar.width, Scalar.pattern, LittleEndian.encode]

theorem readTiny_eq_ok_iff :
    readTiny cursor = .ok body after ↔
      ∃ (lead : UInt8) (code : Bytes), code.length = lead.toNat / 4 ∧
        cursor.Passes ([lead] ++ code) after ∧ body = ofCode code := by
  simp only [readTiny, bind_eq_ok_iff, pure_eq_ok_iff, bytes_eq_ok_iff, Cursor.passes_append_iff,
    ← encode_uint8]
  constructor
  · rintro ⟨lead, middle, first, code, _, ⟨sized, second⟩, rfl, rfl⟩
    exact ⟨lead, code, sized, ⟨middle, scalar_eq_ok_iff.mp first, second⟩, rfl⟩
  · rintro ⟨lead, code, sized, ⟨middle, first, second⟩, rfl⟩
    exact ⟨lead, middle, scalar_eq_ok_iff.mpr first, code, after, ⟨sized, second⟩, rfl, rfl⟩

theorem readPadded_eq_ok_iff {header : FatHeader} :
    readPadded header cursor = .ok body after ↔
      ∃ padding code : Bytes, padding.length = header.size - cursor.position ∧
        code.length = header.codeSize.toNat ∧ cursor.Passes (padding ++ code) after ∧
        body = ofHeader header code := by
  rw [readPadded, Reader.bind_of_ok (Reader.get_apply cursor)]
  simp only [bind_eq_ok_iff, advance_eq_ok_iff, bytes_eq_ok_iff, pure_eq_ok_iff,
    Cursor.passes_append_iff]
  constructor
  · rintro ⟨_, middle, ⟨padding, padded, first⟩, code, _, ⟨sized, second⟩, rfl, rfl⟩
    exact ⟨padding, code, padded, sized, ⟨middle, first, second⟩, rfl⟩
  · rintro ⟨padding, code, padded, sized, ⟨middle, first, second⟩, rfl⟩
    exact ⟨(), middle, ⟨padding, padded, first⟩, code, after, ⟨sized, second⟩, rfl, rfl⟩

/-- The header is as long as it states, since its padding starts where its fixed fields end. -/
theorem readFat_start_eq_ok_iff {data : Bytes} :
    readFat (Cursor.start data) = .ok body after ↔
      ∃ (header : FatHeader) (padding code : Bytes), fatHeaderSize ≤ header.size ∧
        padding.length = header.size - fatHeaderSize ∧ code.length = header.codeSize.toNat ∧
        (Cursor.start data).Passes (header.bytes ++ (padding ++ code)) after ∧
        body = ofHeader header code := by
  simp only [readFat, bind_eq_ok_iff]
  constructor
  · rintro ⟨header, middle, fields, later⟩
    by_cases small : header.size < fatHeaderSize
    · rw [if_pos small] at later
      cases later
    · rw [if_neg small, readPadded_eq_ok_iff, FatHeader.position_of_read fields] at later
      obtain ⟨padding, code, padded, sized, passes, rfl⟩ := later
      exact ⟨header, padding, code, Nat.le_of_not_lt small, padded, sized,
        (FatHeader.read_eq_ok_iff.mp fields).append passes, rfl⟩
  · rintro ⟨header, padding, code, large, padded, sized, passes, rfl⟩
    obtain ⟨middle, first, second⟩ := Cursor.passes_append_iff.mp passes
    have fields := FatHeader.read_eq_ok_iff.mpr first
    refine ⟨header, middle, fields, ?_⟩
    rw [if_neg (Nat.not_lt_of_le large), readPadded_eq_ok_iff, FatHeader.position_of_read fields]
    exact ⟨padding, code, padded, sized, second, rfl⟩

theorem parse_of_tiny {lead : UInt8} (format : lead.toNat % 4 = 2) (rest : Bytes) :
    parse (lead :: rest) = readTiny.readFrom (lead :: rest) := by
  simp only [parse, format]

theorem parse_of_fat {lead : UInt8} (format : lead.toNat % 4 = 3) (rest : Bytes) :
    parse (lead :: rest) = readFat.readFrom (lead :: rest) := by
  simp only [parse, format]

theorem parse_of_unknown {lead : UInt8} (format : lead.toNat % 4 < 2) (rest : Bytes) :
    parse (lead :: rest) = .error (.malformed (.unknownHeader lead)) := by
  rw [parse]
  split
  · omega
  · omega
  · rfl

/-- The format bits of a fat header are in its first byte. -/
theorem lead_mod_four (word : UInt16) : (UInt8.ofNat word.toNat).toNat % 4 = word.toNat % 4 := by
  rw [UInt8.toNat_ofNat']
  omega

theorem layout_of_parse {data : Bytes} (accepted : parse data = .ok body) :
    Layout data body := by
  obtain _ | ⟨lead, rest⟩ := data
  · cases accepted
  by_cases tiny : lead.toNat % 4 = 2
  · rw [parse_of_tiny tiny, Reader.readFrom_eq_ok_iff] at accepted
    obtain ⟨after, read⟩ := accepted
    obtain ⟨first, code, sized, passes, rfl⟩ := readTiny_eq_ok_iff.mp read
    have starts := passes.rest_eq
    rw [Cursor.rest_start] at starts
    obtain ⟨rfl, -⟩ := List.cons.inj starts
    have bound : lead.toNat < 256 := lead.toNat_lt
    have announced : 4 * code.length + 2 = lead.toNat := by omega
    have layout := Layout.tiny code after.rest (by omega)
    rwa [announced, UInt8.ofNat_toNat, ← starts] at layout
  by_cases fat : lead.toNat % 4 = 3
  · rw [parse_of_fat fat, Reader.readFrom_eq_ok_iff] at accepted
    obtain ⟨after, read⟩ := accepted
    obtain ⟨header, padding, code, large, padded, sized, passes, rfl⟩ :=
      readFat_start_eq_ok_iff.mp read
    have starts := passes.rest_eq
    rw [Cursor.rest_start, List.append_assoc] at starts
    obtain ⟨rfl, -⟩ := List.cons.inj starts
    have format := (lead_mod_four header.word).symm.trans fat
    rw [fatHeaderSize, FatHeader.size] at large padded
    have layout := Layout.fat header padding code after.rest format (by omega) (by omega) sized
    rwa [List.append_assoc, List.append_assoc, ← List.append_assoc padding, ← starts] at layout
  · rw [parse_of_unknown (by omega)] at accepted
    cases accepted

theorem parse_of_layout {data : Bytes} (layout : Layout data body) : parse data = .ok body := by
  cases layout with
  | tiny code rest short =>
    have lead : (UInt8.ofNat (4 * code.length + 2)).toNat = 4 * code.length + 2 :=
      UInt8.toNat_ofNat_of_lt (show 4 * code.length + 2 < 256 by omega)
    obtain ⟨after, passes, -⟩ := Cursor.exists_passes (Cursor.rest_start
      ([UInt8.ofNat (4 * code.length + 2)] ++ code ++ rest))
    rw [List.append_assoc, List.singleton_append] at passes ⊢
    rw [parse_of_tiny (by omega), Reader.readFrom_eq_ok_iff]
    exact ⟨after, readTiny_eq_ok_iff.mpr ⟨_, code, by rw [lead]; omega, passes, rfl⟩⟩
  | fat header padding code rest format large padded sized =>
    obtain ⟨after, passes, -⟩ := Cursor.exists_passes (Cursor.rest_start
      (header.bytes ++ padding ++ code ++ rest))
    rw [List.append_assoc header.bytes] at passes ⊢
    have fits : fatHeaderSize ≤ header.size := by
      rw [fatHeaderSize, FatHeader.size]
      omega
    have filled : padding.length = header.size - fatHeaderSize := by
      rw [fatHeaderSize, FatHeader.size]
      omega
    refine (parse_of_fat ((lead_mod_four header.word).trans format) _).trans ?_
    refine Reader.readFrom_eq_ok_iff.mpr ⟨after, readFat_start_eq_ok_iff.mpr ?_⟩
    exact ⟨header, padding, code, fits, filled, sized, passes, rfl⟩

end Body

/-- Parsing accepts a blob exactly if it has one of the two layouts, and gives the body that is laid
out there; more bytes at the end change nothing. Where the padding of a fat header is measured, the
cursor has not passed the end of the header. -/
theorem body_parse_iff_layout (data : Bytes) (body : Body) :
    (Body.parse data = .ok body ↔ Body.Layout data body) ∧
      (∀ more : Bytes, Body.parse data = .ok body → Body.parse (data ++ more) = .ok body) ∧
      ∀ (header : FatHeader) (cursor : Cursor),
        FatHeader.read (Cursor.start data) = .ok header cursor →
          Body.fatHeaderSize ≤ header.size → cursor.position ≤ header.size := by
  refine ⟨⟨Body.layout_of_parse, Body.parse_of_layout⟩, ?_, ?_⟩
  · intro more accepted
    exact Body.parse_of_layout ((Body.layout_of_parse accepted).append more)
  · intro header cursor fields large
    rw [FatHeader.position_of_read fields]
    exact large

/-- A fat header of sixteen bytes: its last four and what follows the code are skipped. -/
example :
    Body.parse [0x13, 0x40, 0x02, 0x00, 0x02, 0x00, 0x00, 0x00, 0x01, 0x00, 0x00, 0x11,
        0xAA, 0xBB, 0xCC, 0xDD, 0x00, 0x2A, 0xFF] =
      .ok ⟨[0x00, 0x2A], 2, true, true, 0x11000001⟩ := by
  rfl

end CilSketch
