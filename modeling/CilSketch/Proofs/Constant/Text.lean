import CilSketch.Constant
import CilSketch.Proofs.Bytes.Reads

/-!
Text constants are exactly UTF-16 in little-endian order. Whatever is left of a blob is one text or
none: none if it has an odd length or a surrogate without its other half, and lack of bytes is never
the cause.
-/

set_option autoImplicit false

namespace CilSketch

namespace Reader

variable {cursor : Cursor}

/-- The units of what is left, if it has no odd byte. -/
theorem hasStray_ofBytes_iff (even : cursor.rest.length % 2 = 0) :
    Utf16.HasStray (Utf16.ofBytes cursor.rest) ↔
      ∃ units, Utf16.toBytes units = cursor.rest ∧ Utf16.HasStray units := by
  constructor
  · intro stray
    exact ⟨_, Utf16.toBytes_ofBytes cursor.rest even, stray⟩
  · rintro ⟨units, whole, stray⟩
    rwa [← whole, Utf16.ofBytes_toBytes]

theorem exists_malformed_utf16ToEnd_iff :
    (∃ violation after, utf16ToEnd cursor = .error (.malformed violation) after) ↔
      cursor.rest.length % 2 = 1 ∨
        ∃ units, Utf16.toBytes units = cursor.rest ∧ Utf16.HasStray units := by
  simp only [utf16ToEnd_eq_error_iff]
  constructor
  · rintro ⟨violation, after, ⟨odd, -⟩ | ⟨even, stray, -⟩⟩
    · exact .inl odd
    · exact .inr ((hasStray_ofBytes_iff even).mp stray)
  · rintro (odd | ⟨units, whole, stray⟩)
    · exact ⟨_, _, .inl ⟨odd, rfl, rfl⟩⟩
    · have even : cursor.rest.length % 2 = 0 := by
        rw [← whole, Utf16.length_toBytes]
        omega
      exact ⟨_, _, .inr ⟨even, (hasStray_ofBytes_iff even).mpr ⟨units, whole, stray⟩, rfl, rfl⟩⟩

end Reader

namespace Constant

/-- The tag of text among the element types. -/
def stringTag : UInt8 := 0x0E

theorem ofBlob_stringTag (data : Bytes) :
    ofBlob stringTag data = (read .string).readFrom data := rfl

theorem ofBlob_stringTag_eq_ok_iff {data : Bytes} {text : String} :
    ofBlob stringTag data = .ok (.string text) ↔ Utf16.littleEndian text = data := by
  simp only [ofBlob_stringTag, read, Reader.readFrom_eq_ok_iff, Reader.bind_eq_ok_iff,
    Reader.pure_eq_ok_iff, Reader.utf16ToEnd_eq_ok_iff, Cursor.rest_start]
  constructor
  · rintro ⟨_, shown, _, ⟨whole, -⟩, same, -⟩
    obtain rfl := Constant.string.inj same
    exact whole
  · intro whole
    exact ⟨_, text, _, ⟨whole, rfl⟩, rfl, rfl⟩

end Constant

/-- From any position, what is left is read as the one text that it encodes, if there is one, and
otherwise it is malformed: by an odd length, which leaves the cursor where it was, or by a stray
surrogate, which leaves it at the end. So the blobs of text constants are the encodings of texts. -/
theorem text_reads_exactly_utf16 (cursor : Cursor) (text : String) (data : Bytes) :
    (∀ after, Reader.utf16ToEnd cursor = .ok text after ↔
        Utf16.littleEndian text = cursor.rest ∧ after = cursor.atEnd) ∧
      (∀ other, Utf16.littleEndian other = Utf16.littleEndian text → other = text) ∧
      ((∃ violation after, Reader.utf16ToEnd cursor = .error (.malformed violation) after) ↔
        cursor.rest.length % 2 = 1 ∨
          ∃ units, Utf16.toBytes units = cursor.rest ∧ Utf16.HasStray units) ∧
      (∀ cause after, Reader.utf16ToEnd cursor = .error cause after →
        (∃ violation, cause = .malformed violation) ∧
          after = if cursor.rest.length % 2 = 1 then cursor else cursor.atEnd) ∧
      (Constant.ofBlob Constant.stringTag data = .ok (.string text) ↔
        Utf16.littleEndian text = data) := by
  refine ⟨fun after => Reader.utf16ToEnd_eq_ok_iff, fun other => Utf16.littleEndian_injective,
    Reader.exists_malformed_utf16ToEnd_iff, ?_, Constant.ofBlob_stringTag_eq_ok_iff⟩
  intro cause after failed
  rcases Reader.utf16ToEnd_eq_error_iff.mp failed with ⟨odd, rfl, rfl⟩ | ⟨even, -, rfl, rfl⟩
  · exact ⟨⟨_, rfl⟩, by rw [if_pos odd]⟩
  · exact ⟨⟨_, rfl⟩, by rw [if_neg (by omega)]⟩

end CilSketch
