import CilSketch.Proofs.Opcode.Items
import Mathlib.Algebra.Ring.Nat

/-!
Opcodes tile the code they are decoded from. Written one after the other, the decoded opcodes give
the code back, up to a lead byte at its very end; and every sequence of tokens is what decoding its
own bytes yields.
-/

set_option autoImplicit false

namespace CilSketch

namespace Opcode

/-- The bytes of an opcode by its size and its value: the code alone, or the high byte of the value
and then the low one. -/
def valueBytes (opcode : Opcode) : Bytes :=
  if opcode.size = 1 then [opcode.code]
  else [UInt8.ofNat (opcode.value / 256), UInt8.ofNat (opcode.value % 256)]

theorem valueBytes_eq_bytes (opcode : Opcode) : opcode.valueBytes = opcode.bytes := by
  have low : opcode.code.toNat < 256 := opcode.code.toNat_lt
  have highByte : opcode.value / 256 = opcode.lead.toNat := by
    unfold value
    omega
  have lowByte : opcode.value % 256 = opcode.code.toNat := by
    unfold value
    omega
  unfold valueBytes bytes size
  rw [highByte, lowByte]
  cases opcode.isExtended <;> simp

/-- Each opcode starts where the opcodes before it end. -/
def Consecutive (opcodes : List Opcode) : Prop :=
  ∀ i : Fin opcodes.length, (opcodes.get i).offset = ((opcodes.take i).map size).sum

end Opcode

namespace Listing

/-- Only a last lead byte is in no opcode, and it stands where the opcodes end. -/
theorem ofBytes_tiles (offset : Nat) (code : Bytes) :
    ((ofBytes offset code).dangling = none ∧
        (ofBytes offset code).opcodes.flatMap Opcode.bytes = code) ∨
      ((ofBytes offset code).dangling = some (offset + (code.length - 1)) ∧
        (ofBytes offset code).opcodes.flatMap Opcode.bytes ++ [Opcode.extendedLead] = code) := by
  induction offset, code using bytes_induction with
  | nil offset => exact .inl ⟨rfl, rfl⟩
  | dangling offset => exact .inr ⟨rfl, rfl⟩
  | opcode offset opcode rest found ih =>
    rw [ofBytes_bytes_append found, dangling_cons, opcodes_cons, List.flatMap_cons]
    obtain ⟨complete, tiles⟩ | ⟨dangling, tiles⟩ := ih
    · exact .inl ⟨complete, by rw [tiles]⟩
    · refine .inr ⟨?_, by rw [List.append_assoc, tiles]⟩
      have length := congrArg List.length tiles
      rw [List.length_append, List.length_singleton] at length
      rw [dangling, List.length_append, Opcode.length_bytes, Option.some.injEq]
      omega

theorem offset_ofBytes (offset : Nat) (code : Bytes) :
    ∀ i : Fin (ofBytes offset code).opcodes.length,
      ((ofBytes offset code).opcodes.get i).offset =
        offset + (((ofBytes offset code).opcodes.take i).map Opcode.size).sum := by
  induction offset, code using bytes_induction with
  | nil offset => exact fun i => i.elim0
  | dangling offset => exact fun i => i.elim0
  | opcode offset opcode rest found ih =>
    rw [ofBytes_bytes_append found, opcodes_cons]
    intro ⟨i, bound⟩
    cases i with
    | zero => simpa using (Opcode.head?_eq_some found).1
    | succ i =>
      have later := ih ⟨i, by simpa using bound⟩
      simpa [Nat.add_assoc] using later

theorem consecutive_ofBytes (code : Bytes) : Opcode.Consecutive (ofBytes 0 code).opcodes := by
  intro i
  rw [offset_ofBytes 0 code i, Nat.zero_add]

end Listing

/-- An opcode apart from its place. A code of one byte is never the lead byte of another opcode. -/
structure Token where
  lead : UInt8
  code : UInt8
  wellFormed : lead = 0 ∧ code ≠ Opcode.extendedLead ∨ lead = Opcode.extendedLead

namespace Token

def placed (token : Token) (offset : Nat) : Opcode :=
  ⟨offset, token.lead, token.code⟩

def bytes (token : Token) : Bytes :=
  (token.placed 0).valueBytes

theorem bytes_placed (token : Token) (offset : Nat) :
    (token.placed offset).bytes = token.bytes := by
  rw [bytes, Opcode.valueBytes_eq_bytes]
  rfl

theorem head?_bytes_append (token : Token) (offset : Nat) (rest : Bytes) :
    Opcode.head? offset ((token.placed offset).bytes ++ rest) = some (token.placed offset) := by
  obtain ⟨lead, code, ⟨rfl, plain⟩ | rfl⟩ := token
  · simp [placed, Opcode.head?, plain]
  · simp [placed, Opcode.head?]

theorem ofBytes_flatMap_bytes (offset : Nat) (tokens : List Token) :
    (Listing.ofBytes offset (tokens.flatMap bytes)).dangling = none ∧
      (Listing.ofBytes offset (tokens.flatMap bytes)).opcodes.map
          (fun opcode => (opcode.lead, opcode.code)) =
        tokens.map fun token => (token.lead, token.code) := by
  induction tokens generalizing offset with
  | nil => exact ⟨rfl, rfl⟩
  | cons token rest ih =>
    obtain ⟨complete, opcodes⟩ := ih (offset + (token.placed offset).size)
    rw [List.flatMap_cons, ← token.bytes_placed offset,
      Listing.ofBytes_bytes_append (token.head?_bytes_append offset _)]
    refine ⟨by rw [Listing.dangling_cons, complete], ?_⟩
    rw [Listing.opcodes_cons, List.map_cons, opcodes]
    rfl

end Token

/-- Decoding loses nothing: the decoded opcodes stand one after the other and give the code back,
but for a lead byte at its end, which is the one error. Decoding is also inverse to writing
tokens. -/
theorem decoder_items_lossless (code : Bytes) (tokens : List Token) :
    (∃ opcodes : List Opcode,
      Opcode.Consecutive opcodes ∧
        (((Decoder.start code).items = opcodes.map .ok ∧
            opcodes.flatMap Opcode.valueBytes = code) ∨
          ((Decoder.start code).items =
              opcodes.map .ok ++ [.error (.midOpcode (code.length - 1))] ∧
            opcodes.flatMap Opcode.valueBytes ++ [Opcode.extendedLead] = code))) ∧
      ∃ opcodes : List Opcode,
        (Decoder.start (tokens.flatMap Token.bytes)).items = opcodes.map .ok ∧
          opcodes.map (fun opcode => (opcode.lead, opcode.code)) =
            tokens.map fun token => (token.lead, token.code) := by
  have sameBytes : Opcode.valueBytes = Opcode.bytes := funext Opcode.valueBytes_eq_bytes
  constructor
  · refine ⟨(Listing.ofBytes 0 code).opcodes, Listing.consecutive_ofBytes code, ?_⟩
    rw [Decoder.items_start, sameBytes]
    obtain ⟨complete, tiles⟩ | ⟨dangling, tiles⟩ := Listing.ofBytes_tiles 0 code
    · exact .inl ⟨by simp [Listing.items, complete], tiles⟩
    · exact .inr ⟨by simp [Listing.items, dangling], tiles⟩
  · obtain ⟨complete, opcodes⟩ := Token.ofBytes_flatMap_bytes 0 tokens
    refine ⟨(Listing.ofBytes 0 (tokens.flatMap Token.bytes)).opcodes, ?_, opcodes⟩
    rw [Decoder.items_start]
    simp [Listing.items, complete]

end CilSketch
