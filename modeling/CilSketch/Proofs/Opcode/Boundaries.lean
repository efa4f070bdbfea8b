import CilSketch.Proofs.Opcode.Items
import Mathlib.Algebra.Ring.Parity

/-!
Where opcodes start, without decoding what precedes them. A lead byte can also be the second byte
of an opcode, so only the parity of the run of lead bytes before an offset counts. Any other byte
ends an opcode in either role, and decoding is in step again after it.
-/

set_option autoImplicit false

namespace CilSketch

/-- How many lead bytes stand at the end of some code, without any other byte between them. -/
def leadRun (code : Bytes) : Nat :=
  (code.reverse.takeWhile (· = Opcode.extendedLead)).length

theorem leadRun_append (a b : Bytes) :
    leadRun (a ++ b) = if leadRun b = b.length then b.length + leadRun a else leadRun b := by
  unfold leadRun
  rw [List.reverse_append, List.takeWhile_append, List.length_reverse]
  split
  · rw [List.length_append, List.length_reverse]
  · rfl

theorem leadRun_append_singleton {byte : UInt8} (plain : byte ≠ Opcode.extendedLead)
    (code : Bytes) : leadRun (code ++ [byte]) = 0 := by
  simp [leadRun, plain]

/-- Code that ends in an even run has no effect on the parity of what follows it. -/
theorem even_leadRun_append {a : Bytes} (even : Even (leadRun a)) (b : Bytes) :
    Even (leadRun (a ++ b)) ↔ Even (leadRun b) := by
  rw [leadRun_append]
  split
  next whole => rw [whole, Nat.even_add, iff_true_right even]
  next => rfl

namespace Opcode

variable {offset : Nat} {code : Bytes} {opcode : Opcode}

theorem bytes_eq_of_head? (found : head? offset code = some opcode) :
    opcode.bytes = [opcode.code] ∧ opcode.code ≠ extendedLead ∨
      opcode.bytes = [extendedLead, opcode.code] := by
  obtain ⟨byte, rest, plain, rfl, rfl⟩ | ⟨next, rest, rfl, rfl⟩ := head?_cases found
  · exact .inl ⟨rfl, plain⟩
  · exact .inr rfl

theorem even_leadRun_bytes (found : head? offset code = some opcode) :
    Even (leadRun opcode.bytes) := by
  obtain ⟨oneByte, plain⟩ | twoByte := bytes_eq_of_head? found
  · rw [oneByte, ← List.nil_append [opcode.code], leadRun_append_singleton plain]
    exact Even.zero
  · rw [twoByte]
    by_cases second : opcode.code = extendedLead
    · rw [second]
      exact even_two
    · rw [← List.singleton_append, leadRun_append_singleton second]
      exact Even.zero

theorem not_even_leadRun_take {p : Nat} (found : head? offset code = some opcode)
    (inside : 0 < p) (bound : p < opcode.size) : ¬ Even (leadRun (opcode.bytes.take p)) := by
  rw [← length_bytes] at bound
  obtain ⟨oneByte, -⟩ | twoByte := bytes_eq_of_head? found
  · rw [oneByte, List.length_singleton] at bound
    omega
  · rw [twoByte] at bound ⊢
    obtain rfl : p = 1 := by
      simp only [List.length_cons, List.length_nil] at bound
      omega
    exact Nat.not_even_one

end Opcode

namespace Listing

/-- The offsets of all items, in order. -/
def starts (listing : Listing) : List Nat :=
  listing.opcodes.map Opcode.offset ++ listing.dangling.toList

theorem mem_starts_cons {opcode : Opcode} {listing : Listing} {p : Nat} :
    p ∈ (listing.cons opcode).starts ↔ p = opcode.offset ∨ p ∈ listing.starts := by
  simp [starts, cons]

theorem le_of_mem_starts {offset p : Nat} {code : Bytes}
    (member : p ∈ (ofBytes offset code).starts) : offset ≤ p := by
  induction offset, code using bytes_induction with
  | nil offset => simp [starts, ofBytes] at member
  | dangling offset =>
    have same : p = offset := by simpa [starts, ofBytes] using member
    exact Nat.le_of_eq same.symm
  | opcode offset opcode rest found ih =>
    rw [ofBytes_bytes_append found, mem_starts_cons] at member
    rcases member with here | later
    · rw [here, (Opcode.head?_eq_some found).1]
    · have bound := ih later
      omega

theorem mem_starts_iff (offset : Nat) (code : Bytes) :
    ∀ p < code.length,
      offset + p ∈ (ofBytes offset code).starts ↔ Even (leadRun (code.take p)) := by
  induction offset, code using bytes_induction with
  | nil offset =>
    intro p bound
    simp at bound
  | dangling offset =>
    intro p bound
    obtain rfl : p = 0 := by simpa using bound
    exact ⟨fun _ => Even.zero, fun _ => List.mem_singleton_self offset⟩
  | opcode offset opcode rest found ih =>
    intro p bound
    have first : opcode.offset = offset := (Opcode.head?_eq_some found).1
    have length := opcode.length_bytes
    rw [ofBytes_bytes_append found, mem_starts_cons, first]
    rcases Nat.eq_zero_or_pos p with rfl | positive
    · exact ⟨fun _ => Even.zero, fun _ => .inl rfl⟩
    · rcases Nat.lt_or_ge p opcode.size with inside | beyond
      · -- Inside an opcode no item starts: those after it start at its end or later.
        rw [List.take_append_of_le_length (by omega)]
        refine iff_of_false ?_ (Opcode.not_even_leadRun_take found positive inside)
        rintro (here | later)
        · omega
        · have bound := le_of_mem_starts later
          omega
      · obtain ⟨q, rfl⟩ := Nat.exists_eq_add_of_le beyond
        have elsewhere : offset + (opcode.size + q) ≠ offset := by omega
        rw [← length, List.take_length_add_append, length,
          even_leadRun_append (Opcode.even_leadRun_bytes found), ← Nat.add_assoc]
        rw [← Nat.add_assoc] at elsewhere
        have later := ih q (by
          rw [List.length_append, length] at bound
          omega)
        simpa [elsewhere] using later

theorem isSome_dangling_iff (offset : Nat) (code : Bytes) :
    (ofBytes offset code).dangling.isSome = true ↔ Odd (leadRun code) := by
  rw [← Nat.not_even_iff_odd]
  induction offset, code using bytes_induction with
  | nil offset => exact iff_of_false Bool.false_ne_true (not_not.mpr Even.zero)
  | dangling offset => exact iff_of_true rfl Nat.not_even_one
  | opcode offset opcode rest found ih =>
    rw [ofBytes_bytes_append found, dangling_cons, ih,
      even_leadRun_append (Opcode.even_leadRun_bytes found)]

end Listing

namespace Decoder

/-- Polling to the end gives an opcode that starts at the offset, or the error for it. -/
def YieldsAt (decoder : Decoder) (offset : Nat) : Prop :=
  (∃ opcode, .ok opcode ∈ decoder.items ∧ opcode.offset = offset) ∨
    .error (.midOpcode offset) ∈ decoder.items

theorem yieldsAt_start_iff (code : Bytes) (offset : Nat) :
    (start code).YieldsAt offset ↔ offset ∈ (Listing.ofBytes 0 code).starts := by
  simp [YieldsAt, items_start, Listing.items, Listing.starts]

theorem error_mem_items_start (code : Bytes) :
    (∃ cause, .error cause ∈ (start code).items) ↔
      (Listing.ofBytes 0 code).dangling.isSome = true := by
  simp only [items_start, Listing.items, List.mem_append, List.mem_map, reduceCtorEq, and_false,
    exists_false, false_or, Option.mem_toList, Option.map_eq_some_iff, Option.isSome_iff_exists]
  constructor
  · rintro ⟨cause, offset, dangling, -⟩
    exact ⟨offset, dangling⟩
  · rintro ⟨offset, dangling⟩
    exact ⟨_, offset, dangling, rfl⟩

end Decoder

/-- An item starts exactly where an even run of lead bytes ends. So an odd run at the very end is
what makes decoding fail, and an item starts after every byte that is not a lead byte. -/
theorem decoder_yieldsAt_iff_even_leadRun (code : Bytes) :
    (∀ p : Fin code.length,
        (Decoder.start code).YieldsAt p ↔ Even (leadRun (code.take p))) ∧
      ((∃ cause, .error cause ∈ (Decoder.start code).items) ↔ Odd (leadRun code)) ∧
      ∀ (before after : Bytes) (byte next : UInt8), byte ≠ Opcode.extendedLead →
        (Decoder.start (before ++ byte :: next :: after)).YieldsAt (before.length + 1) := by
  refine ⟨?_, ?_, ?_⟩
  · intro p
    have boundary := Listing.mem_starts_iff 0 code p p.isLt
    rw [Decoder.yieldsAt_start_iff]
    simpa using boundary
  · rw [Decoder.error_mem_items_start, Listing.isSome_dangling_iff]
  · intro before after byte next plain
    have boundary := Listing.mem_starts_iff 0 (before ++ byte :: next :: after)
      (before.length + 1) (by simp)
    rw [Decoder.yieldsAt_start_iff, ← Nat.zero_add (before.length + 1), boundary,
      List.take_length_add_append, List.take_succ_cons, List.take_zero,
      leadRun_append_singleton plain]
    exact Even.zero

end CilSketch
