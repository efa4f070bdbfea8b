import CilSketch.Opcode.Decoder

/-!
What a decoder yields over its whole life. The listing of some code is read off its bytes, without a
cursor: the opcodes, and a lead byte at the very end that is left over. Polling a decoder to the end
gives the opcodes of the listing one by one, and after them the error of such a byte.
-/

set_option autoImplicit false

namespace CilSketch

namespace Opcode

theorem size_pos (opcode : Opcode) : 0 < opcode.size := by
  unfold size
  split <;> omega

@[simp] theorem size_oneByte (offset : Nat) (code : UInt8) : size ⟨offset, 0, code⟩ = 1 := rfl

@[simp] theorem size_twoByte (offset : Nat) (code : UInt8) :
    size ⟨offset, extendedLead, code⟩ = 2 := rfl

@[simp] theorem bytes_oneByte (offset : Nat) (code : UInt8) :
    bytes ⟨offset, 0, code⟩ = [code] := rfl

@[simp] theorem bytes_twoByte (offset : Nat) (code : UInt8) :
    bytes ⟨offset, extendedLead, code⟩ = [extendedLead, code] := rfl

variable {offset : Nat} {code : Bytes} {opcode : Opcode}

/-- The two ways in which code starts with an opcode. -/
theorem head?_cases (found : head? offset code = some opcode) :
    (∃ byte rest, byte ≠ extendedLead ∧ code = byte :: rest ∧ opcode = ⟨offset, 0, byte⟩) ∨
      ∃ next rest, code = extendedLead :: next :: rest ∧ opcode = ⟨offset, extendedLead, next⟩ := by
  cases code with
  | nil => simp [head?] at found
  | cons byte rest =>
    by_cases lead : byte = extendedLead
    · cases rest with
      | nil => simp [head?, lead] at found
      | cons next rest =>
        simp only [head?, lead, ↓reduceIte, List.head?_cons, Option.map_some,
          Option.some.injEq] at found
        exact .inr ⟨next, rest, by rw [lead], found.symm⟩
    · simp only [head?, lead, ↓reduceIte, Option.some.injEq] at found
      exact .inl ⟨byte, rest, lead, rfl, found.symm⟩

theorem head?_eq_some (found : head? offset code = some opcode) :
    opcode.offset = offset ∧ opcode.bytes ++ code.drop opcode.size = code := by
  obtain ⟨byte, rest, plain, rfl, rfl⟩ | ⟨next, rest, rfl, rfl⟩ := head?_cases found
  · simp
  · simp

theorem size_le_of_head? (found : head? offset code = some opcode) :
    opcode.size ≤ code.length := by
  have whole := congrArg List.length (head?_eq_some found).2
  rw [List.length_append, length_bytes] at whole
  omega

theorem eq_lead_of_head?_none (more : code ≠ []) (cut : head? offset code = none) :
    code = [extendedLead] := by
  match code with
  | [] => exact absurd rfl more
  | [byte] => simpa [head?] using cut
  | byte :: next :: rest =>
    by_cases lead : byte = extendedLead <;> simp [head?, lead] at cut

end Opcode

namespace Reader

theorem opcode_of_fits {cursor : Cursor} {found : Opcode}
    (atHead : Opcode.head? cursor.position cursor.rest = some found)
    (fits : cursor.position + found.size ≤ cursor.data.length) :
    Reader.opcode cursor = .ok found ⟨cursor.data, cursor.position + found.size, fits⟩ := by
  rw [Reader.opcode, bind_of_ok (get_apply cursor)]
  obtain ⟨byte, rest, plain, starts, rfl⟩ | ⟨next, rest, starts, rfl⟩ := Opcode.head?_cases atHead
  · have one : cursor.position + 1 ≤ cursor.data.length := fits
    rw [bind_of_ok (adaptExcept_of_ok (peek_of_rest_cons starts)), if_neg plain,
      bind_of_ok (adaptExcept_of_ok (advance_of_le one))]
    rfl
  · have two : cursor.position + 2 ≤ cursor.data.length := fits
    rw [bind_of_ok (adaptExcept_of_ok (peek_of_rest_cons starts)), if_pos rfl,
      bind_of_ok (adaptExcept_of_ok (bytes_of_le two)), starts]
    rfl

theorem fits_of_head? {cursor : Cursor} {found : Opcode}
    (atHead : Opcode.head? cursor.position cursor.rest = some found) :
    cursor.position + found.size ≤ cursor.data.length := by
  have size := Opcode.size_le_of_head? atHead
  rw [Cursor.length_rest] at size
  have total := cursor.position_add_remaining
  omega

theorem opcode_of_head? {cursor : Cursor} {found : Opcode}
    (atHead : Opcode.head? cursor.position cursor.rest = some found) :
    ∃ after, Reader.opcode cursor = .ok found after ∧
      after.position = cursor.position + found.size ∧ after.rest = cursor.rest.drop found.size := by
  refine ⟨_, opcode_of_fits atHead (fits_of_head? atHead), rfl, ?_⟩
  simp [Cursor.rest, List.drop_drop]

theorem opcode_of_head?_none {cursor : Cursor}
    (cut : Opcode.head? cursor.position cursor.rest = none) :
    Reader.opcode cursor = .error (.midOpcode cursor.position) cursor := by
  rw [Reader.opcode, bind_of_ok (get_apply cursor)]
  by_cases more : cursor.rest = []
  · exact bind_of_error (adaptExcept_of_error (peek_of_rest_nil more))
  · have lone : cursor.rest = [Opcode.extendedLead] := Opcode.eq_lead_of_head?_none more cut
    have short : cursor.data.length < cursor.position + 2 := by
      have total := cursor.position_add_remaining
      rw [← Cursor.length_rest, lone, List.length_singleton] at total
      omega
    rw [bind_of_ok (adaptExcept_of_ok (peek_of_rest_cons lone)), if_pos rfl]
    exact bind_of_error (adaptExcept_of_error (bytes_of_lt short))

end Reader

structure Listing where
  opcodes : List Opcode
  /-- The offset of a last lead byte that has no second byte. -/
  dangling : Option Nat
  deriving DecidableEq, Repr

namespace Listing

def cons (opcode : Opcode) (listing : Listing) : Listing :=
  ⟨opcode :: listing.opcodes, listing.dangling⟩

/-- The listing of code that starts at the given offset. -/
def ofBytes (offset : Nat) : Bytes → Listing
  | [] => ⟨[], none⟩
  | [byte] =>
      if byte = Opcode.extendedLead then ⟨[], some offset⟩ else ⟨[⟨offset, 0, byte⟩], none⟩
  | byte :: next :: rest =>
      if byte = Opcode.extendedLead then
        (ofBytes (offset + 2) rest).cons ⟨offset, byte, next⟩
      else
        (ofBytes (offset + 1) (next :: rest)).cons ⟨offset, 0, byte⟩

@[simp] theorem opcodes_cons (opcode : Opcode) (listing : Listing) :
    (listing.cons opcode).opcodes = opcode :: listing.opcodes := rfl

@[simp] theorem dangling_cons (opcode : Opcode) (listing : Listing) :
    (listing.cons opcode).dangling = listing.dangling := rfl

theorem ofBytes_of_head? {offset : Nat} {code : Bytes} {opcode : Opcode}
    (found : Opcode.head? offset code = some opcode) :
    ofBytes offset code =
      (ofBytes (offset + opcode.size) (code.drop opcode.size)).cons opcode := by
  obtain ⟨byte, rest, plain, rfl, rfl⟩ | ⟨next, rest, rfl, rfl⟩ := Opcode.head?_cases found
  · cases rest with
    | nil => simp [ofBytes, plain, cons]
    | cons next rest => simp [ofBytes, plain]
  · simp [ofBytes]

theorem ofBytes_bytes_append {offset : Nat} {opcode : Opcode} {rest : Bytes}
    (found : Opcode.head? offset (opcode.bytes ++ rest) = some opcode) :
    ofBytes offset (opcode.bytes ++ rest) =
      (ofBytes (offset + opcode.size) rest).cons opcode := by
  rw [ofBytes_of_head? found, ← Opcode.length_bytes, List.drop_left]

/-- Induction over code opcode by opcode. -/
@[elab_as_elim]
theorem bytes_induction {motive : Nat → Bytes → Prop} (nil : ∀ offset, motive offset [])
    (dangling : ∀ offset, motive offset [Opcode.extendedLead])
    (opcode : ∀ offset (opcode : Opcode) rest,
      Opcode.head? offset (opcode.bytes ++ rest) = some opcode →
      motive (offset + opcode.size) rest → motive offset (opcode.bytes ++ rest))
    (offset : Nat) (code : Bytes) : motive offset code := by
  by_cases more : code = []
  · subst more
    exact nil offset
  · cases found : Opcode.head? offset code with
    | none =>
      rw [Opcode.eq_lead_of_head?_none more found]
      exact dangling offset
    | some first =>
      have tiles := (Opcode.head?_eq_some found).2
      have shorter : code.length - first.size < code.length := by
        have size := Opcode.size_le_of_head? found
        have positive := first.size_pos
        omega
      have later := bytes_induction nil dangling opcode (offset + first.size)
        (code.drop first.size)
      rw [← tiles] at found ⊢
      exact opcode offset first _ (by simpa using found) later
termination_by code.length

/-- The opcodes in order, and at the end the error of a lead byte that is left over. -/
def items (listing : Listing) : List (Except ReadError Opcode) :=
  listing.opcodes.map .ok ++ (listing.dangling.map fun offset => .error (.midOpcode offset)).toList

@[simp] theorem items_cons (opcode : Opcode) (listing : Listing) :
    (listing.cons opcode).items = .ok opcode :: listing.items := rfl

end Listing

namespace Decoder

theorem next_of_rest_nil {decoder : Decoder} (done : decoder.cursor.rest = []) :
    decoder.next = (none, decoder) := by
  simp [next, Cursor.hasMore_eq, done]

theorem next_of_head? {decoder : Decoder} {opcode : Opcode} (running : decoder.failed = false)
    (found : Opcode.head? decoder.position decoder.cursor.rest = some opcode) :
    ∃ after : Decoder, decoder.next = (some (.ok opcode), after) ∧ after.failed = false ∧
      after.position = decoder.position + opcode.size ∧
      after.cursor.rest = decoder.cursor.rest.drop opcode.size := by
  obtain ⟨after, read, position, rest⟩ := Reader.opcode_of_head? found
  have more : decoder.cursor.rest ≠ [] := by
    intro empty
    simp [empty, Opcode.head?] at found
  refine ⟨⟨after, false⟩, ?_, rfl, position, rest⟩
  simp [next, running, Cursor.hasMore_eq, more, read]

theorem next_of_head?_none {decoder : Decoder} (running : decoder.failed = false)
    (more : decoder.cursor.rest ≠ [])
    (cut : Opcode.head? decoder.position decoder.cursor.rest = none) :
    decoder.next = (some (.error (.midOpcode decoder.position)), ⟨decoder.cursor, true⟩) := by
  simp [next, running, Cursor.hasMore_eq, more, Reader.opcode_of_head?_none cut, position]

theorem items_of_next_none {decoder after : Decoder} (polled : decoder.next = (none, after)) :
    decoder.items = [] := by
  rw [items]
  split <;> simp_all

theorem items_of_next_some {decoder after : Decoder} {item : Except ReadError Opcode}
    (polled : decoder.next = (some item, after)) : decoder.items = item :: after.items := by
  rw [items]
  split <;> simp_all

theorem items_of_failed {decoder : Decoder} (failed : decoder.failed = true) :
    decoder.items = [] :=
  items_of_next_none (show decoder.next = (none, decoder) by simp [next, failed])

theorem items_eq_items_listing (decoder : Decoder) (running : decoder.failed = false) :
    decoder.items = (Listing.ofBytes decoder.position decoder.cursor.rest).items := by
  by_cases more : decoder.cursor.rest = []
  · rw [items_of_next_none (next_of_rest_nil more), more]
    rfl
  · cases found : Opcode.head? decoder.position decoder.cursor.rest with
    | none =>
      have failed : (⟨decoder.cursor, true⟩ : Decoder).items = [] := items_of_failed rfl
      rw [items_of_next_some (next_of_head?_none running more found), failed,
        Opcode.eq_lead_of_head?_none more found]
      rfl
    | some opcode =>
      obtain ⟨after, read, stillRunning, position, rest⟩ := next_of_head? running found
      have shorter : after.budget < decoder.budget := budget_next_lt read
      rw [items_of_next_some read, Listing.ofBytes_of_head? found, Listing.items_cons,
        items_eq_items_listing after stillRunning, position, rest]
termination_by decoder.budget

theorem items_start (code : Bytes) : (start code).items = (Listing.ofBytes 0 code).items :=
  items_eq_items_listing (start code) rfl

end Decoder

end CilSketch
