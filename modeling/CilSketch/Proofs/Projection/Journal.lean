import CilSketch.Projection.Journal
import CilSketch.Proofs.Opcode.Boundaries
import CilSketch.Proofs.Opcode.Polling
import CilSketch.Proofs.Opcode.Tiling
import Mathlib.Data.List.Forall2

/-!
What the journal says about bodies, line by line. A body has one line, and the line is judged by the
code alone: the run of lead bytes at the end of the code decides which line it is, and the opcodes
that it counts fill the decoded part of the code, where those of two bytes count once more.
-/

set_option autoImplicit false

namespace CilSketch

namespace Decoder

/-- The opcodes that polling to the end gives. -/
def opcodes (decoder : Decoder) : List Opcode :=
  decoder.items.filterMap Except.toOption

theorem opcodes_start (code : Bytes) :
    (start code).opcodes = (Listing.ofBytes 0 code).opcodes := by
  have kept : ∀ opcodes : List Opcode, opcodes.filterMap
      (Except.toOption ∘ fun opcode => (.ok opcode : Except ReadError Opcode)) = opcodes := by
    intro opcodes
    exact List.filterMap_some
  rw [opcodes, items_start, Listing.items, List.filterMap_append, List.filterMap_map, kept]
  cases (Listing.ofBytes 0 code).dangling with
  | none => simp
  | some offset => simp [Except.toOption]

/-- How many opcodes of two bytes start before an offset. -/
def twoByteCount (decoder : Decoder) (offset : Nat) : Nat :=
  decoder.opcodes.countP fun opcode => opcode.size = 2 ∧ opcode.offset < offset

end Decoder

theorem Opcode.length_add_countP (opcodes : List Opcode) :
    opcodes.length + opcodes.countP (fun opcode => opcode.size = 2) =
      (opcodes.map Opcode.size).sum := by
  induction opcodes with
  | nil => rfl
  | cons opcode rest ih =>
    rw [List.length_cons, List.countP_cons, List.map_cons, List.sum_cons, ← ih]
    rcases opcode.size_eq_one_or_two with size | size <;> simp [size] <;> omega

namespace Listing

theorem offset_lt_of_mem {offset : Nat} {code : Bytes} {opcode : Opcode}
    (member : opcode ∈ (ofBytes offset code).opcodes) :
    opcode.offset < offset + ((ofBytes offset code).opcodes.map Opcode.size).sum := by
  induction offset, code using bytes_induction with
  | nil offset => simp [ofBytes] at member
  | dangling offset => simp [ofBytes] at member
  | opcode offset first rest found ih =>
    have positive := first.size_pos
    have starts : first.offset = offset := (Opcode.head?_eq_some found).1
    rw [ofBytes_bytes_append found, opcodes_cons] at member ⊢
    rw [List.map_cons, List.sum_cons]
    rcases List.mem_cons.mp member with rfl | later
    · omega
    · have bound := ih later
      omega

/-- Opcodes and opcodes of two bytes add up to where the opcodes end. -/
theorem length_add_twoByteCount {code : Bytes} {stop : Nat}
    (ends : ((ofBytes 0 code).opcodes.map Opcode.size).sum = stop) :
    (Decoder.start code).opcodes.length + (Decoder.start code).twoByteCount stop = stop := by
  rw [Decoder.twoByteCount, Decoder.opcodes_start]
  have allBefore : (ofBytes 0 code).opcodes.countP
        (fun opcode => opcode.size = 2 ∧ opcode.offset < stop) =
      (ofBytes 0 code).opcodes.countP fun opcode => opcode.size = 2 := by
    apply List.countP_congr
    intro opcode member
    have before := offset_lt_of_mem member
    rw [ends, Nat.zero_add] at before
    simp [before]
  rw [allBefore, Opcode.length_add_countP, ends]

end Listing

namespace JournalEntry

/-- Walking over opcodes only counts them. -/
theorem ofItems_opcodes_append (method : String) (decoded : Nat) (opcodes : List Opcode)
    (rest : List (Except ReadError Opcode)) :
    ofItems method decoded (opcodes.map .ok ++ rest) =
      ofItems method (decoded + opcodes.length) rest := by
  induction opcodes generalizing decoded with
  | nil => rfl
  | cons opcode others ih =>
    rw [List.map_cons, List.cons_append, ofItems, ih, List.length_cons, Nat.add_assoc,
      Nat.add_comm 1]

theorem line_projecting (type : String) (fields methods : Nat) :
    (projecting type fields methods).line =
      "DEBUG Projecting type '" ++ type ++ "' (" ++ fields.repr ++ " fields, " ++ methods.repr ++
        " methods)" := by
  unfold line severity message
  simp [← String.append_assoc]

theorem line_decoded (method : String) (opcodes : Nat) :
    (decoded method opcodes).line =
      "TRACE Decoded " ++ opcodes.repr ++ " opcodes in '" ++ method ++ "'" := by
  unfold line severity message
  simp [← String.append_assoc]

theorem line_abandoned_midOpcode (method : String) (opcodes offset : Nat) :
    (abandoned method opcodes (.midOpcode offset)).line =
      "WARN Abandoning body of '" ++ method ++ "' after " ++ opcodes.repr ++
        " opcodes: Method body ends mid-opcode at offset " ++ offset.repr := by
  have joined (front : String) :
      front ++ " opcodes: " ++ "Method body ends mid-opcode at offset " =
        front ++ " opcodes: Method body ends mid-opcode at offset " := by
    simp [String.append_assoc]
  unfold line severity message ReadError.message
  simp [← String.append_assoc, joined]

end JournalEntry

/-- What a line of the journal says about a body, judged by the code of the body. -/
inductive Body.LoggedAs (body : Body) (method line : String) : Prop where
  /-- Behind an even run of lead bytes nothing is left over, and the opcodes are all of the code. -/
  | decoded (opcodes : Nat) (run : Even (leadRun body.code))
      (stated : line = "TRACE Decoded " ++ opcodes.repr ++ " opcodes in '" ++ method ++ "'")
      (counted : opcodes = (Decoder.start body.code).opcodes.length)
      (filled : opcodes + (Decoder.start body.code).twoByteCount body.code.length =
        body.code.length)
  /-- The last byte of an odd run is left over, and the opcodes are all of the code before it. -/
  | abandoned (opcodes offset : Nat) (run : Odd (leadRun body.code))
      (stated : line = "WARN Abandoning body of '" ++ method ++ "' after " ++ opcodes.repr ++
        " opcodes: Method body ends mid-opcode at offset " ++ offset.repr)
      (isLast : offset + 1 = body.code.length)
      (counted : opcodes = (Decoder.start body.code).opcodes.length)
      (filled : opcodes + (Decoder.start body.code).twoByteCount offset = offset)

namespace Body

theorem journal_eq_ofItems (body : Body) (method : String) :
    body.journal method = .ofItems method (Decoder.start body.code).opcodes.length
      ((Listing.ofBytes 0 body.code).dangling.map fun offset =>
        .error (.midOpcode offset)).toList := by
  rw [journal, Decoder.items_start, Listing.items, JournalEntry.ofItems_opcodes_append,
    Decoder.opcodes_start, Nat.zero_add]

theorem loggedAs_journal (body : Body) (method : String) :
    body.LoggedAs method (body.journal method).line := by
  have run := Listing.isSome_dangling_iff 0 body.code
  have sizes : ((Listing.ofBytes 0 body.code).opcodes.map Opcode.size).sum =
      ((Listing.ofBytes 0 body.code).opcodes.flatMap Opcode.bytes).length := by
    simp [List.length_flatMap]
  rw [journal_eq_ofItems]
  rcases Listing.ofBytes_tiles 0 body.code with ⟨complete, tiles⟩ | ⟨dangling, tiles⟩
  · rw [complete] at run ⊢
    rw [tiles] at sizes
    refine .decoded _ ?_ (JournalEntry.line_decoded _ _) rfl ?_
    · simpa using run
    · exact Listing.length_add_twoByteCount sizes
  · have length := congrArg List.length tiles
    rw [List.length_append, List.length_singleton] at length
    rw [dangling] at run ⊢
    refine .abandoned _ _ ?_ (JournalEntry.line_abandoned_midOpcode _ _ _) ?_ rfl ?_
    · simpa using run
    · omega
    · apply Listing.length_add_twoByteCount
      omega

end Body

/-- The method has a body, and the line is about it. -/
def MethodDecl.LoggedAs (decl : MethodDecl) (line : String) : Prop :=
  ∃ body, decl.body = some body ∧ body.LoggedAs decl.name line

/-- The methods whose bodies are decoded, in order. -/
def TypeDecl.decodedMethods (decl : TypeDecl) (options : Options) : List MethodDecl :=
  if options.decodeBodies then decl.methods.filter MethodDecl.hasBody else []

theorem MethodDecl.journal_of_not_decodeBodies {options : Options}
    (skips : options.decodeBodies = false) (decl : MethodDecl) : decl.journal options = [] := by
  unfold journal
  split <;> simp [skips]

theorem MethodDecl.loggedAs_journals {options : Options} (decodes : options.decodeBodies = true)
    (methods : List MethodDecl) :
    List.Forall₂ LoggedAs (methods.filter hasBody)
      ((methods.flatMap fun method => method.journal options).map JournalEntry.line) := by
  induction methods with
  | nil => exact .nil
  | cons method rest ih =>
    cases found : method.body with
    | none => simpa [hasBody, found, journal] using ih
    | some body =>
      have first : method.LoggedAs (body.journal method.name).line :=
        ⟨body, found, body.loggedAs_journal method.name⟩
      simpa [hasBody, found, journal, decodes] using List.Forall₂.cons first ih

/-- The journal of a type starts with a line on what is projected. After that it has a line for each
body that is decoded, in the order of the methods, and the line is right about the code. -/
theorem journal_describes_bodies (decl : TypeDecl) (options : Options) :
    let fullName :=
      if decl.namespaceName = "" then decl.name else decl.namespaceName ++ "." ++ decl.name
    ∃ records : List String,
      (decl.journal options).map JournalEntry.line =
          ("DEBUG Projecting type '" ++ fullName ++ "' (" ++ decl.fields.length.repr ++
            " fields, " ++ decl.methods.length.repr ++ " methods)") :: records ∧
        List.Forall₂ MethodDecl.LoggedAs (decl.decodedMethods options) records := by
  intro fullName
  rw [TypeDecl.journal, List.map_cons, JournalEntry.line_projecting]
  refine ⟨_, rfl, ?_⟩
  unfold TypeDecl.decodedMethods
  cases decodes : options.decodeBodies with
  | true => exact MethodDecl.loggedAs_journals decodes decl.methods
  | false => simp [MethodDecl.journal_of_not_decodeBodies decodes]

/-- The second of three lead bytes belongs to an opcode, and the third is left over. -/
example : ((Body.ofCode [0xFE, 0xFE, 0xFE]).journal "Run").line =
    "WARN Abandoning body of 'Run' after 1 opcodes: Method body ends mid-opcode at offset 2" := by
  rw [Body.journal_eq_ofItems, Decoder.opcodes_start]
  decide

end CilSketch
