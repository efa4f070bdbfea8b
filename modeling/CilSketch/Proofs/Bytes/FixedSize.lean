import CilSketch.Proofs.Bytes.Reads

/-!
Reads of a fixed size. Such a read passes exactly its size, and that there are fewer bytes is its
only fault; reads one after the other are again one of their total size.
-/

set_option autoImplicit false

namespace CilSketch

/-- Why reading did not succeed, unless it did. -/
def faultOf {α : Type} : Except ReadError α → Option ReadError
  | .ok _ => none
  | .error cause => some cause

theorem faultOf_eq_some_iff {α : Type} {result : Except ReadError α} {cause : ReadError} :
    faultOf result = some cause ↔ result = .error cause := by
  cases result <;> simp [faultOf]

theorem faultOf_eq_none_iff {α : Type} {result : Except ReadError α} :
    faultOf result = none ↔ ∃ value, result = .ok value := by
  cases result <;> simp [faultOf]

namespace Reader

variable {α β : Type} {reader : Reader α} {next : α → Reader β} {cursor : Cursor} {count more : Nat}

/-- Why a read from the given position does not succeed, unless it does. -/
def fault? (reader : Reader α) (cursor : Cursor) : Option ReadError :=
  match reader cursor with
  | .ok _ _ => none
  | .error cause _ => some cause

theorem faultOf_readFrom (reader : Reader α) (data : Bytes) :
    faultOf (reader.readFrom data) = reader.fault? (Cursor.start data) := by
  unfold readFrom fault?
  cases reader (Cursor.start data) <;> rfl

theorem fault?_bind_of_ok {middle : Cursor} {value : α} (read : reader cursor = .ok value middle) :
    (reader >>= next).fault? cursor = (next value).fault? middle := by
  rw [fault?, bind_of_ok read]
  rfl

theorem fault?_bind_of_fault {cause : ReadError} (failed : reader.fault? cursor = some cause) :
    (reader >>= next).fault? cursor = some cause := by
  unfold fault? at failed ⊢
  cases read : reader cursor with
  | ok value middle =>
    rw [read] at failed
    cases failed
  | error found after =>
    rw [read] at failed
    rw [bind_of_error read]
    exact failed

/-- A read that takes one number of bytes wherever it starts. -/
structure Takes (reader : Reader α) (count : Nat) : Prop where
  passes : ∀ {cursor after value}, reader cursor = .ok value after →
    ∃ bytes : Bytes, bytes.length = count ∧ cursor.Passes bytes after
  short : ∀ {cursor after cause}, reader cursor = .error cause after →
    cause = .outOfBounds ∧ cursor.remaining < count

theorem takes_pure (value : α) : Takes (pure value) 0 where
  passes given := by
    obtain ⟨-, rfl⟩ := pure_eq_ok_iff.mp given
    exact ⟨[], rfl, rfl, rfl, rfl⟩
  short failed := by cases failed

theorem takes_advance (count : Nat) : Takes (advance count) count where
  passes given := advance_eq_ok_iff.mp given
  short failed := by
    obtain ⟨short, rfl, -⟩ := advance_eq_error_iff.mp failed
    exact ⟨rfl, Nat.sub_lt_left_of_lt_add (Cursor.position_le _) short⟩

theorem takes_bytes (count : Nat) : Takes (bytes count) count where
  passes given := ⟨_, bytes_eq_ok_iff.mp given⟩
  short failed := by
    obtain ⟨short, rfl, -⟩ := bytes_eq_error_iff.mp failed
    exact ⟨rfl, Nat.sub_lt_left_of_lt_add (Cursor.position_le _) short⟩

theorem takes_scalar (kind : Scalar) : Takes (scalar kind) kind.width where
  passes given := ⟨_, kind.length_encode _, scalar_eq_ok_iff.mp given⟩
  short failed := by
    obtain ⟨short, rfl, -⟩ := scalar_eq_error_iff.mp failed
    exact ⟨rfl, Nat.sub_lt_left_of_lt_add (Cursor.position_le _) short⟩

namespace Takes

theorem bind (first : Takes reader count) (second : ∀ value, Takes (next value) more) :
    Takes (reader >>= next) (count + more) where
  passes given := by
    obtain ⟨value, middle, read, later⟩ := bind_eq_ok_iff.mp given
    obtain ⟨front, frontSize, passesFront⟩ := first.passes read
    obtain ⟨back, backSize, passesBack⟩ := (second value).passes later
    exact ⟨front ++ back, by rw [List.length_append, frontSize, backSize],
      passesFront.append passesBack⟩
  short failed := by
    obtain failed | ⟨value, middle, read, later⟩ := bind_eq_error_iff.mp failed
    · obtain ⟨rfl, short⟩ := first.short failed
      exact ⟨rfl, Nat.lt_add_right more short⟩
    · obtain ⟨front, frontSize, passesFront⟩ := first.passes read
      obtain ⟨rfl, short⟩ := (second value).short later
      refine ⟨rfl, ?_⟩
      rw [← Cursor.length_rest, passesFront.rest_eq, List.length_append, Cursor.length_rest]
      omega

theorem exists_ok (takes : Takes reader count) (cursor : Cursor)
    (enough : count ≤ cursor.remaining) : ∃ value after, reader cursor = .ok value after := by
  cases read : reader cursor with
  | ok value after => exact ⟨value, after, rfl⟩
  | error cause after => exact absurd enough (Nat.not_le_of_lt (takes.short read).2)

theorem fault?_eq (takes : Takes reader count) (cursor : Cursor) :
    reader.fault? cursor = if cursor.remaining < count then some .outOfBounds else none := by
  unfold fault?
  cases read : reader cursor with
  | ok value after =>
    obtain ⟨bytes, sized, passes⟩ := takes.passes read
    have fits := passes.length_le_remaining
    rw [if_neg (by omega)]
  | error cause after =>
    obtain ⟨rfl, short⟩ := takes.short read
    rw [if_pos short]

end Takes

/-- A scalar decides the outcome if nothing else is read. -/
theorem readFrom_scalar_bind (kind : Scalar) (judge : kind.Value → Except ReadError α)
    (data : Bytes) :
    (scalar kind >>= fun value => ofExcept (judge value) : Reader α).readFrom data =
      if data.length < kind.width then .error .outOfBounds
      else judge (kind.decode (data.take kind.width)) := by
  by_cases short : data.length < kind.width
  · have failed : (scalar kind).fault? (Cursor.start data) = some .outOfBounds := by
      rw [(takes_scalar kind).fault?_eq]
      exact if_pos short
    rw [if_pos short, ← faultOf_eq_some_iff, faultOf_readFrom, fault?_bind_of_fault failed]
  · have sized : (data.take kind.width).length = kind.width :=
      List.length_take_of_le (Nat.le_of_not_lt short)
    have starts : (Cursor.start data).rest = data.take kind.width ++ data.drop kind.width :=
      (List.take_append_drop kind.width data).symm
    obtain ⟨after, passes, -⟩ := Cursor.exists_passes starts
    rw [← kind.encode_decode sized] at passes
    rw [if_neg short, readFrom, bind_of_ok (scalar_eq_ok_iff.mpr passes)]
    cases judge (kind.decode (data.take kind.width)) <;> rfl

end Reader

end CilSketch
