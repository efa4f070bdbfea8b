import CilSketch.Bytes.Scalar
import CilSketch.Error
import CilSketch.Text.Utf16

/-!
A position in a blob and the reads that move it. A read is a `Reader`, which keeps the cursor also
where it fails: apart from text with an unpaired surrogate, a failed read leaves the cursor where
it was.
-/

set_option autoImplicit false

namespace CilSketch

structure Cursor where
  data : Bytes
  position : Nat
  position_le : position ≤ data.length

namespace Cursor

def start (data : Bytes) : Cursor :=
  ⟨data, 0, Nat.zero_le _⟩

def atEnd (cursor : Cursor) : Cursor :=
  ⟨cursor.data, cursor.data.length, Nat.le_refl _⟩

def rest (cursor : Cursor) : Bytes :=
  cursor.data.drop cursor.position

def remaining (cursor : Cursor) : Nat :=
  cursor.data.length - cursor.position

def hasMore (cursor : Cursor) : Bool :=
  cursor.position < cursor.data.length

@[simp] theorem length_rest (cursor : Cursor) : cursor.rest.length = cursor.remaining := by
  simp [rest, remaining]

theorem position_add_remaining (cursor : Cursor) :
    cursor.position + cursor.remaining = cursor.data.length :=
  Nat.add_sub_of_le cursor.position_le

theorem hasMore_eq (cursor : Cursor) : cursor.hasMore = decide (cursor.rest ≠ []) := by
  simp [hasMore, rest]

end Cursor

abbrev Reader := EStateM ReadError Cursor

namespace Reader

theorem bind_of_ok {α β : Type} {reader : Reader α} {next : α → Reader β} {cursor after : Cursor}
    {value : α} (read : reader cursor = .ok value after) :
    (reader >>= next) cursor = next value after := by
  simp only [bind, EStateM.bind, read]

theorem get_apply (cursor : Cursor) : (get : Reader Cursor) cursor = .ok cursor cursor := rfl

theorem bind_of_error {α β : Type} {reader : Reader α} {next : α → Reader β}
    {cursor after : Cursor} {cause : ReadError} (read : reader cursor = .error cause after) :
    (reader >>= next) cursor = .error cause after := by
  simp only [bind, EStateM.bind, read]

theorem adaptExcept_of_ok {α : Type} {reader : Reader α} {report : ReadError → ReadError}
    {cursor after : Cursor} {value : α} (read : reader cursor = .ok value after) :
    reader.adaptExcept report cursor = .ok value after := by
  simp only [EStateM.adaptExcept, read]

theorem adaptExcept_of_error {α : Type} {reader : Reader α} {report : ReadError → ReadError}
    {cursor after : Cursor} {cause : ReadError} (read : reader cursor = .error cause after) :
    reader.adaptExcept report cursor = .error (report cause) after := by
  simp only [EStateM.adaptExcept, read]

/-- The outcome of a read from the start of a blob. -/
def readFrom {α : Type} (reader : Reader α) (data : Bytes) : Except ReadError α :=
  match reader (Cursor.start data) with
  | .ok value _ => .ok value
  | .error cause _ => .error cause

/-- Where the cursor would stand after `count` more bytes. Sizes do not wrap. -/
def endPosition (count : Nat) : Reader Nat := fun cursor =>
  if cursor.position + count ≤ cursor.data.length then
    .ok (cursor.position + count) cursor
  else
    .error .outOfBounds cursor

def advance (count : Nat) : Reader Unit := fun cursor =>
  if within : cursor.position + count ≤ cursor.data.length then
    .ok () ⟨cursor.data, cursor.position + count, within⟩
  else
    .error .outOfBounds cursor

theorem advance_of_le {cursor : Cursor} {count : Nat}
    (within : cursor.position + count ≤ cursor.data.length) :
    advance count cursor = .ok () ⟨cursor.data, cursor.position + count, within⟩ := by
  simp [advance, within]

theorem advance_of_lt {cursor : Cursor} {count : Nat}
    (short : cursor.data.length < cursor.position + count) :
    advance count cursor = .error .outOfBounds cursor := by
  simp [advance, Nat.not_le_of_lt short]

/-- Moves to a byte of the blob, so the end itself is refused. -/
def seek (position : Nat) : Reader Unit := fun cursor =>
  if within : position < cursor.data.length then
    .ok () ⟨cursor.data, position, Nat.le_of_lt within⟩
  else
    .error .outOfBounds cursor

def peek : Reader UInt8 := fun cursor =>
  match cursor.rest with
  | byte :: _ => .ok byte cursor
  | [] => .error .outOfBounds cursor

theorem peek_of_rest_cons {cursor : Cursor} {byte : UInt8} {rest : Bytes}
    (starts : cursor.rest = byte :: rest) : peek cursor = .ok byte cursor := by
  simp [peek, starts]

theorem peek_of_rest_nil {cursor : Cursor} (done : cursor.rest = []) :
    peek cursor = .error .outOfBounds cursor := by
  simp [peek, done]

def bytes (count : Nat) : Reader Bytes := do
  let before ← get
  advance count
  return before.rest.take count

def scalar (kind : Scalar) : Reader kind.Value := do
  return kind.decode (← bytes kind.width)

theorem bytes_of_le {cursor : Cursor} {count : Nat}
    (within : cursor.position + count ≤ cursor.data.length) :
    bytes count cursor =
      .ok (cursor.rest.take count) ⟨cursor.data, cursor.position + count, within⟩ := by
  rw [bytes, bind_of_ok (get_apply cursor), bind_of_ok (advance_of_le within)]
  rfl

theorem bytes_of_lt {cursor : Cursor} {count : Nat}
    (short : cursor.data.length < cursor.position + count) :
    bytes count cursor = .error .outOfBounds cursor := by
  rw [bytes, bind_of_ok (get_apply cursor)]
  exact bind_of_error (advance_of_lt short)

theorem remaining_lt_of_scalar {kind : Scalar} {cursor after : Cursor} {value : kind.Value}
    (read : scalar kind cursor = .ok value after) : after.remaining < cursor.remaining := by
  by_cases within : cursor.position + kind.width ≤ cursor.data.length
  · rw [scalar, bind_of_ok (bytes_of_le within)] at read
    obtain ⟨-, rfl⟩ := EStateM.Result.ok.inj read
    have positive := kind.width_pos
    simp only [Cursor.remaining]
    omega
  · rw [scalar, bind_of_error (bytes_of_lt (Nat.lt_of_not_le within))] at read
    cases read

/-- The units up to the end, read one by one. -/
def unitsToEnd (cursor : Cursor) : EStateM.Result ReadError Cursor (List UInt16) :=
  if cursor.hasMore then
    match _ : scalar .uint16 cursor with
    | .ok unit after =>
        match unitsToEnd after with
        | .ok units last => .ok (unit :: units) last
        | .error cause last => .error cause last
    | .error cause after => .error cause after
  else
    .ok [] cursor
termination_by cursor.remaining
decreasing_by exact remaining_lt_of_scalar (by assumption)

/-- Reads all that is left as UTF-16 text. Units are consumed before they are judged, so an unpaired
surrogate leaves the cursor at the end; an odd length is refused before that. -/
def utf16ToEnd : Reader String := do
  let length := (← get).remaining
  if length % 2 = 0 then
    let units ← unitsToEnd
    match Utf16.decode units with
    | some text => return String.ofList text
    | none => throw (.malformed (.unpairedSurrogate units))
  else
    throw (.malformed (.oddUtf16Length length))

end Reader

end CilSketch
