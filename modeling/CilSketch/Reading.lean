import CilSketch.Opcode.Decoder

/-!
Reads as data. A session of reads shares one cursor, and a failed read does not end it: the next
one starts wherever the failure left the cursor.
-/

set_option autoImplicit false

namespace CilSketch

inductive ReadStep where
  | scalar (kind : Scalar)
  | peek
  | seek (position : Nat)
  | advance (count : Nat)
  | bytes (count : Nat)
  | endPosition (count : Nat)
  | utf16ToEnd
  | opcode
  deriving DecidableEq, Repr

namespace ReadStep

abbrev Result : ReadStep → Type
  | .scalar kind => kind.Value
  | .peek => UInt8
  | .seek _ => Unit
  | .advance _ => Unit
  | .bytes _ => Bytes
  | .endPosition _ => Nat
  | .utf16ToEnd => String
  | .opcode => Opcode

def reader : (step : ReadStep) → Reader step.Result
  | .scalar kind => Reader.scalar kind
  | .peek => Reader.peek
  | .seek position => Reader.seek position
  | .advance count => Reader.advance count
  | .bytes count => Reader.bytes count
  | .endPosition count => Reader.endPosition count
  | .utf16ToEnd => Reader.utf16ToEnd
  | .opcode => Reader.opcode

end ReadStep

/-- A performed read: what it gave, and the cursor after it. -/
structure Reading where
  step : ReadStep
  result : Except ReadError step.Result
  after : Cursor

namespace Reading

def perform (cursor : Cursor) (step : ReadStep) : Reading :=
  match step.reader cursor with
  | .ok value after => ⟨step, .ok value, after⟩
  | .error cause after => ⟨step, .error cause, after⟩

def session (cursor : Cursor) : List ReadStep → List Reading
  | [] => []
  | step :: rest =>
      let reading := perform cursor step
      reading :: session reading.after rest

end Reading

end CilSketch
