import CilSketch.Opcode.Decoder
import CilSketch.Projection.Options

/-!
What a projection reports besides its source. The code of a body leaves no trace in source, so the
journal is where decoding it shows.
-/

set_option autoImplicit false

namespace CilSketch

inductive JournalEntry where
  | projecting (type : String) (fields methods : Nat)
  | decoded (method : String) (opcodes : Nat)
  | abandoned (method : String) (opcodes : Nat) (cause : ReadError)
  deriving DecidableEq, Repr

namespace JournalEntry

def severity : JournalEntry → String
  | .projecting .. => "DEBUG"
  | .decoded .. => "TRACE"
  | .abandoned .. => "WARN"

def message : JournalEntry → String
  | .projecting type fields methods =>
      "Projecting type '" ++ type ++ "' (" ++ fields.repr ++ " fields, " ++ methods.repr ++
        " methods)"
  | .decoded method opcodes => "Decoded " ++ opcodes.repr ++ " opcodes in '" ++ method ++ "'"
  | .abandoned method opcodes cause =>
      "Abandoning body of '" ++ method ++ "' after " ++ opcodes.repr ++ " opcodes: " ++
        cause.message

def line (entry : JournalEntry) : String :=
  entry.severity ++ " " ++ entry.message

/-- Counts opcodes up to the end of the items, or up to the first error. -/
def ofItems (method : String) (decoded : Nat) : List (Except ReadError Opcode) → JournalEntry
  | [] => .decoded method decoded
  | .ok _ :: rest => ofItems method (decoded + 1) rest
  | .error cause :: _ => .abandoned method decoded cause

end JournalEntry

/-- The outcome of decoding a body to its end. -/
def Body.journal (body : Body) (method : String) : JournalEntry :=
  .ofItems method 0 (Decoder.start body.code).items

def MethodDecl.journal (decl : MethodDecl) (options : Options) : List JournalEntry :=
  match decl.body with
  | some body => if options.decodeBodies then [body.journal decl.name] else []
  | none => []

def TypeDecl.journal (decl : TypeDecl) (options : Options) : List JournalEntry :=
  .projecting decl.fullName decl.fields.length decl.methods.length ::
    decl.methods.flatMap fun method => method.journal options

end CilSketch
