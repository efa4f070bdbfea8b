import CilSketch.Constant
import CilSketch.Event
import CilSketch.Number.Shortest
import CilSketch.Projection.Options

/-!
Constants as literals of projected source.
-/

set_option autoImplicit false

namespace CilSketch

structure Literal where
  text : String
  /-- Numbers and unknown constants have no style. -/
  category : Option StyleCategory
  deriving DecidableEq, Repr

namespace Literal

/-- A quote takes a backslash; nothing else changes, a backslash included. -/
def escapeQuotes : List Char → List Char
  | [] => []
  | '"' :: rest => '\\' :: '"' :: escapeQuotes rest
  | c :: rest => c :: escapeQuotes rest

def quoted (text : String) : String :=
  String.ofList ('"' :: escapeQuotes text.toList ++ ['"'])

/-- The control characters: both blocks of them, and the one between. -/
def isControl (c : Char) : Bool :=
  c.toNat < 0x20 || 0x7F ≤ c.toNat && c.toNat < 0xA0

/-- A control character without an escape of its own is written by its number. -/
def escapeChar (c : Char) : String :=
  match c with
  | '\'' => "\\'"
  | '\\' => "\\\\"
  | '\n' => "\\n"
  | '\r' => "\\r"
  | '\t' => "\\t"
  | '\x00' => "\\0"
  | c => if isControl c then "\\u\x7b" ++ Digits.hex 4 c.toNat ++ "\x7d" else c.toString

def charText (options : Options) (c : Char) : String :=
  "'" ++ (if options.escapeChars then escapeChar c else c.toString) ++ "'"

def ofConstant (options : Options) : Constant → Literal
  | .string text => ⟨quoted text, some .string⟩
  | .char c => ⟨charText options c, some .string⟩
  | .boolean flag => ⟨if flag then "true" else "false", some .keyword⟩
  | .integer number => ⟨number.toInt.repr, none⟩
  | .unsigned number => ⟨number.toNat.repr, none⟩
  | .single number => ⟨number.toText, none⟩
  | .double number => ⟨number.toText, none⟩
  | .other text => ⟨text, none⟩

def project (literal : Literal) : Trace :=
  match literal.category with
  | some category => [.beginSpan category.style, .text literal.text, .endSpan]
  | none => [.text literal.text]

end Literal

end CilSketch
