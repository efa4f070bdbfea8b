import CilSketch.Declaration.Basic
import CilSketch.Style

/-!
Projected source as a trace of events: text, references, and the opening and closing of spans,
blocks and foldable regions. A trace knows nothing of columns and offsets; those belong to a page.
-/

set_option autoImplicit false

namespace CilSketch

inductive Event where
  | text (text : String)
  | lineBreak
  | reference (target text : String) (isDefinition : Bool)
  | beginSpan (style : Style)
  | endSpan
  | indent
  | unindent
  | foldStart
  | foldEnd
  deriving DecidableEq, Repr

namespace Event

def referTo (entity : Entity) (text : String) (isDefinition : Bool) : Event :=
  .reference entity.target text isDefinition

/-- What an event adds to the text. -/
def written : Event → String
  | .text shown => shown
  | .reference _ shown _ => shown
  | .lineBreak => "\n"
  | _ => ""

end Event

abbrev Trace := List Event

/-- How many spans, blocks and foldable regions are open. -/
structure Depths where
  spans : Nat := 0
  blocks : Nat := 0
  folds : Nat := 0
  deriving DecidableEq, Repr

namespace Depths

/-- There are no depths after something was closed that was not open. -/
def step (depths : Depths) : Event → Option Depths
  | .beginSpan _ => some { depths with spans := depths.spans + 1 }
  | .indent => some { depths with blocks := depths.blocks + 1 }
  | .foldStart => some { depths with folds := depths.folds + 1 }
  | .endSpan => if depths.spans = 0 then none else some { depths with spans := depths.spans - 1 }
  | .unindent =>
      if depths.blocks = 0 then none else some { depths with blocks := depths.blocks - 1 }
  | .foldEnd => if depths.folds = 0 then none else some { depths with folds := depths.folds - 1 }
  | .text _ | .lineBreak | .reference .. => some depths

end Depths

namespace Trace

/-- The text without any indentation. -/
def text : Trace → String
  | [] => ""
  | event :: rest => event.written ++ text rest

@[simp] theorem text_nil : text [] = "" := rfl

@[simp] theorem text_cons (event : Event) (rest : Trace) :
    text (event :: rest) = event.written ++ text rest := rfl

@[simp] theorem text_append (a b : Trace) : text (a ++ b) = text a ++ text b := by
  induction a with
  | nil => simp
  | cons event rest ih => simp [ih, String.append_assoc]

/-- Every written token with the style of the innermost open span. A stray end of a span closes
nothing. -/
def tokensWithin (styles : List Style) : Trace → List (Option Style × String)
  | [] => []
  | .beginSpan style :: rest => tokensWithin (style :: styles) rest
  | .endSpan :: rest => tokensWithin styles.tail rest
  | .text shown :: rest => (styles.head?, shown) :: tokensWithin styles rest
  | .reference _ shown _ :: rest => (styles.head?, shown) :: tokensWithin styles rest
  | _ :: rest => tokensWithin styles rest

def styledTokens (trace : Trace) : List (Option Style × String) :=
  tokensWithin [] trace

/-- Whether everything is closed at the end, and nothing was closed that was not open. -/
def isBalanced (trace : Trace) : Bool :=
  trace.foldlM Depths.step {} == some {}

end Trace

end CilSketch
