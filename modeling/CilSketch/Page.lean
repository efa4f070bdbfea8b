import CilSketch.Event
import CilSketch.Text.Slice

/-!
A page: indented text together with an index of its foldable regions, styled spans and references,
all by byte offset. Indentation is written late, before the first thing that stands on a line, so
that a blank line stays empty and a block may close at the start of a line.
-/

set_option autoImplicit false

namespace CilSketch

structure Fold where
  start : Nat
  stop : Nat
  startLine : Nat
  stopLine : Nat
  deriving DecidableEq, Repr

structure Span where
  start : Nat
  stop : Nat
  style : Style
  deriving DecidableEq, Repr

structure Reference where
  start : Nat
  stop : Nat
  target : String
  isDefinition : Bool
  deriving DecidableEq, Repr

structure OpenFold where
  start : Nat
  startLine : Nat
  deriving DecidableEq, Repr

structure OpenSpan where
  style : Style
  start : Nat
  deriving DecidableEq, Repr

structure Page where
  /-- What one level of indentation adds to a line. -/
  unit : String
  text : String := ""
  level : Nat := 0
  atLineStart : Bool := true
  /-- Lines count from one. -/
  line : Nat := 1
  /-- The innermost comes first. -/
  openFolds : List OpenFold := []
  /-- In the order in which they were closed. -/
  folds : List Fold := []
  /-- The innermost comes first. -/
  openSpans : List OpenSpan := []
  /-- In the order in which they were closed. -/
  spans : List Span := []
  references : List Reference := []
  /-- Whether something was closed that was not open; never taken back. -/
  overclosed : Bool := false
  deriving DecidableEq, Repr

namespace Page

def blank (unit : String) : Page :=
  { unit }

/-- The unit of indentation where none is asked for. -/
def defaultUnit : String := "    "

def size (page : Page) : Nat :=
  page.text.utf8ByteSize

/-- What an indentation of some levels consists of. -/
def indentation (unit : String) : Nat → String
  | 0 => ""
  | level + 1 => unit ++ indentation unit level

/-- Writes the indentation of the line, if the line has none yet. -/
def startLine (page : Page) : Page :=
  if page.atLineStart then
    { page with text := page.text ++ indentation page.unit page.level, atLineStart := false }
  else
    page

/-- What starting the line would write now. -/
def pendingIndentation (page : Page) : String :=
  if page.atLineStart then indentation page.unit page.level else ""

theorem startLine_eq (page : Page) :
    page.startLine =
      { page with text := page.text ++ page.pendingIndentation, atLineStart := false } := by
  unfold startLine pendingIndentation
  split
  · rfl
  · cases page
    simp_all

def append (page : Page) (text : String) : Page :=
  { page with text := page.text ++ text }

def addReference (page : Page) (target text : String) (isDefinition : Bool) : Page :=
  let written := page.append text
  { written with
    references := page.references ++ [⟨page.size, written.size, target, isDefinition⟩] }

/-- Empty text does not start a line, but an empty reference and a span do. -/
def step (page : Page) : Event → Page
  | .text text => if text = "" then page else page.startLine.append text
  | .lineBreak => { page.append "\n" with atLineStart := true, line := page.line + 1 }
  | .reference target text isDefinition => page.startLine.addReference target text isDefinition
  | .beginSpan style =>
      let started := page.startLine
      { started with openSpans := ⟨style, started.size⟩ :: started.openSpans }
  | .endSpan =>
      match page.openSpans with
      | span :: outer =>
          { page with
            openSpans := outer, spans := page.spans ++ [⟨span.start, page.size, span.style⟩] }
      | [] => { page with overclosed := true }
  | .indent => { page with level := page.level + 1 }
  | .unindent =>
      match page.level with
      | level + 1 => { page with level }
      | 0 => { page with overclosed := true }
  | .foldStart => { page with openFolds := ⟨page.size, page.line⟩ :: page.openFolds }
  | .foldEnd =>
      match page.openFolds with
      | fold :: outer =>
          { page with
            openFolds := outer
            folds := page.folds ++ [⟨fold.start, page.size, fold.startLine, page.line⟩] }
      | [] => { page with overclosed := true }

def play (page : Page) (trace : Trace) : Page :=
  trace.foldl step page

@[simp] theorem play_nil (page : Page) : page.play [] = page := rfl

@[simp] theorem play_cons (page : Page) (event : Event) (rest : Trace) :
    page.play (event :: rest) = (page.step event).play rest := rfl

theorem play_append (page : Page) (a b : Trace) : page.play (a ++ b) = (page.play a).play b := by
  simp [play]

/-- The text between two offsets; offsets that mark no part give the empty text. -/
def slice (page : Page) (start stop : Nat) : String :=
  (slice? page.text start stop).getD ""

def definitions (page : Page) : List Reference :=
  page.references.filter fun reference => reference.isDefinition

def isBalanced (page : Page) : Bool :=
  !page.overclosed && page.openFolds.isEmpty && page.openSpans.isEmpty && page.level == 0

end Page

end CilSketch
