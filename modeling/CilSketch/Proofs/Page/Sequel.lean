import CilSketch.Proofs.Page.Indentation
import CilSketch.Proofs.Page.Nesting
import Mathlib.Algebra.Ring.Nat

/-!
Playing a trace behind finished text. On a page where nothing is open and a line is about to start,
a trace does what it does on a blank page, only that all positions are moved by the bytes and lines
that stand before. Traces that leave every such page in this state again can therefore be played one
after the other or each on a page of its own.
-/

set_option autoImplicit false

namespace CilSketch

/-- How far things are moved on a page. -/
structure Shift where
  bytes : Nat
  lines : Nat
  deriving DecidableEq, Repr

def Fold.shifted (shift : Shift) (fold : Fold) : Fold where
  start := fold.start + shift.bytes
  stop := fold.stop + shift.bytes
  startLine := fold.startLine + shift.lines
  stopLine := fold.stopLine + shift.lines

def Span.shifted (shift : Shift) (span : Span) : Span where
  start := span.start + shift.bytes
  stop := span.stop + shift.bytes
  style := span.style

def Reference.shifted (shift : Shift) (reference : Reference) : Reference where
  start := reference.start + shift.bytes
  stop := reference.stop + shift.bytes
  target := reference.target
  isDefinition := reference.isDefinition

def OpenFold.shifted (shift : Shift) (fold : OpenFold) : OpenFold where
  start := fold.start + shift.bytes
  startLine := fold.startLine + shift.lines

def OpenSpan.shifted (shift : Shift) (span : OpenSpan) : OpenSpan where
  style := span.style
  start := span.start + shift.bytes

namespace Page

/-- How far a page moves what comes behind it. The line that it stands on is not full yet. -/
def shift (page : Page) : Shift where
  bytes := page.size
  lines := page.line - 1

/-- A page with finished text in front of it. -/
def behind (front page : Page) : Page where
  unit := page.unit
  text := front.text ++ page.text
  level := page.level
  atLineStart := page.atLineStart
  line := page.line + front.shift.lines
  openFolds := page.openFolds.map (.shifted front.shift)
  folds := front.folds ++ page.folds.map (.shifted front.shift)
  openSpans := page.openSpans.map (.shifted front.shift)
  spans := front.spans ++ page.spans.map (.shifted front.shift)
  references := front.references ++ page.references.map (.shifted front.shift)
  overclosed := page.overclosed

section Behind

variable (front page : Page)

theorem size_behind : (front.behind page).size = page.size + front.shift.bytes := by
  rw [size, behind, String.utf8ByteSize_append, Nat.add_comm]
  rfl

theorem startLine_behind : (front.behind page).startLine = front.behind page.startLine := by
  simp [startLine_eq, behind, pendingIndentation, String.append_assoc]

theorem append_behind (text : String) :
    (front.behind page).append text = front.behind (page.append text) := by
  simp [append, behind, String.append_assoc]

theorem addReference_behind (target text : String) (isDefinition : Bool) :
    (front.behind page).addReference target text isDefinition =
      front.behind (page.addReference target text isDefinition) := by
  simp only [addReference, append_behind, size_behind]
  simp [behind, append, Reference.shifted]

/-- All nine events do behind finished text what they do without it. -/
theorem step_behind (event : Event) :
    (front.behind page).step event = front.behind (page.step event) := by
  cases event with
  | text shown =>
    simp only [step]
    split
    · rfl
    · rw [startLine_behind, append_behind]
  | lineBreak =>
    simp only [step, append_behind]
    simp [behind, append, Nat.add_right_comm]
  | reference target shown isDefinition =>
    simp only [step, startLine_behind, addReference_behind]
  | beginSpan style =>
    simp only [step, startLine_behind, size_behind]
    simp [behind, OpenSpan.shifted]
  | endSpan =>
    cases opened : page.openSpans with
    | nil => simp [step, behind, opened]
    | cons span outer =>
      have size := size_behind front page
      simpa [step, behind, opened, Span.shifted, OpenSpan.shifted] using size
  | indent => rfl
  | unindent =>
    cases level : page.level with
    | zero => simp [step, behind, level]
    | succ level => simp [step, behind, level]
  | foldStart =>
    simp only [step, size_behind]
    simp [behind, OpenFold.shifted]
  | foldEnd =>
    cases opened : page.openFolds with
    | nil => simp [step, behind, opened]
    | cons fold outer =>
      have size := size_behind front page
      simpa [step, behind, opened, Fold.shifted, OpenFold.shifted] using size

theorem play_behind (trace : Trace) :
    (front.behind page).play trace = front.behind (page.play trace) := by
  induction trace generalizing page with
  | nil => rfl
  | cons event rest ih => rw [play_cons, step_behind, ih, play_cons]

end Behind

theorem line_play (page : Page) (trace : Trace) :
    (page.play trace).line = page.line + trace.lineBreaks := by
  induction trace generalizing page with
  | nil => rfl
  | cons event rest ih =>
    have counted : Trace.lineBreaks (event :: rest) =
        Trace.lineBreaks [event] + Trace.lineBreaks rest := by
      rw [← List.singleton_append]
      exact List.count_append
    rw [play_cons, ih, line_step, counted, Nat.add_assoc]

theorem unit_play (page : Page) (trace : Trace) : (page.play trace).unit = page.unit := by
  induction trace generalizing page with
  | nil => rfl
  | cons event rest ih => rw [play_cons, ih, unit_step]

end Page

namespace Trace

/-- Where a line was about to start before the trace, one is about to start after it. -/
def KeepsLineStart (trace : Trace) : Prop :=
  ∀ page : Page, page.atLineStart = true → (page.play trace).atLineStart = true

namespace KeepsLineStart

theorem nil : KeepsLineStart [] := by
  intro page starts
  exact starts

theorem append {a b : Trace} (left : KeepsLineStart a) (right : KeepsLineStart b) :
    KeepsLineStart (a ++ b) := by
  intro page starts
  rw [Page.play_append]
  exact right _ (left page starts)

theorem flatMap {α : Type} {items : List α} {project : α → Trace}
    (keeps : ∀ item, KeepsLineStart (project item)) : KeepsLineStart (items.flatMap project) := by
  induction items with
  | nil => exact .nil
  | cons item rest ih =>
    rw [List.flatMap_cons]
    exact (keeps item).append ih

end KeepsLineStart

/-- A line is about to start after the trace, wherever it began. -/
def EndsLine (trace : Trace) : Prop :=
  ∀ page : Page, (page.play trace).atLineStart = true

namespace EndsLine

variable {trace : Trace}

theorem keepsLineStart (ends : EndsLine trace) : KeepsLineStart trace := by
  intro page _
  exact ends page

theorem after (ends : EndsLine trace) (front : Trace) : EndsLine (front ++ trace) := by
  intro page
  rw [Page.play_append]
  exact ends _

end EndsLine

/-- A trace that closes what it opens and nothing else, and that ends at the start of a line if it
began there. -/
structure SelfContained (trace : Trace) : Prop where
  nested : trace.Nested
  keepsLineStart : trace.KeepsLineStart

end Trace

namespace Page

/-- A page on which nothing is open, nothing was closed in vain, and a line is about to start. -/
structure AtRest (unit : String) (page : Page) : Prop where
  unit_eq : page.unit = unit
  atLineStart : page.atLineStart = true
  line_pos : 0 < page.line
  sameOpen : (blank unit).SameOpen page

namespace AtRest

variable {unit : String} {page : Page}

theorem blank (unit : String) : AtRest unit (blank unit) :=
  ⟨rfl, rfl, Nat.one_pos, rfl, rfl, rfl, rfl⟩

theorem behind_blank (atRest : AtRest unit page) : page.behind (.blank unit) = page := by
  obtain ⟨rfl, atLineStart, linePos, level, openFolds, openSpans, overclosed⟩ := atRest
  obtain ⟨unit, text, _, _, line, _, folds, _, spans, references, _⟩ := page
  simp only at atLineStart linePos level openFolds openSpans overclosed
  subst atLineStart level openFolds openSpans overclosed
  have lines : 1 + (line - 1) = line := by omega
  simp [behind, Page.blank, shift, lines]

theorem play (atRest : AtRest unit page) {trace : Trace} (contained : trace.SelfContained) :
    AtRest unit (page.play trace) where
  unit_eq := by rw [unit_play, atRest.unit_eq]
  atLineStart := contained.keepsLineStart page atRest.atLineStart
  line_pos := by
    rw [line_play]
    exact Nat.lt_add_right _ atRest.line_pos
  sameOpen := atRest.sameOpen.trans (contained.nested.wellBracketed.sameOpen page)

theorem play_eq_behind (atRest : AtRest unit page) (trace : Trace) :
    page.play trace = page.behind ((Page.blank unit).play trace) := by
  rw [← play_behind, atRest.behind_blank]

/-- What is listed on a page after several traces, where `items` is one of the lists of a page and
putting it behind finished text shifts its members. -/
theorem items_foldl_play {α : Type} {items : Page → List α} {shifted : Shift → α → α}
    (items_behind : ∀ front page : Page,
      items (front.behind page) = items front ++ (items page).map (shifted front.shift))
    (atRest : AtRest unit page) {traces : List Trace}
    (contained : ∀ trace ∈ traces, trace.SelfContained) :
    items (traces.foldl Page.play page) =
      items page ++ ((traces.map (Page.blank unit).play).mapIdx fun index single =>
        (items single).map (shifted ((traces.take index).foldl Page.play page).shift)).flatten := by
  induction traces generalizing page with
  | nil => simp
  | cons trace rest ih =>
    obtain ⟨firstContained, restContained⟩ := List.forall_mem_cons.mp contained
    have next := atRest.play firstContained
    have first : items (page.play trace) =
        items page ++ (items ((Page.blank unit).play trace)).map (shifted page.shift) := by
      rw [atRest.play_eq_behind, items_behind]
    -- The others are shifted by the page after the first, which is what their indices count from.
    rw [List.foldl_cons, ih next restContained, first, List.map_cons, List.mapIdx_cons]
    simp

theorem text_foldl_play (atRest : AtRest unit page) {traces : List Trace}
    (contained : ∀ trace ∈ traces, trace.SelfContained) :
    (traces.foldl Page.play page).text =
      page.text ++ String.join ((traces.map (Page.blank unit).play).map Page.text) := by
  induction traces generalizing page with
  | nil => simp
  | cons trace rest ih =>
    obtain ⟨firstContained, restContained⟩ := List.forall_mem_cons.mp contained
    have next := atRest.play firstContained
    have first : (page.play trace).text = page.text ++ ((Page.blank unit).play trace).text := by
      rw [atRest.play_eq_behind]
      rfl
    rw [List.foldl_cons, ih next restContained, first, List.map_cons, List.map_cons,
      String.join_cons, String.append_assoc]

end AtRest

theorem line_foldl_play (page : Page) (traces : List Trace) :
    (traces.foldl play page).line = page.line + (traces.map Trace.lineBreaks).sum := by
  induction traces generalizing page with
  | nil => rfl
  | cons trace rest ih =>
    rw [List.foldl_cons, ih, line_play, List.map_cons, List.sum_cons, Nat.add_assoc]

end Page

end CilSketch
