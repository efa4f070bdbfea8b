import CilSketch.Proofs.Page.Balance
import CilSketch.Proofs.Page.Indentation
import CilSketch.Proofs.Page.Index
import Mathlib.Algebra.Ring.Nat

/-!
Lines of foldable regions. A page counts line breaks, and a newline inside a token is none. So the
lines that a region states fall behind those its ends are on, by the newlines inside tokens before
them, and they agree everywhere exactly if no region ends after such a newline.
-/

set_option autoImplicit false

namespace CilSketch

def newlines (text : String) : Nat :=
  text.toList.count '\n'

@[simp] theorem newlines_append (a b : String) : newlines (a ++ b) = newlines a + newlines b := by
  rw [newlines, String.toList_append, List.count_append]
  rfl

/-- The line that an offset is on, by the newlines before it. -/
def Page.lineAt (page : Page) (offset : Nat) : Nat :=
  1 + newlines (page.slice 0 offset)

/-- Both ends of a region are on the lines that it states. -/
structure Fold.LinesAgree (fold : Fold) (page : Page) : Prop where
  startLine_eq : fold.startLine = page.lineAt fold.start
  stopLine_eq : fold.stopLine = page.lineAt fold.stop

/-- The newlines that an event writes inside a token. -/
def Event.uncounted : Event → Nat
  | .text shown => newlines shown
  | .reference _ shown _ => newlines shown
  | _ => 0

theorem Event.newlines_written (event : Event) :
    newlines event.written = Trace.lineBreaks [event] + event.uncounted := by
  cases event <;> simp [uncounted, written, Trace.lineBreaks, newlines]

namespace Trace

/-- The newlines inside the tokens of a trace. No page counts them as lines. -/
def uncounted (trace : Trace) : Nat :=
  (trace.map Event.uncounted).sum

@[simp] theorem uncounted_nil : uncounted [] = 0 := rfl

@[simp] theorem uncounted_cons (event : Event) (rest : Trace) :
    uncounted (event :: rest) = event.uncounted + uncounted rest := rfl

@[simp] theorem uncounted_append (a b : Trace) :
    uncounted (a ++ b) = uncounted a + uncounted b := by
  simp [uncounted]

theorem uncounted_flatMap {α : Type} (items : List α) (project : α → Trace) :
    uncounted (items.flatMap project) = (items.map fun item => uncounted (project item)).sum := by
  induction items with
  | nil => rfl
  | cons item rest ih => simp [ih]

/-- No region ends after a newline inside a token. -/
def CountsLines (trace : Trace) : Prop :=
  ∀ front later : Trace, trace = front ++ .foldEnd :: later → front.uncounted = 0

theorem countsLines_of_not_mem {trace : Trace} (noEnd : .foldEnd ∉ trace) : trace.CountsLines := by
  rintro front later rfl
  simp at noEnd

theorem countsLines_append_iff {a b : Trace} :
    (a ++ b).CountsLines ↔
      a.CountsLines ∧ b.CountsLines ∧ (.foldEnd ∈ b → a.uncounted = 0) := by
  constructor
  · intro counts
    refine ⟨?_, ?_, ?_⟩
    · rintro front later rfl
      exact counts front (later ++ b) (by simp)
    · rintro front later rfl
      have none := counts (a ++ front) later (by simp)
      rw [uncounted_append] at none
      omega
    · intro member
      obtain ⟨front, later, rfl⟩ := List.append_of_mem member
      have none := counts (a ++ front) later (by simp)
      rw [uncounted_append] at none
      omega
  · rintro ⟨left, right, joined⟩ front later same
    rcases List.append_eq_append_iff.mp same with ⟨inner, rfl, rfl⟩ | ⟨inner, rfl, ending⟩
    · rw [uncounted_append, joined (by simp), right inner later rfl]
    · cases inner with
      | nil =>
        rw [List.nil_append] at ending
        rw [List.append_nil, ← ending] at joined
        exact joined List.mem_cons_self
      | cons event inner =>
        obtain ⟨rfl, -⟩ := List.cons.inj ending
        exact left front inner rfl

theorem countsLines_of_uncounted {trace : Trace} (none : trace.uncounted = 0) :
    trace.CountsLines := by
  rintro front later rfl
  rw [uncounted_append] at none
  omega

/-- A trace that goes on after its last region without a token. -/
theorem countsLines_iff_uncounted {front later : Trace} (silent : later.uncounted = 0) :
    (front ++ .foldEnd :: later).CountsLines ↔ (front ++ .foldEnd :: later).uncounted = 0 := by
  constructor
  · intro counts
    have ended : Event.foldEnd.uncounted = 0 := rfl
    rw [uncounted_append, counts front later rfl, uncounted_cons, ended, silent]
  · exact countsLines_of_uncounted

theorem countsLines_flatMap_iff {α : Type} {items : List α} {project : α → Trace} :
    CountsLines (items.flatMap project) ↔
      ∀ earlier item later, items = earlier ++ item :: later →
        (project item).CountsLines ∧
          (.foldEnd ∈ project item → uncounted (earlier.flatMap project) = 0) := by
  -- From the end, since the condition on an item is about all items before it.
  induction items using List.reverseRecOn with
  | nil => simp [countsLines_of_not_mem]
  | append_singleton items last ih =>
    rw [List.flatMap_append, List.flatMap_singleton, countsLines_append_iff, ih]
    constructor
    · rintro ⟨before, counts, joined⟩ earlier item later split
      rcases List.eq_nil_or_concat later with rfl | ⟨later, final, rfl⟩
      · obtain ⟨rfl, single⟩ := List.append_inj' split rfl
        obtain rfl : last = item := by simpa using single
        exact ⟨counts, joined⟩
      · have shorter : items ++ [last] = (earlier ++ item :: later) ++ [final] := by
          rw [split]
          simp
        exact before earlier item later (List.append_inj' shorter rfl).1
    · intro all
      obtain ⟨counts, joined⟩ := all items last [] rfl
      refine ⟨?_, counts, joined⟩
      rintro earlier item later rfl
      exact all earlier item (later ++ [last]) (by simp)

end Trace

namespace Page

theorem newlines_indentation {unit : String} (plain : newlines unit = 0) (level : Nat) :
    newlines (indentation unit level) = 0 := by
  induction level with
  | zero => rfl
  | succ level ih => simp [indentation, plain, ih]

theorem newlines_step {page : Page} (plain : newlines page.unit = 0) (event : Event) :
    newlines (page.step event).text =
      newlines page.text + Trace.lineBreaks [event] + event.uncounted := by
  have indented : newlines (if event.startsLine then page.pendingIndentation else "") = 0 := by
    unfold pendingIndentation
    split
    · split
      · exact newlines_indentation plain page.level
      · rfl
    · rfl
  rw [text_step, newlines_append, newlines_append, indented, event.newlines_written]
  omega

/-- The line of a page falls behind its text by the newlines inside tokens. -/
theorem newlines_play {page : Page} (plain : newlines page.unit = 0) (trace : Trace) :
    newlines (page.play trace).text + page.line =
      newlines page.text + (page.play trace).line + trace.uncounted := by
  induction trace generalizing page with
  | nil => rfl
  | cons event rest ih =>
    have later := ih (page.unit_step event ▸ plain)
    have written := newlines_step plain event
    have line := page.line_step event
    rw [play_cons, Trace.uncounted_cons]
    omega

variable {unit : String} {trace : Trace}

/-- The line that a page had reached, against the line of that place on a later page. -/
theorem lineAt_size_play (plain : newlines unit = 0) {front later : Trace}
    (split : trace = front ++ later) :
    ((blank unit).play trace).lineAt ((blank unit).play front).size =
      ((blank unit).play front).line + front.uncounted := by
  obtain ⟨added, grown⟩ := ((blank unit).play front).exists_text_play later
  rw [← play_append, ← split] at grown
  have before : IsPart ((blank unit).play trace).text 0 ((blank unit).play front).size
      ((blank unit).play front).text :=
    ⟨"", added, by rw [grown, String.empty_append], rfl, by rw [size, String.empty_append]⟩
  have counted : newlines ((blank unit).play front).text + 1 =
      0 + ((blank unit).play front).line + front.uncounted := newlines_play plain front
  rw [lineAt, before.page_slice_eq]
  omega

/-- How far the lines of a region fall behind. -/
theorem exists_lines_of_mem_folds (plain : newlines unit = 0) {fold : Fold}
    (member : fold ∈ ((blank unit).play trace).folds) :
    ∃ pair : trace.Pair .fold,
      ((blank unit).play trace).lineAt fold.start = fold.startLine + pair.before.uncounted ∧
      ((blank unit).play trace).lineAt fold.stop =
        fold.stopLine + (pair.before ++ pair.opener :: pair.inner).uncounted := by
  obtain ⟨index, found⟩ := List.getElem?_of_mem member
  obtain ⟨pair, startLine, stopLine, -, covers⟩ :=
    (getElem?_folds_iff unit trace index fold).mp found
  have opener : (pair.before ++ [pair.opener]).uncounted = pair.before.uncounted := by
    rw [Event.opens?_eq_fold_iff.mp pair.opens, Trace.uncounted_append]
    rfl
  have split : trace = pair.before ++ [pair.opener] ++ (pair.inner ++ pair.closer :: pair.later) :=
    pair.trace_eq.trans (by simp)
  have opening := lineAt_size_play plain split
  have closing := lineAt_size_play plain pair.trace_eq
  rw [opener] at opening
  rw [covers.start_eq, covers.stop_eq, startLine, stopLine]
  exact ⟨pair, opening, closing⟩

theorem exists_openFold {front later : Trace} (split : trace = front ++ .foldEnd :: later)
    (balanced : trace.isBalanced = true) :
    ∃ innermost outer, ((blank unit).play front).openFolds = innermost :: outer := by
  refine List.exists_cons_of_ne_nil ?_
  intro nothing
  have none : ((blank unit).play front).depths.count .fold = 0 :=
    List.length_eq_zero_iff.mpr nothing
  have stray : ((((blank unit).play front).step .foldEnd).play later).isBalanced = false :=
    not_isBalanced_of_stray rfl none later
  rw [← play_cons, ← play_append, ← split, isBalanced_play_blank, balanced] at stray
  cases stray

theorem linesAgree_iff_countsLines (plain : newlines unit = 0)
    (balanced : trace.isBalanced = true) :
    (∀ fold ∈ ((blank unit).play trace).folds, fold.LinesAgree ((blank unit).play trace)) ↔
      trace.CountsLines := by
  constructor
  · intro agree front later split
    -- The closer records a region that ends right there, whose line must agree.
    obtain ⟨innermost, outer, opened⟩ := exists_openFold split balanced
    have recorded := (foldKind.step_closer ((blank unit).play front) .foldEnd innermost outer rfl
      opened).2
    have kept := foldKind.closed_prefix_play (((blank unit).play front).step .foldEnd) later
    rw [← play_cons, ← play_append, ← split, recorded] at kept
    have closed := agree (foldKind.finish ((blank unit).play front) innermost)
      (kept.subset (by simp))
    have stated : ((blank unit).play front).line =
        ((blank unit).play trace).lineAt ((blank unit).play front).size := closed.stopLine_eq
    rw [lineAt_size_play plain split] at stated
    omega
  · intro counts fold member
    obtain ⟨pair, starts, stops⟩ := exists_lines_of_mem_folds plain member
    have ended := pair.trace_eq
    rw [Event.closes?_eq_fold_iff.mp pair.closes] at ended
    have none := counts _ _ ended
    rw [none] at stops
    rw [Trace.uncounted_append] at none
    exact ⟨by omega, stops.symm⟩

end Page

end CilSketch
