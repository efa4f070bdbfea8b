import CilSketch.Proofs.Page.Index
import CilSketch.Proofs.Page.Layout
import CilSketch.Proofs.Projection.Nesting

/-!
Foldable blocks. A block is a title, some lines one level deeper and a brace at the end. The region
of a block opens before its title and closes behind its brace, so it is recorded after all regions
inside it, and it covers what the block writes. Indentation is written late and would count to the
region, so the page must have none to write when the region opens.
-/

set_option autoImplicit false

namespace CilSketch

open Trace (InLine Lined Nested)

namespace Page

theorem size_le_play (page : Page) (trace : Trace) : page.size ≤ (page.play trace).size := by
  obtain ⟨added, whole⟩ := page.exists_text_play trace
  rw [size, size, whole, String.utf8ByteSize_append]
  exact Nat.le_add_right _ _

theorem size_lt_play {trace : Trace} (ends : .lineBreak ∈ trace) (page : Page) :
    page.size < (page.play trace).size := by
  obtain ⟨before, later, rfl⟩ := List.append_of_mem ends
  have newline : ((page.play before).step .lineBreak).size = (page.play before).size + 1 :=
    String.utf8ByteSize_append
  calc
    page.size ≤ (page.play before).size := page.size_le_play before
    _ < ((page.play before).step .lineBreak).size := by omega
    _ ≤ (page.play (before ++ .lineBreak :: later)).size := by
      rw [play_append, play_cons]
      exact size_le_play _ later

/-- Only the end of a region adds to the regions. -/
theorem folds_play_of_not_mem {trace : Trace} (unclosed : .foldEnd ∉ trace) (page : Page) :
    (page.play trace).folds = page.folds := by
  induction trace generalizing page with
  | nil => rfl
  | cons event rest ih =>
    obtain ⟨other, others⟩ : .foldEnd ≠ event ∧ .foldEnd ∉ rest := by simpa using unclosed
    rw [play_cons, ih others]
    rcases foldKind.closed_step page event with same | ⟨_, closes, _⟩
    · exact same
    · exact absurd (Event.closes?_eq_fold_iff.mp closes).symm other

section Words

variable {page : Page} {words : Trace}

theorem text_play_words (stay : words.InLine) :
    (page.play words).text =
      page.text ++ ((if words.any Event.startsLine then page.pendingIndentation else "") ++
        words.text) := by
  induction words generalizing page with
  | nil => simp
  | cons event rest ih =>
    obtain ⟨stays, others⟩ := List.forall_mem_cons.mp stay
    rw [play_cons, ih others, text_step, page.pendingIndentation_step stays, Trace.text_cons,
      List.any_cons]
    cases starts : event.startsLine with
    | true => simp [String.append_assoc]
    | false =>
      have inLine := Event.ne_lineBreak_of_staysInLine stays
      simp [Event.written_eq_empty starts inLine]

theorem pendingIndentation_play_words (stay : words.InLine) :
    (page.play words).pendingIndentation =
      if words.any Event.startsLine then "" else page.pendingIndentation := by
  induction words generalizing page with
  | nil => rfl
  | cons event rest ih =>
    obtain ⟨stays, others⟩ := List.forall_mem_cons.mp stay
    rw [play_cons, ih others, page.pendingIndentation_step stays, List.any_cons]
    cases event.startsLine <;> simp

end Words

/-- What a trace shows on a page of its own, on some level. -/
def shownAt (unit : String) (level : Nat) (trace : Trace) : String :=
  (((blank unit).atLevel level).play trace).text

end Page

theorem Trace.Lined.text_play_eq {trace : Trace} (lined : Lined trace) {page : Page}
    (starts : page.atLineStart = true) :
    (page.play trace).text = page.text ++ Page.shownAt page.unit page.level trace := by
  obtain ⟨lines, laid⟩ := lined.exists_layout
  have alone := (laid ((Page.blank page.unit).atLevel page.level) rfl).addedLines_eq
  rw [Page.shownAt, Page.text_play_eq_addedLines, Page.text_play_eq_addedLines, alone,
    (laid page starts).addedLines_eq]
  exact congrArg _ String.empty_append.symm

namespace Page

theorem shownAt_lineBreak {trace : Trace} (lined : Lined trace) (unit : String) (level : Nat) :
    shownAt unit level (.lineBreak :: trace) = "\n" ++ shownAt unit level trace := by
  rw [shownAt, play_cons]
  exact lined.text_play_eq rfl

/-- What a block shows behind the indentation of its title. -/
def blockText (unit : String) (level : Nat) (title : String) (inner : Trace) : String :=
  title ++ "\n" ++ shownAt unit (level + 1) inner ++ indentation unit level ++ "\x7d\n"

/-- The page on which the lines of a block are played. -/
def insideBlock (page : Page) (title : Trace) : Page :=
  page.play (.openBlock title)

/-- The block that is played on the page makes one more region, which covers it, and leaves nothing
open. -/
structure FoldsBlock (page : Page) (title inner : Trace) (fold : Fold) : Prop where
  folds_eq : (page.play (.foldedBlock title inner)).folds =
    ((page.insideBlock title).play inner).folds ++ [fold]
  text_eq : (page.play (.foldedBlock title inner)).text =
    page.text ++ blockText page.unit page.level title.text inner
  start_eq : fold.start = page.size
  stop_eq : fold.stop = (page.play (.foldedBlock title inner)).size
  sameOpen : page.SameOpen (page.play (.foldedBlock title inner))

section Block

variable {page : Page} {title inner : Trace} {fold : Fold}

theorem FoldsBlock.isPart (folded : page.FoldsBlock title inner fold) (later : Trace) :
    IsPart ((page.play (.foldedBlock title inner)).play later).text fold.start fold.stop
      (blockText page.unit page.level title.text inner) := by
  obtain ⟨added, whole⟩ := (page.play (.foldedBlock title inner)).exists_text_play later
  refine ⟨page.text, added, ?_, folded.start_eq, ?_⟩
  · rw [whole, folded.text_eq]
  · rw [folded.stop_eq, size, folded.text_eq]

theorem size_lt_insideBlock (page : Page) (title : Trace) :
    page.size < (page.insideBlock title).size :=
  size_lt_play (by simp [Trace.openBlock]) page

theorem folds_insideBlock (unclosed : .foldEnd ∉ title) :
    (page.insideBlock title).folds = page.folds :=
  folds_play_of_not_mem (by simp [Trace.openBlock, unclosed]) page

theorem level_insideBlock (stay : title.InLine) :
    (page.insideBlock title).level = page.level + 1 := by
  have titled : Trace.InLine (.foldStart :: title) := .cons rfl stay
  rw [insideBlock, Trace.openBlock, play_append]
  exact congrArg (· + 1) (level_play_words titled)

/-- The brace stands on the level of the title. -/
theorem text_play_brace {level : Nat} (starts : page.atLineStart = true)
    (deeper : page.level = level + 1) :
    (page.play Trace.brace).text =
      page.text ++ indentation page.unit level ++ "\x7d\n" := by
  simp [Trace.brace, step, deeper, startLine, starts, append, String.append_assoc]

theorem text_play_block (stay : title.InLine) (lined : Lined inner)
    (unindented : page.pendingIndentation = "") :
    (page.play (.block title inner)).text =
      page.text ++ blockText page.unit page.level title.text inner := by
  let within := ((page.play title).step .lineBreak).step .indent
  have titled : (page.play title).text = page.text ++ title.text := by
    simp [text_play_words stay, unindented]
  have text : within.text = page.text ++ title.text ++ "\n" := congrArg (· ++ "\n") titled
  have unit : within.unit = page.unit := page.unit_play title
  have level : within.level = page.level + 1 := congrArg (· + 1) (level_play_words stay)
  have uniform : within.IndentsUniformly inner := lined.indentsUniformly rfl
  have brace := text_play_brace uniform.atLineStart (uniform.level_eq.trans level)
  have shown : (within.play inner).text = within.text ++ shownAt within.unit within.level inner :=
    lined.text_play_eq rfl
  have whole : page.play (.block title inner) =
      (within.play inner).play Trace.brace := by
    rw [Trace.block, play_append, play_append]
    rfl
  rw [whole, brace, shown, text, unit_play, unit, level, blockText]
  simp only [String.append_assoc]

theorem play_block (page : Page) (title inner : Trace) :
    (page.step .foldStart).play (.block title inner) =
      ((page.insideBlock title).play inner).play Trace.brace := by
  rw [insideBlock, ← play_append, ← play_append]
  simp [Trace.block, Trace.openBlock]

theorem play_foldedBlock (page : Page) (title inner : Trace) :
    page.play (.foldedBlock title inner) =
      ((page.insideBlock title).play inner).play Trace.closeBlock := by
  rw [Trace.foldedBlock, play_append, play_append]
  rfl

theorem exists_foldsBlock (stay : title.InLine) (nestedTitle : Nested title)
    (lined : Lined inner) (nestedInner : Nested inner) (unindented : page.pendingIndentation = "") :
    ∃ fold, page.FoldsBlock title inner fold := by
  let closing := (page.step .foldStart).play (.block title inner)
  have nested := nestedTitle.titledBlock nestedInner
  have opened : closing.openFolds = ⟨page.size, page.line⟩ :: page.openFolds :=
    (nested.wellBracketed.sameOpen (page.step .foldStart)).openFolds
  have after : page.play (.foldedBlock title inner) = closing.step .foldEnd := by
    rw [Trace.foldedBlock_eq_block, play_concat, play_cons]
  have text : (closing.step .foldEnd).text = closing.text := by
    simp [text_step, Event.startsLine, Event.written]
  have closed : closing.folds = ((page.insideBlock title).play inner).folds := by
    have split : closing = _ := page.play_block title inner
    rw [split]
    exact folds_play_of_not_mem (by simp [Trace.brace]) _
  have region := nestedTitle.foldedBlock nestedInner
  refine ⟨⟨page.size, closing.size, page.line, closing.line⟩, ?_, ?_, rfl, ?_,
    region.wellBracketed.sameOpen page⟩
  · rw [after, ← closed]
    exact (foldKind.step_closer closing .foldEnd _ _ rfl opened).2
  · rw [after, text]
    exact text_play_block stay lined unindented
  · rw [after]
    exact congrArg String.utf8ByteSize text.symm

end Block

end Page

end CilSketch
