import CilSketch.Proofs.Page.Nesting
import CilSketch.Proofs.Trace.Balance
import Mathlib.Tactic.Tauto

/-!
The balance of a page is the balance of the trace that was played on it. As long as nothing was
closed that was not open, the page has the depths of the trace open. The first stray closer ends
the depths of the trace for good and sets the flag of the page, which no later event takes back.
-/

set_option autoImplicit false

namespace CilSketch

namespace Page

/-- How many spans, blocks and foldable regions a page has open. -/
def depths (page : Page) : Depths where
  spans := page.openSpans.length
  blocks := page.level
  folds := page.openFolds.length

theorem isBalanced_iff (page : Page) :
    page.isBalanced = true ↔ page.overclosed = false ∧ page.depths = {} := by
  have empty : page.depths = {} ↔
      page.openSpans = [] ∧ page.level = 0 ∧ page.openFolds = [] := by
    simp [depths]
  rw [empty]
  simp only [isBalanced, Bool.and_eq_true, Bool.not_eq_true', List.isEmpty_iff,
    beq_iff_eq]
  tauto

theorem SameOpen.depths_eq {before after : Page} (same : before.SameOpen after) :
    after.depths = before.depths := by
  simp only [depths, same.level, same.openFolds, same.openSpans]

/-- An event that the depths allow moves the page to the same depths and leaves its flag alone. -/
theorem step_of_depths {page : Page} {event : Event} {after : Depths}
    (stepped : page.depths.step event = some after) :
    (page.step event).depths = after ∧ (page.step event).overclosed = page.overclosed := by
  cases event with
  | text | lineBreak | reference =>
    obtain rfl : page.depths = after := by simpa [Depths.step] using stepped
    exact ⟨(sameOpen_step (by rfl) (by rfl) page).depths_eq,
      (sameOpen_step (by rfl) (by rfl) page).overclosed⟩
  | beginSpan style =>
    obtain rfl : _ = after := by simpa [Depths.step] using stepped
    simp [step, startLine_eq, depths]
  | indent | foldStart =>
    obtain rfl : _ = after := by simpa [Depths.step] using stepped
    simp [step, depths]
  | endSpan =>
    cases opened : page.openSpans with
    | nil => simp [Depths.step, depths, opened] at stepped
    | cons span outer =>
      obtain rfl : _ = after := by simpa [Depths.step, depths, opened] using stepped
      simp [step, depths, opened]
  | unindent =>
    cases opened : page.level with
    | zero => simp [Depths.step, depths, opened] at stepped
    | succ level =>
      obtain rfl : _ = after := by simpa [Depths.step, depths, opened] using stepped
      simp [step, depths, opened]
  | foldEnd =>
    cases opened : page.openFolds with
    | nil => simp [Depths.step, depths, opened] at stepped
    | cons fold outer =>
      obtain rfl : _ = after := by simpa [Depths.step, depths, opened] using stepped
      simp [step, depths, opened]

/-- An event that the depths do not allow closes nothing and sets the flag. -/
theorem overclosed_step_of_depths {page : Page} {event : Event}
    (stray : page.depths.step event = none) : (page.step event).overclosed = true := by
  obtain ⟨bracket, closes, nothing⟩ := (Depths.step_eq_none_iff _ _).mp stray
  cases event with
  | text | lineBreak | reference | beginSpan | indent | foldStart =>
    simp [Event.closes?] at closes
  | endSpan =>
    obtain rfl : Bracket.span = bracket := by simpa [Event.closes?] using closes
    have empty : page.openSpans = [] := List.length_eq_zero_iff.mp nothing
    simp [step, empty]
  | unindent =>
    obtain rfl : Bracket.block = bracket := by simpa [Event.closes?] using closes
    have empty : page.level = 0 := nothing
    simp [step, empty]
  | foldEnd =>
    obtain rfl : Bracket.fold = bracket := by simpa [Event.closes?] using closes
    have empty : page.openFolds = [] := List.length_eq_zero_iff.mp nothing
    simp [step, empty]

/-- The flag is never taken back. -/
theorem overclosed_play {page : Page} (overclosed : page.overclosed = true) (trace : Trace) :
    (page.play trace).overclosed = true := by
  induction trace generalizing page with
  | nil => exact overclosed
  | cons event rest ih =>
    apply ih
    cases stepped : page.depths.step event with
    | none => exact overclosed_step_of_depths stepped
    | some after => exact (step_of_depths stepped).2.trans overclosed

/-- The depths of a trace exist as long as the flag of the page is not set, and they are then the
depths of the page. -/
theorem foldlM_depths_eq_some_iff {page : Page} (closed : page.overclosed = false) (trace : Trace)
    (after : Depths) :
    trace.foldlM Depths.step page.depths = some after ↔
      (page.play trace).overclosed = false ∧ (page.play trace).depths = after := by
  induction trace generalizing page with
  | nil => simp [closed]
  | cons event rest ih =>
    rw [List.foldlM_cons, play_cons]
    cases stepped : page.depths.step event with
    | none =>
      have stray := overclosed_play (overclosed_step_of_depths stepped) rest
      simp [stray]
    | some middle =>
      obtain ⟨moved, kept⟩ := step_of_depths stepped
      have run := ih (kept.trans closed)
      rwa [moved] at run

theorem isBalanced_play_blank (unit : String) (trace : Trace) :
    ((blank unit).play trace).isBalanced = trace.isBalanced := by
  rw [Bool.eq_iff_iff, isBalanced_iff, Trace.isBalanced, beq_iff_eq]
  have closed : (blank unit).overclosed = false := rfl
  exact (foldlM_depths_eq_some_iff closed trace {}).symm

/-- Whatever comes after a stray closer, the page is not balanced again. -/
theorem not_isBalanced_of_stray {page : Page} {bracket : Bracket} {closer : Event}
    (closes : closer.closes? = some bracket) (nothing : page.depths.count bracket = 0)
    (later : Trace) : ((page.step closer).play later).isBalanced = false := by
  have stray := (Depths.step_eq_none_iff page.depths closer).mpr ⟨bracket, closes, nothing⟩
  have overclosed := overclosed_play (overclosed_step_of_depths stray) later
  simp [isBalanced, overclosed]

end Page

/-- A page is balanced if and only if the trace played on it is, which holds if and only if each
kind of bracket is balanced by itself. A closer that finds nothing of its kind open settles the
matter for both. -/
theorem page_isBalanced_eq_trace_isBalanced (unit : String) (trace : Trace) :
    ((Page.blank unit).play trace).isBalanced = trace.isBalanced ∧
      (trace.isBalanced = true ↔ ∀ bracket, trace.Balanced bracket) ∧
      ∀ (before later : Trace) (closer : Event) (bracket : Bracket),
        trace = before ++ closer :: later → closer.closes? = some bracket →
        ((Page.blank unit).play before).depths.count bracket = 0 →
          ((Page.blank unit).play trace).isBalanced = false ∧ trace.isBalanced = false := by
  refine ⟨Page.isBalanced_play_blank unit trace, trace.isBalanced_iff_forall_balanced, ?_⟩
  rintro before later closer bracket rfl closes nothing
  have unbalanced := Page.not_isBalanced_of_stray closes nothing later
  rw [← Page.isBalanced_play_blank unit, Page.play_append, Page.play_cons]
  exact ⟨unbalanced, unbalanced⟩

/-- A block that is opened and closed later does not hide that one was closed too often before. -/
theorem stray_unindent_unbalances :
    ((Page.blank "\t").play
        [.indent, .unindent, .unindent, .indent, .unindent]).isBalanced = false ∧
      Trace.isBalanced [.indent, .unindent, .unindent, .indent, .unindent] = false :=
  (page_isBalanced_eq_trace_isBalanced "\t" _).2.2 [.indent, .unindent] [.indent, .unindent]
    .unindent .block rfl rfl rfl

end CilSketch
