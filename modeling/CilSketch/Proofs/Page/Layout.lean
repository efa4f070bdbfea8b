import CilSketch.Proofs.Page.Sequel
import Mathlib.Data.List.Forall2

/-!
Traces that are laid out in lines. What such a trace adds to a page that stands at the start of a
line is a list of lines, each with a depth of its own, and the level of the page only adds to these
depths. That needs two things of a trace: whatever puts something on a line also writes something
there, and the level changes between lines only.
-/

set_option autoImplicit false

namespace CilSketch

/-- Whether an event neither ends the line nor changes the level. -/
def Event.staysInLine : Event → Bool
  | .lineBreak | .indent | .unindent => false
  | _ => true

theorem Event.ne_lineBreak_of_staysInLine {event : Event} (stays : event.staysInLine = true) :
    event ≠ .lineBreak := by
  rintro rfl
  cases stays

/-- Traces that stay in one line, on one level. -/
def Trace.InLine (trace : Trace) : Prop :=
  ∀ event ∈ trace, event.staysInLine = true

namespace Trace.InLine

variable {a b : Trace}

theorem nil : InLine [] := by
  simp [InLine]

theorem cons {event : Event} (stays : event.staysInLine = true) (rest : InLine a) :
    InLine (event :: a) :=
  List.forall_mem_cons.mpr ⟨stays, rest⟩

theorem append (left : InLine a) (right : InLine b) : InLine (a ++ b) :=
  List.forall_mem_append.mpr ⟨left, right⟩

theorem flatMap {α : Type} {items : List α} {project : α → Trace}
    (inLine : ∀ item, InLine (project item)) : InLine (items.flatMap project) := by
  intro event member
  obtain ⟨item, -, inItem⟩ := List.mem_flatMap.mp member
  exact inLine item event inItem

end Trace.InLine

namespace Page

theorem indentation_add (unit : String) (m n : Nat) :
    indentation unit (m + n) = indentation unit m ++ indentation unit n := by
  induction m with
  | zero => simp [indentation]
  | succ m ih => rw [Nat.succ_add, indentation, indentation, ih, String.append_assoc]

/-- What an event adds to the text of a page. -/
def addedBy (page : Page) (event : Event) : String :=
  (if event.startsLine then page.pendingIndentation else "") ++ event.written

theorem addedBy_of_silent (page : Page) {event : Event} (silent : event.startsLine = false)
    (inLine : event ≠ .lineBreak) : page.addedBy event = "" := by
  simp [addedBy, silent, Event.written_eq_empty silent inLine]

/-- What a trace adds to the text of a page, cut at the line breaks of the trace. A newline inside
a token cuts nothing, and the last line is not ended. -/
def addedLines (page : Page) : Trace → List String
  | [] => [""]
  | event :: rest =>
      if event = .lineBreak then "" :: (page.step event).addedLines rest
      else ((page.step event).addedLines rest).modifyHead (page.addedBy event ++ ·)

section AddedLines

variable (page : Page)

@[simp] theorem addedLines_nil : page.addedLines [] = [""] := rfl

theorem addedLines_lineBreak (rest : Trace) :
    page.addedLines (.lineBreak :: rest) = "" :: (page.step .lineBreak).addedLines rest := by
  simp [addedLines]

theorem addedLines_cons {event : Event} (inLine : event ≠ .lineBreak) (rest : Trace) :
    page.addedLines (event :: rest) =
      ((page.step event).addedLines rest).modifyHead (page.addedBy event ++ ·) := by
  simp [addedLines, inLine]

theorem addedLines_silent {event : Event} (silent : event.startsLine = false)
    (inLine : event ≠ .lineBreak) (rest : Trace) :
    page.addedLines (event :: rest) = (page.step event).addedLines rest := by
  rw [page.addedLines_cons inLine, page.addedBy_of_silent silent inLine]
  cases (page.step event).addedLines rest <;> simp

theorem addedLines_length (trace : Trace) :
    (page.addedLines trace).length = trace.lineBreaks + 1 := by
  induction trace generalizing page with
  | nil => rfl
  | cons event rest ih =>
    by_cases ends : event = .lineBreak
    · simp [ends, addedLines_lineBreak, ih, Trace.lineBreaks]
    · simp [page.addedLines_cons ends, ih, Trace.lineBreaks, ends]

/-- The added lines, with their line breaks, are all that is added. -/
theorem text_play_eq_addedLines (trace : Trace) :
    (page.play trace).text = page.text ++ "\n".intercalate (page.addedLines trace) := by
  induction trace generalizing page with
  | nil => simp
  | cons event rest ih =>
    obtain ⟨line, later, lines⟩ : ∃ line later,
        (page.step event).addedLines rest = line :: later := by
      apply List.exists_cons_of_length_pos
      rw [addedLines_length]
      exact Nat.succ_pos _
    rw [play_cons, ih, text_step, lines]
    by_cases ends : event = .lineBreak
    · rw [ends, addedLines_lineBreak, ← ends, lines, String.intercalate_cons_cons]
      simp [ends, Event.startsLine, Event.written, String.append_assoc]
    · rw [page.addedLines_cons ends, lines, List.modifyHead_cons, String.intercalate_cons_append,
        addedBy]
      simp only [String.append_assoc]

end AddedLines

section Words

variable {page : Page} {words : Trace}

theorem level_step_of_staysInLine (page : Page) {event : Event}
    (stays : event.staysInLine = true) : (page.step event).level = page.level := by
  rw [level_step]
  cases event <;> simp_all [Event.staysInLine, Event.levelAfter]

theorem pendingIndentation_step (page : Page) {event : Event} (stays : event.staysInLine = true) :
    (page.step event).pendingIndentation =
      if event.startsLine then "" else page.pendingIndentation := by
  rw [pendingIndentation, unit_step, page.level_step_of_staysInLine stays,
    atLineStart_step page (Event.ne_lineBreak_of_staysInLine stays), pendingIndentation]
  cases event.startsLine <;> simp

theorem level_play_words (stay : words.InLine) :
    (page.play words).level = page.level := by
  induction words generalizing page with
  | nil => rfl
  | cons event rest ih =>
    obtain ⟨stays, others⟩ := List.forall_mem_cons.mp stay
    rw [play_cons, ih others, page.level_step_of_staysInLine stays]

theorem startsLine_of_text {line : Trace} (stay : line.InLine)
    (shown : line.text ≠ "") : line.any Event.startsLine = true := by
  by_contra silent
  apply shown
  clear shown
  induction line with
  | nil => rfl
  | cons event rest ih =>
    obtain ⟨stays, others⟩ := List.forall_mem_cons.mp stay
    simp only [List.any_cons, Bool.or_eq_true, not_or, Bool.not_eq_true] at silent
    have nothing := Event.written_eq_empty silent.1 (Event.ne_lineBreak_of_staysInLine stays)
    rw [Trace.text_cons, nothing, ih others (by simpa using silent.2), String.empty_append]

/-- Words on one line are added as they are, behind the indentation if they are the first. -/
theorem addedLines_words (stay : words.InLine) (rest : Trace) :
    page.addedLines (words ++ .lineBreak :: rest) =
      ((if words.any Event.startsLine then page.pendingIndentation else "") ++ words.text) ::
        ((page.play words).step .lineBreak).addedLines rest := by
  induction words generalizing page with
  | nil => simp [addedLines_lineBreak]
  | cons event others ih =>
    obtain ⟨stays, stay⟩ := List.forall_mem_cons.mp stay
    have inLine := Event.ne_lineBreak_of_staysInLine stays
    rw [List.cons_append, page.addedLines_cons inLine, ih stay, List.modifyHead_cons,
      page.pendingIndentation_step stays, addedBy, Trace.text_cons, play_cons, List.any_cons]
    cases starts : event.startsLine with
    | true => simp [String.append_assoc]
    | false => simp [Event.written_eq_empty starts inLine]

end Words

end Page

/-- A line of a layout: how deep it stands in blocks, and what it shows behind the indentation. -/
structure Line where
  depth : Nat
  words : String
  deriving DecidableEq, Repr

namespace Line

/-- A line on a page whose level is added to its depth. A line without words has no indentation. -/
def shown (unit : String) (level : Nat) (line : Line) : String :=
  if line.words = "" then "" else Page.indentation unit (level + line.depth) ++ line.words

def deeper (line : Line) : Line :=
  { line with depth := line.depth + 1 }

theorem shown_deeper (unit : String) (level : Nat) (line : Line) :
    line.deeper.shown unit level = line.shown unit (level + 1) := by
  have total : level + (line.depth + 1) = level + 1 + line.depth := by omega
  simp only [shown, deeper, total]

end Line

namespace Trace

/-- Traces that are laid out in lines: empty lines, lines with words, blocks of such lines, and
between them events that show nothing. -/
inductive Lined : Trace → Prop where
  | nil : Lined []
  | blank {rest : Trace} : Lined rest → Lined (.lineBreak :: rest)
  | mark {event : Event} {rest : Trace} : event.startsLine = false → event.staysInLine = true →
      Lined rest → Lined (event :: rest)
  | line {words rest : Trace} : words.InLine → words.text ≠ "" → Lined rest →
      Lined (words ++ .lineBreak :: rest)
  | block {inner rest : Trace} : Lined inner → Lined rest →
      Lined (.indent :: inner ++ .unindent :: rest)

namespace Lined

theorem append {a b : Trace} (left : Lined a) (right : Lined b) : Lined (a ++ b) := by
  induction left with
  | nil => exact right
  | blank _ ih => exact .blank ih
  | mark silent stays _ ih => exact .mark silent stays ih
  | line stay shown _ ih => simpa using Lined.line stay shown ih
  | block inner _ _ ih => simpa using Lined.block inner ih

theorem flatMap {α : Type} {items : List α} {project : α → Trace}
    (lined : ∀ item, Lined (project item)) : Lined (items.flatMap project) := by
  induction items with
  | nil => exact .nil
  | cons item rest ih =>
    rw [List.flatMap_cons]
    exact (lined item).append ih

end Lined

end Trace

namespace Page

/-- On the page, a trace adds the lines and comes back to the start of a line on the same level,
whatever comes behind it. -/
structure LaysOut (page : Page) (trace : Trace) (lines : List Line) : Prop where
  atLineStart : (page.play trace).atLineStart = true
  level_eq : (page.play trace).level = page.level
  addedLines_append : ∀ rest, page.addedLines (trace ++ rest) =
    lines.map (Line.shown page.unit page.level) ++ (page.play trace).addedLines rest

namespace LaysOut

variable {page : Page} {inner trace : Trace} {innerLines lines : List Line}

theorem nil (starts : page.atLineStart = true) : page.LaysOut [] [] :=
  ⟨starts, rfl, fun _ => rfl⟩

theorem blank (laid : (page.step .lineBreak).LaysOut trace lines) :
    page.LaysOut (.lineBreak :: trace) (⟨0, ""⟩ :: lines) where
  atLineStart := laid.atLineStart
  level_eq := laid.level_eq
  addedLines_append rest := by
    rw [List.cons_append, addedLines_lineBreak, laid.addedLines_append]
    rfl

/-- An event between lines that does not change the level. -/
theorem mark {event : Event} (silent : event.startsLine = false)
    (stays : event.staysInLine = true) (laid : (page.step event).LaysOut trace lines) :
    page.LaysOut (event :: trace) lines where
  atLineStart := laid.atLineStart
  level_eq := laid.level_eq.trans (page.level_step_of_staysInLine stays)
  addedLines_append rest := by
    have inLine := Event.ne_lineBreak_of_staysInLine stays
    rw [List.cons_append, page.addedLines_silent silent inLine, laid.addedLines_append, unit_step,
      page.level_step_of_staysInLine stays, play_cons]

theorem line {words : Trace} (starts : page.atLineStart = true)
    (stay : words.InLine) (shown : words.text ≠ "")
    (laid : ((page.play words).step .lineBreak).LaysOut trace lines) :
    page.LaysOut (words ++ .lineBreak :: trace) (⟨0, words.text⟩ :: lines) := by
  have level : ((page.play words).step .lineBreak).level = page.level := by
    rw [level_step]
    exact level_play_words stay
  have whole : page.play (words ++ .lineBreak :: trace) =
      ((page.play words).step .lineBreak).play trace := by
    rw [play_append, play_cons]
  refine ⟨?_, ?_, ?_⟩
  · rw [whole]
    exact laid.atLineStart
  · rw [whole, laid.level_eq, level]
  · intro rest
    have first : Line.shown page.unit page.level ⟨0, words.text⟩ =
        page.pendingIndentation ++ words.text := by
      simp [Line.shown, shown, pendingIndentation, starts]
    rw [List.append_assoc, List.cons_append, addedLines_words stay, startsLine_of_text stay shown,
      if_pos rfl, laid.addedLines_append, level, unit_step, unit_play, whole, List.map_cons, first]
    rfl

/-- Inside a block every line is one level deeper, and behind it the level is what it was. -/
theorem block (laidInner : (page.step .indent).LaysOut inner innerLines)
    (laid : (((page.step .indent).play inner).step .unindent).LaysOut trace lines) :
    page.LaysOut (.indent :: inner ++ .unindent :: trace) (innerLines.map Line.deeper ++ lines) := by
  have level : (((page.step .indent).play inner).step .unindent).level = page.level := by
    rw [level_step, laidInner.level_eq]
    rfl
  have whole : page.play (.indent :: inner ++ .unindent :: trace) =
      (((page.step .indent).play inner).step .unindent).play trace := by
    rw [play_append, play_cons, play_cons]
  refine ⟨?_, ?_, ?_⟩
  · rw [whole]
    exact laid.atLineStart
  · rw [whole, laid.level_eq, level]
  · intro rest
    have shownInner : (innerLines.map Line.deeper).map (Line.shown page.unit page.level) =
        innerLines.map (Line.shown (page.step .indent).unit (page.step .indent).level) := by
      rw [List.map_map]
      apply List.map_congr_left
      intro line _
      exact line.shown_deeper page.unit page.level
    have unit : (((page.step .indent).play inner).step .unindent).unit = page.unit := by
      rw [unit_step, unit_play, unit_step]
    rw [List.append_assoc, List.cons_append, List.cons_append,
      page.addedLines_silent rfl (by simp), laidInner.addedLines_append,
      Page.addedLines_silent _ rfl (by simp), laid.addedLines_append, level, unit, ← shownInner,
      whole, List.map_append, List.append_assoc]

end LaysOut

end Page

/-- The lines of a trace and their depths are the same on all pages. -/
theorem Trace.Lined.exists_layout {trace : Trace} (lined : Lined trace) :
    ∃ lines : List Line,
      ∀ page : Page, page.atLineStart = true → page.LaysOut trace lines := by
  induction lined with
  | nil => exact ⟨[], fun page starts => .nil starts⟩
  | blank _ ih =>
    obtain ⟨lines, laid⟩ := ih
    exact ⟨⟨0, ""⟩ :: lines, fun page _ => (laid _ rfl).blank⟩
  | mark silent stays _ ih =>
    obtain ⟨lines, laid⟩ := ih
    refine ⟨lines, fun page starts => (laid _ ?_).mark silent stays⟩
    simp [page.atLineStart_step (Event.ne_lineBreak_of_staysInLine stays), starts, silent]
  | @line words rest stay shown _ ih =>
    obtain ⟨lines, laid⟩ := ih
    exact ⟨⟨0, words.text⟩ :: lines, fun page starts => .line starts stay shown (laid _ rfl)⟩
  | block _ _ ihInner ihRest =>
    obtain ⟨innerLines, laidInner⟩ := ihInner
    obtain ⟨lines, laid⟩ := ihRest
    refine ⟨innerLines.map Line.deeper ++ lines, ?_⟩
    intro page starts
    have inside := laidInner (page.step .indent) starts
    refine inside.block (laid _ ?_)
    rw [Page.atLineStart_step _ (by simp), inside.atLineStart]
    rfl

namespace Page

/-- The same page on another level. -/
def atLevel (page : Page) (level : Nat) : Page :=
  { page with level }

/-- The same page without any width of indentation. -/
def withoutUnit (page : Page) : Page :=
  { page with unit := "" }

/-- A line with as many copies of the unit before it as there are levels, unless it is empty. -/
def indentLine (unit : String) (level : Nat) (line : String) : String :=
  if line = "" then "" else String.join (List.replicate level unit) ++ line

/-- A trace adds to a page what it adds on level zero, with one unit of indentation for each level
of the page before each line that is not empty. Lines end where the trace has a line break. -/
structure IndentsUniformly (page : Page) (trace : Trace) : Prop where
  text_eq : (page.play trace).text =
    page.text ++ "\n".intercalate
      (((page.atLevel 0).addedLines trace).map (indentLine page.unit page.level))
  text_atLevel_zero : ((page.atLevel 0).play trace).text =
    page.text ++ "\n".intercalate ((page.atLevel 0).addedLines trace)
  length_addedLines : ((page.atLevel 0).addedLines trace).length = trace.lineBreaks + 1
  /-- A line that has nothing but its indentation does not have that either. -/
  no_bare_indentation : List.Forall₂ (fun shown bare => bare = "" → shown = "")
    (page.addedLines trace) (page.withoutUnit.addedLines trace)
  atLineStart : (page.play trace).atLineStart = true
  level_eq : (page.play trace).level = page.level

theorem LaysOut.addedLines_eq {page : Page} {trace : Trace} {lines : List Line}
    (laid : page.LaysOut trace lines) :
    page.addedLines trace = lines.map (Line.shown page.unit page.level) ++ [""] := by
  have alone := laid.addedLines_append []
  rwa [List.append_nil, addedLines_nil] at alone

end Page

theorem Line.indentLine_shown (unit : String) (level : Nat) (line : Line) :
    Page.indentLine unit level (line.shown unit 0) = line.shown unit level := by
  by_cases empty : line.words = ""
  · simp [Page.indentLine, shown, empty]
  · have visible : Page.indentation unit line.depth ++ line.words ≠ "" := by
      simp [String.append_eq_empty_iff, empty]
    simp [Page.indentLine, ← Page.indentation_eq_join, shown, empty, visible,
      Page.indentation_add, String.append_assoc]

theorem Line.shown_eq_empty {unit other : String} {level : Nat} {line : Line}
    (bare : line.shown other level = "") : line.shown unit level = "" := by
  by_cases empty : line.words = ""
  · simp [shown, empty]
  · simp [shown, empty] at bare

namespace Trace.Lined

variable {trace : Trace}

theorem addedLines_eq_map (lined : Lined trace) {page : Page} (starts : page.atLineStart = true)
    (flat : Page) (flatStarts : flat.atLineStart = true) (sameUnit : flat.unit = page.unit)
    (zero : flat.level = 0) :
    page.addedLines trace =
      (flat.addedLines trace).map (Page.indentLine page.unit page.level) := by
  obtain ⟨lines, laid⟩ := lined.exists_layout
  rw [(laid page starts).addedLines_eq, (laid flat flatStarts).addedLines_eq, sameUnit, zero,
    List.map_append, List.map_map]
  congr 1
  apply List.map_congr_left
  intro line _
  exact (line.indentLine_shown page.unit page.level).symm

theorem indentsUniformly (lined : Lined trace) {page : Page} (starts : page.atLineStart = true) :
    page.IndentsUniformly trace := by
  obtain ⟨lines, laid⟩ := lined.exists_layout
  have here := laid page starts
  refine ⟨?_, ?_, ?_, ?_, here.atLineStart, here.level_eq⟩
  · have lines := lined.addedLines_eq_map starts (page.atLevel 0) starts rfl rfl
    rw [page.text_play_eq_addedLines, lines]
  · exact (page.atLevel 0).text_play_eq_addedLines trace
  · exact (page.atLevel 0).addedLines_length trace
  · have bare : page.withoutUnit.LaysOut trace lines := laid page.withoutUnit starts
    rw [here.addedLines_eq, bare.addedLines_eq]
    apply List.rel_append
    · rw [List.forall₂_map_left_iff, List.forall₂_map_right_iff, List.forall₂_same]
      intro line _ empty
      exact Line.shown_eq_empty empty
    · exact .cons (fun empty => empty) .nil

end Trace.Lined

end CilSketch
