import CilSketch.Page
import Mathlib.Data.List.DropRight

/-!
The text of a page is the text of the trace that is played on it, with indentation inserted. Where
and how much is said on the trace alone: at the first event of a line that puts something on it,
by the level at that event. The page carries only the level and whether its line is still empty,
and `Follows` relates these to the events so far.
-/

set_option autoImplicit false

namespace CilSketch

namespace Event

/-- Whether an event puts something on its line, if only a reference or a span of no length. -/
def startsLine : Event → Bool
  | .text shown => shown != ""
  | .reference .. | .beginSpan _ => true
  | _ => false

/-- The level of indentation after an event. It does not go below zero. -/
def levelAfter (level : Nat) : Event → Nat
  | .indent => level + 1
  | .unindent => level - 1
  | _ => level

theorem written_eq_empty {event : Event} (silent : event.startsLine = false)
    (inLine : event ≠ .lineBreak) : event.written = "" := by
  cases event with
  | text shown => simpa [startsLine, written] using silent
  | lineBreak => exact absurd rfl inLine
  | reference target shown isDefinition => simp [startsLine] at silent
  | beginSpan | endSpan | indent | unindent | foldStart | foldEnd => rfl

end Event

namespace Trace

def level (trace : Trace) : Nat :=
  trace.foldl Event.levelAfter 0

/-- The events since the last line break. -/
def currentLine (trace : Trace) : Trace :=
  trace.rtakeWhile (· ≠ .lineBreak)

/-- What is inserted before an event that comes after others: as many copies of the unit as the
level is at that point, if the event is the first to put something on its line. -/
def insertion (unit : String) (earlier : Trace) (event : Event) : String :=
  if event.startsLine && !earlier.currentLine.any Event.startsLine then
    String.join (List.replicate earlier.level unit)
  else
    ""

/-- The text of the later events of a trace, each with what is inserted before it. -/
def indentedAfter (unit : String) (earlier : Trace) : Trace → String
  | [] => ""
  | event :: rest =>
      insertion unit earlier event ++ event.written ++ indentedAfter unit (earlier ++ [event]) rest

def indented (unit : String) (trace : Trace) : String :=
  indentedAfter unit [] trace

def lineBreaks (trace : Trace) : Nat :=
  trace.count .lineBreak

@[simp] theorem level_concat (earlier : Trace) (event : Event) :
    level (earlier ++ [event]) = event.levelAfter earlier.level := by
  simp [level]

theorem currentLine_concat_lineBreak (earlier : Trace) :
    currentLine (earlier ++ [.lineBreak]) = [] :=
  List.rtakeWhile_concat_neg _ _ _ (by simp)

theorem currentLine_concat {event : Event} (inLine : event ≠ .lineBreak) (earlier : Trace) :
    currentLine (earlier ++ [event]) = earlier.currentLine ++ [event] :=
  List.rtakeWhile_concat_pos _ _ _ (by simpa using inLine)

end Trace

namespace Page

theorem indentation_eq_join (unit : String) (level : Nat) :
    indentation unit level = String.join (List.replicate level unit) := by
  induction level with
  | zero => rfl
  | succ level ih => rw [indentation, ih, List.replicate_succ, String.join_cons]

@[simp] theorem unit_step (page : Page) (event : Event) : (page.step event).unit = page.unit := by
  cases event with
  | text shown =>
    simp only [step, startLine_eq, append]
    split <;> rfl
  | reference | beginSpan => simp [step, startLine_eq, addReference, append]
  | endSpan | unindent | foldEnd =>
    simp only [step]
    split <;> rfl
  | lineBreak | indent | foldStart => rfl

@[simp] theorem level_step (page : Page) (event : Event) :
    (page.step event).level = event.levelAfter page.level := by
  cases event with
  | text shown =>
    simp only [step, startLine_eq, append]
    split <;> rfl
  | reference | beginSpan => simp [step, startLine_eq, addReference, append, Event.levelAfter]
  | unindent =>
    simp only [step, Event.levelAfter]
    split <;> simp_all
  | endSpan | foldEnd =>
    simp only [step]
    split <;> rfl
  | lineBreak | indent | foldStart => rfl

theorem line_step (page : Page) (event : Event) :
    (page.step event).line = page.line + Trace.lineBreaks [event] := by
  cases event with
  | text shown =>
    simp only [step, startLine_eq, append]
    split <;> rfl
  | lineBreak => rfl
  | reference | beginSpan => simp [step, startLine_eq, addReference, append, Trace.lineBreaks]
  | endSpan | unindent | foldEnd =>
    simp only [step]
    split <;> rfl
  | indent | foldStart => rfl

theorem atLineStart_step (page : Page) {event : Event} (inLine : event ≠ .lineBreak) :
    (page.step event).atLineStart = (page.atLineStart && !event.startsLine) := by
  cases event with
  | text shown =>
    simp only [step, startLine_eq, append, Event.startsLine]
    split <;> simp_all
  | lineBreak => exact absurd rfl inLine
  | reference | beginSpan => simp [step, startLine_eq, addReference, append, Event.startsLine]
  | endSpan | unindent | foldEnd =>
    simp only [step, Event.startsLine]
    split <;> simp
  | indent | foldStart => simp [step, Event.startsLine]

/-- A step adds to the end of the text: the indentation, if the event starts the line, and what
the event writes. -/
theorem text_step (page : Page) (event : Event) :
    (page.step event).text =
      page.text ++ (if event.startsLine then page.pendingIndentation else "") ++ event.written := by
  cases event with
  | text shown =>
    simp only [step, startLine_eq, append, Event.startsLine, Event.written]
    split <;> simp_all
  | reference | beginSpan =>
    simp [step, startLine_eq, addReference, append, Event.startsLine, Event.written]
  | endSpan | unindent | foldEnd =>
    simp only [step, Event.startsLine, Event.written]
    split <;> simp
  | lineBreak | indent | foldStart => simp [step, append, Event.startsLine, Event.written]

/-- What a page knows of the events played on it so far. -/
structure Follows (unit : String) (earlier : Trace) (page : Page) : Prop where
  unit_eq : page.unit = unit
  level_eq : page.level = earlier.level
  atLineStart_eq : page.atLineStart = !earlier.currentLine.any Event.startsLine

namespace Follows

variable {unit : String} {earlier : Trace} {page : Page}

theorem blank (unit : String) : Follows unit [] (blank unit) :=
  ⟨rfl, rfl, rfl⟩

theorem step (follows : Follows unit earlier page) (event : Event) :
    Follows unit (earlier ++ [event]) (page.step event) where
  unit_eq := by rw [unit_step, follows.unit_eq]
  level_eq := by rw [level_step, follows.level_eq, Trace.level_concat]
  atLineStart_eq := by
    by_cases inLine : event = .lineBreak
    · rw [inLine, Trace.currentLine_concat_lineBreak]
      rfl
    · rw [atLineStart_step page inLine, follows.atLineStart_eq, Trace.currentLine_concat inLine]
      simp

theorem text_step (follows : Follows unit earlier page) (event : Event) :
    (page.step event).text =
      page.text ++ (Trace.insertion unit earlier event ++ event.written) := by
  have inserted : (if event.startsLine then page.pendingIndentation else "") =
      Trace.insertion unit earlier event := by
    rw [pendingIndentation, follows.atLineStart_eq, follows.unit_eq, follows.level_eq,
      indentation_eq_join, Trace.insertion]
    cases event.startsLine <;> simp
  rw [Page.text_step, inserted, String.append_assoc]

theorem text_play (follows : Follows unit earlier page) (trace : Trace) :
    (page.play trace).text = page.text ++ Trace.indentedAfter unit earlier trace := by
  induction trace generalizing page earlier with
  | nil => simp [Trace.indentedAfter]
  | cons event rest ih =>
    rw [play_cons, ih (follows.step event), follows.text_step event, Trace.indentedAfter]
    simp only [String.append_assoc]

theorem play (follows : Follows unit earlier page) (trace : Trace) :
    Follows unit (earlier ++ trace) (page.play trace) := by
  induction trace generalizing page earlier with
  | nil => simpa using follows
  | cons event rest ih => simpa using ih (follows.step event)

end Follows

end Page

namespace Trace

theorem insertion_empty (earlier : Trace) (event : Event) : insertion "" earlier event = "" := by
  have nothing (count : Nat) : String.join (List.replicate count "") = "" := by
    induction count with
    | zero => rfl
    | succ count ih => rw [List.replicate_succ, String.join_cons, ih, String.append_empty]
  unfold insertion
  split
  · exact nothing _
  · rfl

theorem indentedAfter_empty (earlier trace : Trace) :
    indentedAfter "" earlier trace = trace.text := by
  induction trace generalizing earlier with
  | nil => rfl
  | cons event rest ih => simp [indentedAfter, ih, insertion_empty]

theorem indentedAfter_silent (unit : String) (earlier line : Trace)
    (silent : ∀ event ∈ line, event.startsLine = false ∧ event ≠ .lineBreak) :
    indentedAfter unit earlier line = "" := by
  induction line generalizing earlier with
  | nil => rfl
  | cons event rest ih =>
    obtain ⟨starts, inLine⟩ := silent event List.mem_cons_self
    have later := ih (earlier ++ [event]) fun other member =>
      silent other (List.mem_cons_of_mem _ member)
    simp [indentedAfter, insertion, starts, Event.written_eq_empty starts inLine, later]

end Trace

/-- A page has the text of its trace with the indentation of each line inserted at the first event
that puts something on the line, and nothing else. Events that put nothing on their line write
nothing, so a line of such events stays empty. -/
theorem page_text_eq_indented (unit : String) (trace : Trace) :
    ((Page.blank unit).play trace).text = trace.indented unit ∧
      ((Page.blank "").play trace).text = trace.text ∧
      ∀ before line : Trace,
        (∀ event ∈ line, event.startsLine = false ∧ event ≠ .lineBreak) →
          ((Page.blank unit).play (before ++ line)).text =
            ((Page.blank unit).play before).text := by
  refine ⟨?_, ?_, ?_⟩
  · rw [(Page.Follows.blank unit).text_play]
    exact String.empty_append
  · rw [(Page.Follows.blank "").text_play, Trace.indentedAfter_empty]
    exact String.empty_append
  · intro before line silent
    have follows := (Page.Follows.blank unit).play before
    rw [Page.play_append, follows.text_play, Trace.indentedAfter_silent unit _ line silent,
      String.append_empty]

end CilSketch
