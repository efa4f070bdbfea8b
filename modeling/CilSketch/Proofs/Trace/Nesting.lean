import CilSketch.Page

/-!
Spans, blocks and foldable regions as brackets of one language. `Nested` is its grammar, in which
brackets of different kinds must not cross either, and `unclosed` is the stack that decides it.
A nested trace closes only what it opened itself: a page has the same things open after it as
before it, and at every point between at least those.
-/

set_option autoImplicit false

namespace CilSketch

inductive Bracket where
  | span | block | fold
  deriving DecidableEq, Repr

namespace Event

def opens? : Event → Option Bracket
  | .beginSpan _ => some .span
  | .indent => some .block
  | .foldStart => some .fold
  | _ => none

def closes? : Event → Option Bracket
  | .endSpan => some .span
  | .unindent => some .block
  | .foldEnd => some .fold
  | _ => none

end Event

/-- The brackets that are open after an event, the innermost first. Only the innermost can be
closed. -/
def Bracket.step (stack : List Bracket) (event : Event) : Option (List Bracket) :=
  match event.opens?, event.closes? with
  | some bracket, _ => some (bracket :: stack)
  | none, some bracket => if stack.head? = some bracket then some stack.tail else none
  | none, none => some stack

namespace Trace

/-- Properly bracketed traces. The kinds of brackets are nested with each other, not each kind by
itself. -/
inductive Nested : Trace → Prop where
  | nil : Nested []
  | plain {event : Event} {rest : Trace} :
      event.opens? = none → event.closes? = none → Nested rest → Nested (event :: rest)
  | enclose {bracket : Bracket} {opener closer : Event} {inner rest : Trace} :
      opener.opens? = some bracket → closer.closes? = some bracket →
      Nested inner → Nested rest → Nested (opener :: inner ++ closer :: rest)

/-- The stack of open brackets after a trace, if it never closes any but the innermost. -/
def unclosed (stack : List Bracket) (trace : Trace) : Option (List Bracket) :=
  trace.foldlM Bracket.step stack

@[simp] theorem unclosed_nil (stack : List Bracket) : unclosed stack [] = some stack := rfl

@[simp] theorem unclosed_cons (stack : List Bracket) (event : Event) (rest : Trace) :
    unclosed stack (event :: rest) =
      (Bracket.step stack event).bind fun after => unclosed after rest := rfl

theorem unclosed_append (stack : List Bracket) (a b : Trace) :
    unclosed stack (a ++ b) = (unclosed stack a).bind fun after => unclosed after b :=
  List.foldlM_append

end Trace

namespace Bracket

theorem step_plain {event : Event} (opens : event.opens? = none) (closes : event.closes? = none)
    (stack : List Bracket) : step stack event = some stack := by
  simp [step, opens, closes]

theorem step_opener {event : Event} {bracket : Bracket} (opens : event.opens? = some bracket)
    (stack : List Bracket) : step stack event = some (bracket :: stack) := by
  simp [step, opens]

theorem step_closer {event : Event} {bracket : Bracket} (closes : event.closes? = some bracket)
    (stack : List Bracket) :
    step stack event = if stack.head? = some bracket then some stack.tail else none := by
  cases event <;> simp_all [step, Event.opens?, Event.closes?]

end Bracket

namespace Trace

namespace Nested

theorem append {a b : Trace} (left : Nested a) (right : Nested b) : Nested (a ++ b) := by
  induction left with
  | nil => exact right
  | plain opens closes _ ih => exact .plain opens closes ih
  | @enclose bracket opener closer inner rest opens closes nestedInner _ _ ih =>
    have joined := enclose opens closes nestedInner ih
    simpa using joined

theorem flatMap {α : Type} {items : List α} {project : α → Trace}
    (nested : ∀ item, Nested (project item)) : Nested (items.flatMap project) := by
  induction items with
  | nil => exact .nil
  | cons item rest ih =>
    rw [List.flatMap_cons]
    exact (nested item).append ih

/-- The stack below a nested trace is never touched. -/
theorem unclosed_eq {trace : Trace} (nested : Nested trace) (stack : List Bracket) :
    unclosed stack trace = some stack := by
  induction nested generalizing stack with
  | nil => rfl
  | plain opens closes _ ih =>
    rw [unclosed_cons, Bracket.step_plain opens closes, Option.bind_some, ih]
  | @enclose bracket opener closer inner rest opens closes _ _ ihInner ihRest =>
    rw [List.cons_append, unclosed_cons, Bracket.step_opener opens, Option.bind_some,
      unclosed_append, ihInner, Option.bind_some, unclosed_cons, Bracket.step_closer closes]
    simp [ihRest]

end Nested

/-- What follows an open bracket contains the closer that matches it. -/
theorem exists_matching_closer {bracket : Bracket} {stack : List Bracket} (trace : Trace)
    (closed : unclosed (bracket :: stack) trace = some []) :
    ∃ inner closer rest, trace = inner ++ closer :: rest ∧ Nested inner ∧
      closer.closes? = some bracket ∧ unclosed stack rest = some [] := by
  match trace with
  | [] => simp at closed
  | event :: rest =>
    match opens : event.opens?, closes : event.closes? with
    | some opened, _ =>
      rw [unclosed_cons, Bracket.step_opener opens, Option.bind_some] at closed
      obtain ⟨inner, closer, later, rfl, nestedInner, closesOpened, laterClosed⟩ :=
        exists_matching_closer rest closed
      obtain ⟨next, last, remainder, rfl, nestedNext, closesLast, remainderClosed⟩ :=
        exists_matching_closer later laterClosed
      refine ⟨event :: inner ++ closer :: next, last, remainder, by simp, ?_, closesLast,
        remainderClosed⟩
      exact .enclose opens closesOpened nestedInner nestedNext
    | none, some other =>
      rw [unclosed_cons, Bracket.step_closer closes] at closed
      by_cases same : bracket = other
      · subst same
        refine ⟨[], event, rest, rfl, .nil, closes, ?_⟩
        simpa using closed
      · simp [same] at closed
    | none, none =>
      rw [unclosed_cons, Bracket.step_plain opens closes, Option.bind_some] at closed
      obtain ⟨inner, closer, later, rfl, nestedInner, closesBracket, laterClosed⟩ :=
        exists_matching_closer rest closed
      exact ⟨event :: inner, closer, later, rfl, .plain opens closes nestedInner, closesBracket,
        laterClosed⟩
termination_by trace.length
decreasing_by
  all_goals simp_all
  all_goals omega

theorem nested_of_unclosed (trace : Trace) (closed : unclosed [] trace = some []) :
    Nested trace := by
  match trace with
  | [] => exact .nil
  | event :: rest =>
    match opens : event.opens?, closes : event.closes? with
    | some bracket, _ =>
      rw [unclosed_cons, Bracket.step_opener opens, Option.bind_some] at closed
      obtain ⟨inner, closer, later, rfl, nestedInner, closesBracket, laterClosed⟩ :=
        exists_matching_closer rest closed
      exact .enclose opens closesBracket nestedInner (nested_of_unclosed later laterClosed)
    | none, some bracket =>
      rw [unclosed_cons, Bracket.step_closer closes] at closed
      simp at closed
    | none, none =>
      rw [unclosed_cons, Bracket.step_plain opens closes, Option.bind_some] at closed
      exact .plain opens closes (nested_of_unclosed rest closed)
termination_by trace.length
decreasing_by
  all_goals simp_all
  all_goals omega

theorem nested_iff_unclosed (trace : Trace) : Nested trace ↔ unclosed [] trace = some [] :=
  ⟨fun nested => nested.unclosed_eq [], nested_of_unclosed trace⟩

instance (trace : Trace) : Decidable (Nested trace) :=
  decidable_of_iff _ (nested_iff_unclosed trace).symm

/-- Brackets that cross are not nested, even though each kind is balanced by itself. -/
example : ¬ Nested [.foldStart, .indent, .foldEnd, .unindent] ∧
    isBalanced [.foldStart, .indent, .foldEnd, .unindent] := by decide

end Trace

end CilSketch
