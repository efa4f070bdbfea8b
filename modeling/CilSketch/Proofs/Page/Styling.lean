import CilSketch.Proofs.Page.Index
import CilSketch.Proofs.Page.Laminar

/-!
The style of a token, seen in two ways. A trace knows the style of the innermost span that is open
when the token is written; a finished page knows which closed spans contain the token. The two
agree once all spans are closed: a span that was closed before the token or opened after it does
not contain it, and of those that were open the innermost is closed first.
-/

set_option autoImplicit false

namespace CilSketch

namespace Event

/-- The token that an event writes, if it writes one. -/
def token? : Event → Option String
  | .text shown => some shown
  | .reference _ shown _ => some shown
  | _ => none

theorem written_of_token? {event : Event} {shown : String} (isToken : event.token? = some shown) :
    event.written = shown := by
  cases event <;> simp_all [token?, written]

theorem startsLine_of_token? {event : Event} {shown : String} (isToken : event.token? = some shown)
    (nonempty : shown ≠ "") : event.startsLine = true := by
  cases event <;> simp_all [token?, startsLine]

end Event

namespace Interval

def Within (inner outer : Interval) : Prop :=
  outer.start ≤ inner.start ∧ inner.stop ≤ outer.stop

instance (inner outer : Interval) : Decidable (inner.Within outer) :=
  inferInstanceAs (Decidable (_ ∧ _))

end Interval

namespace Page

/-- Where a token comes to stand on a page, after the indentation of its line. -/
def tokenExtent (page : Page) (event : Event) : Interval :=
  ⟨page.startLine.size, (page.step event).size⟩

/-- The style of the first span to be closed that contains an interval. -/
def styleOver (page : Page) (extent : Interval) : Option Style :=
  (page.spans.find? fun span => extent.Within span.extent).map Span.style

/-- The styles of the open spans, the innermost first. -/
def openStyles (page : Page) : List Style :=
  page.openSpans.map OpenSpan.style

theorem styleOver_eq_none_iff (page : Page) (extent : Interval) :
    page.styleOver extent = none ↔ ∀ span ∈ page.spans, ¬ extent.Within span.extent := by
  simp [styleOver]

theorem styleOver_of_same {before after : Page} (same : after.spans = before.spans)
    (extent : Interval) : after.styleOver extent = before.styleOver extent := by
  rw [styleOver, same, styleOver]

theorem styleOver_of_recorded {before after : Page} {span : Span}
    (recorded : after.spans = before.spans ++ [span]) (extent : Interval) :
    after.styleOver extent =
      (before.styleOver extent).or
        (if extent.Within span.extent then some span.style else none) := by
  rw [styleOver, recorded, List.find?_append, Option.map_or]
  by_cases within : extent.Within span.extent
  · simp [styleOver, within]
  · simp [styleOver, within]

theorem openStyles_step_other (page : Page) {event : Event}
    (opens : event.opens? ≠ some .span) (closes : event.closes? ≠ some .span) :
    (page.step event).openStyles = page.openStyles :=
  congrArg (List.map OpenSpan.style) (spanKind.step_other page event opens closes).1

theorem openStyles_step_beginSpan (page : Page) (style : Style) :
    (page.step (.beginSpan style)).openStyles = style :: page.openStyles := by
  simp [openStyles, step, startLine_eq]

/-- A stray end of a span finds the stack empty and leaves it so. -/
theorem openStyles_step_endSpan (page : Page) :
    (page.step .endSpan).openStyles = page.openStyles.tail := by
  cases opened : page.openSpans with
  | nil => simp [openStyles, step, opened]
  | cons span outer => simp [openStyles, step, opened]

end Page

namespace Trace

/-- An event writes its token, if it has one, in the style of the innermost span of the page. -/
theorem tokensWithin_cons (page : Page) (event : Event) (rest : Trace) :
    tokensWithin page.openStyles (event :: rest) =
      event.token?.toList.map (page.openStyles.head?, ·) ++
        tokensWithin (page.step event).openStyles rest := by
  cases event with
  | beginSpan style => rw [page.openStyles_step_beginSpan]; rfl
  | endSpan => rw [page.openStyles_step_endSpan]; rfl
  | text | lineBreak | reference | indent | unindent | foldStart | foldEnd =>
    rw [page.openStyles_step_other (by simp [Event.opens?]) (by simp [Event.closes?])]
    rfl

theorem tokensWithin_append (page : Page) (a b : Trace) :
    tokensWithin page.openStyles (a ++ b) =
      tokensWithin page.openStyles a ++ tokensWithin (page.play a).openStyles b := by
  induction a generalizing page with
  | nil => rfl
  | cons event rest ih =>
    rw [List.cons_append, tokensWithin_cons, tokensWithin_cons, ih, Page.play_cons,
      List.append_assoc]

theorem map_snd_tokensWithin (page : Page) (trace : Trace) :
    (tokensWithin page.openStyles trace).map Prod.snd = trace.filterMap Event.token? := by
  induction trace generalizing page with
  | nil => rfl
  | cons event rest ih =>
    rw [tokensWithin_cons, List.map_append, ih, List.filterMap_cons]
    cases event.token? <;> simp

/-- The token of an event has as many tokens before it as the events before it write. -/
theorem getElem?_styledTokens (unit : String) {before later : Trace} {event : Event}
    {shown : String} (isToken : event.token? = some shown) :
    (before ++ event :: later).styledTokens[(before.filterMap Event.token?).length]? =
      some (((Page.blank unit).play before).openStyles.head?, shown) := by
  have start : (Page.blank unit).openStyles = [] := rfl
  have tokens := tokensWithin_append (.blank unit) before (event :: later)
  have count := congrArg List.length (map_snd_tokensWithin (.blank unit) before)
  rw [List.length_map] at count
  rw [start] at tokens count
  rw [styledTokens, tokens, ← count, List.getElem?_append_right (Nat.le_refl _), Nat.sub_self,
    tokensWithin_cons, isToken]
  rfl

end Trace

namespace Page

/-- A token that is not empty comes right behind the indentation of its line. -/
theorem text_step_token (page : Page) {event : Event} {shown : String}
    (isToken : event.token? = some shown) (nonempty : shown ≠ "") :
    (page.step event).text = page.startLine.text ++ shown := by
  rw [text_step, Event.startsLine_of_token? isToken nonempty, Event.written_of_token? isToken,
    startLine_eq]
  rfl

theorem size_step_token (page : Page) {event : Event} {shown : String}
    (isToken : event.token? = some shown) (nonempty : shown ≠ "") :
    (page.step event).size = page.startLine.size + shown.utf8ByteSize := by
  rw [size, page.text_step_token isToken nonempty, String.utf8ByteSize_append, size]

theorem isPart_token (page : Page) {event : Event} {shown : String}
    (isToken : event.token? = some shown) (nonempty : shown ≠ "") :
    IsPart (page.step event).text (page.tokenExtent event).start (page.tokenExtent event).stop
      shown := by
  refine ⟨page.startLine.text, "", ?_, rfl, ?_⟩
  · rw [page.text_step_token isToken nonempty, String.append_empty]
  · rw [String.utf8ByteSize_append]
    exact page.size_step_token isToken nonempty

theorem tokenExtent_start_lt_stop (page : Page) {event : Event} {shown : String}
    (isToken : event.token? = some shown) (nonempty : shown ≠ "") :
    (page.tokenExtent event).start < (page.tokenExtent event).stop := by
  have positive : 0 < shown.utf8ByteSize :=
    Nat.pos_of_ne_zero fun empty => nonempty (String.utf8ByteSize_eq_zero_iff.mp empty)
  have stop : (page.tokenExtent event).stop =
      (page.tokenExtent event).start + shown.utf8ByteSize :=
    page.size_step_token isToken nonempty
  omega

/-- What a page still knows of a token that was written while the spans of a stack were open. Those
of them that are closed by now answer for its style, and what is open above the others was opened
after the token. -/
structure Recalls (extent : Interval) (opened : List OpenSpan) (page : Page) : Prop where
  written : extent.stop ≤ page.size
  answered : ∃ added closed remaining, opened = closed ++ remaining ∧
    page.openSpans = added ++ remaining ∧ (∀ span ∈ added, extent.stop ≤ span.start) ∧
    page.styleOver extent = closed.head?.map OpenSpan.style

namespace Recalls

variable {extent : Interval} {opened : List OpenSpan} {page : Page}

/-- A span that was opened after the token is closed without the token in it. -/
theorem close_added (nonempty : extent.start < extent.stop) {span : OpenSpan}
    (after : extent.stop ≤ span.start) {later : Page}
    (recorded : later.spans = page.spans ++ [spanKind.finish page span]) :
    later.styleOver extent = page.styleOver extent := by
  have outside : ¬ extent.Within (spanKind.finish page span).extent := by
    rintro ⟨starts, -⟩
    have reaches : span.start ≤ extent.start := starts
    omega
  rw [styleOver_of_recorded recorded, if_neg outside, Option.or_none]

/-- A span that was open at the token contains it when it is closed. -/
theorem close_opened (written : extent.stop ≤ page.size) {span : OpenSpan}
    (before : span.start ≤ extent.start) {later : Page}
    (recorded : later.spans = page.spans ++ [spanKind.finish page span]) :
    later.styleOver extent = (page.styleOver extent).or (some span.style) := by
  have inside : extent.Within (spanKind.finish page span).extent := ⟨before, written⟩
  rw [styleOver_of_recorded recorded, if_pos inside]
  rfl

theorem step (nonempty : extent.start < extent.stop)
    (before : ∀ span ∈ opened, span.start ≤ extent.start) (recalls : Recalls extent opened page)
    (event : Event) : Recalls extent opened (page.step event) := by
  have written : extent.stop ≤ (page.step event).size :=
    recalls.written.trans (page.size_le_step event)
  refine ⟨written, ?_⟩
  obtain ⟨added, closed, remaining, split, stack, after, style⟩ := recalls.answered
  cases spanKind.move page event with
  | other opens closes sameOpened sameClosed =>
    refine ⟨added, closed, remaining, split, sameOpened.trans stack, after, ?_⟩
    exact (styleOver_of_same sameClosed extent).trans style
  | opener span opens marked pushed sameClosed =>
    have starts := (spanKind_mark_eq_some_iff.mp marked).2
    refine ⟨span :: added, closed, remaining, split, ?_, ?_, ?_⟩
    · exact pushed.trans (congrArg (List.cons span) stack)
    · intro other member
      rcases List.mem_cons.mp member with rfl | member
      · rw [starts]
        exact written
      · exact after other member
    · exact (styleOver_of_same sameClosed extent).trans style
  | closer innermost closes popped recorded =>
    have whole : added ++ remaining = innermost :: (page.step event).openSpans :=
      stack.symm.trans popped
    cases added with
    | cons top lower =>
      obtain ⟨rfl, rest⟩ := List.cons.inj whole
      refine ⟨lower, closed, remaining, split, rest.symm, ?_, ?_⟩
      · intro other member
        exact after other (List.mem_cons_of_mem _ member)
      · rw [close_added nonempty (after top List.mem_cons_self) recorded, style]
    | nil =>
      -- The stack is down to what was open at the token, so the innermost of these goes.
      rw [List.nil_append] at whole
      subst whole
      refine ⟨[], closed ++ [innermost], _, ?_, rfl, by simp, ?_⟩
      · rw [split, List.append_assoc, List.singleton_append]
      · have member : innermost ∈ opened := by simp [split]
        rw [close_opened recalls.written (before innermost member) recorded, style]
        cases closed <;> rfl
  | stray closes nothing sameOpened sameClosed =>
    refine ⟨added, closed, remaining, split, ?_, after, ?_⟩
    · exact sameOpened.trans (nothing.symm.trans stack)
    · exact (styleOver_of_same sameClosed extent).trans style

theorem play (nonempty : extent.start < extent.stop)
    (before : ∀ span ∈ opened, span.start ≤ extent.start) (recalls : Recalls extent opened page)
    (trace : Trace) : Recalls extent opened (page.play trace) := by
  induction trace generalizing page with
  | nil => exact recalls
  | cons event rest ih => exact ih (recalls.step nonempty before event)

/-- Once no span is open, the innermost of those that were open at the token gives its style. -/
theorem styleOver_eq (recalls : Recalls extent opened page) (allClosed : page.openSpans = []) :
    page.styleOver extent = opened.head?.map OpenSpan.style := by
  obtain ⟨added, closed, remaining, split, stack, -, style⟩ := recalls.answered
  rw [allClosed] at stack
  obtain ⟨-, rfl⟩ := List.append_eq_nil_iff.mp stack.symm
  rw [style, split, List.append_nil]

end Recalls

/-- When the token is written, no span is closed that contains it. -/
theorem recalls_token {page : Page} (laminar : spanExtents.IsLaminar page) {event : Event}
    {shown : String} (isToken : event.token? = some shown) (nonempty : shown ≠ "") :
    Recalls (page.tokenExtent event) page.openSpans (page.step event) := by
  have opens : event.opens? ≠ some .span := by
    intro opens
    obtain ⟨style, rfl⟩ := Event.opens?_eq_span_iff.mp opens
    simp [Event.token?] at isToken
  have closes : event.closes? ≠ some .span := by
    intro closes
    obtain rfl := Event.closes?_eq_span_iff.mp closes
    simp [Event.token?] at isToken
  obtain ⟨sameOpened, sameClosed⟩ := spanKind.step_other page event opens closes
  refine ⟨Nat.le_refl _, [], [], page.openSpans, rfl, sameOpened, by simp, ?_⟩
  rw [styleOver_of_same sameClosed]
  apply (page.styleOver_eq_none_iff _).mpr
  rintro span isClosed ⟨-, reaches⟩
  have stops : span.extent.stop ≤ page.size :=
    laminar.closed_le span.extent (List.mem_map_of_mem isClosed)
  have starts := page.size_le_startLine
  have positive := page.tokenExtent_start_lt_stop isToken nonempty
  have start : (page.tokenExtent event).start = page.startLine.size := rfl
  omega

theorem styleOver_token {page : Page} (laminar : spanExtents.IsLaminar page) {event : Event}
    {shown : String} (isToken : event.token? = some shown) (nonempty : shown ≠ "") {later : Trace}
    (allClosed : ((page.step event).play later).openSpans = []) :
    ((page.step event).play later).styleOver (page.tokenExtent event) =
      page.openStyles.head? := by
  have positive := page.tokenExtent_start_lt_stop isToken nonempty
  have opened : ∀ span ∈ page.openSpans, span.start ≤ (page.tokenExtent event).start := by
    intro span isOpen
    have bounded : span.start ≤ page.size :=
      laminar.opened_le span.start (List.mem_map_of_mem isOpen)
    exact bounded.trans page.size_le_startLine
  have recalls := (recalls_token laminar isToken nonempty).play positive opened later
  rw [recalls.styleOver_eq allClosed, openStyles, List.head?_map]

theorem slice_token (page : Page) {event : Event} {shown : String}
    (isToken : event.token? = some shown) (nonempty : shown ≠ "") (later : Trace) :
    ((page.step event).play later).slice (page.tokenExtent event).start
      (page.tokenExtent event).stop = shown := by
  obtain ⟨added, grown⟩ := (page.step event).exists_text_play later
  apply IsPart.page_slice_eq
  rw [grown]
  exact (page.isPart_token isToken nonempty).append added

end Page

/-- After all spans are closed, a token that is not empty has the same style in the trace, where the
innermost open span gives it, and on the page, where the first span to be closed around the token
gives it. It has none exactly if no span of the page contains it. -/
theorem styledTokens_agree_with_spans (unit : String) (trace before later : Trace) (event : Event)
    (shown : String) (split : trace = before ++ event :: later)
    (allClosed : ((Page.blank unit).play trace).openSpans = [])
    (isToken : event.token? = some shown) (nonempty : shown ≠ "") :
    let page := (Page.blank unit).play trace
    let extent := ((Page.blank unit).play before).tokenExtent event
    let place := (before.filterMap Event.token?).length
    page.slice extent.start extent.stop = shown ∧
      trace.styledTokens[place]? = some (page.styleOver extent, shown) ∧
      (trace.styledTokens[place]? = some (none, shown) ↔
        ∀ span ∈ page.spans, ¬ extent.Within span.extent) := by
  intro page extent place
  have whole : page = (((Page.blank unit).play before).step event).play later := by
    rw [← Page.play_cons, ← Page.play_append, ← split]
  have laminar := spanExtents.isLaminar_play (spanExtents.isLaminar_blank unit) before
  have style : page.styleOver extent = ((Page.blank unit).play before).openStyles.head? := by
    rw [whole]
    apply Page.styleOver_token laminar isToken nonempty
    rw [← whole]
    exact allClosed
  have token : trace.styledTokens[place]? = some (page.styleOver extent, shown) := by
    rw [style, split, Trace.getElem?_styledTokens unit isToken]
  refine ⟨?_, token, ?_⟩
  · rw [whole]
    exact Page.slice_token _ isToken nonempty later
  · rw [token, ← page.styleOver_eq_none_iff]
    simp

/-- Two spans that cover the same text, over a line break and after a stray end. The token on the
second line has the style of the inner one. -/
def overlaidSpans : Trace :=
  [.endSpan, .indent, .beginSpan StyleCategory.keyword.style,
    .beginSpan StyleCategory.type.style, .text "a", .lineBreak, .reference "T" "b" false, .endSpan,
    .endSpan, .unindent]

theorem overlaidSpans_style_token :
    ((Page.blank "\t").play overlaidSpans).slice 4 5 = "b" ∧
      ((Page.blank "\t").play overlaidSpans).styleOver ⟨4, 5⟩ = some StyleCategory.type.style := by
  obtain ⟨shown, token, -⟩ := styledTokens_agree_with_spans "\t" overlaidSpans
    (overlaidSpans.take 6) (overlaidSpans.drop 7) (.reference "T" "b" false) "b" rfl rfl rfl
    (by decide)
  have extent : ((Page.blank "\t").play (overlaidSpans.take 6)).tokenExtent
      (.reference "T" "b" false) = ⟨4, 5⟩ := by decide
  have styled : overlaidSpans.styledTokens[1]? = some (some StyleCategory.type.style, "b") := rfl
  rw [extent] at shown token
  refine ⟨shown, ?_⟩
  simpa using token.symm.trans styled

end CilSketch
