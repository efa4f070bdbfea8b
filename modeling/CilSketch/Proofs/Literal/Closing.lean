import CilSketch.Projection.Literal
import Mathlib.Algebra.Ring.Parity
import Mathlib.Data.List.DropRight

/-!
Where a quoted text ends. A backslash takes the character behind it along, so what closes the text
is the first quote that is not taken, and a quote is taken if it stands behind an odd number of
backslashes. The literal of a string escapes its quotes but not its backslashes. It ends where it
should exactly if the string has even runs of backslashes before its quotes and at its end.
-/

set_option autoImplicit false

namespace CilSketch.Literal

/-- Whether the next character is taken by a backslash, from whether this one is. -/
def takesNext (taken : Bool) (c : Char) : Bool :=
  !taken && c == '\\'

/-- What stands behind the quote that closes a text, if one does. -/
def afterClosing (taken : Bool) : List Char → Option (List Char)
  | [] => none
  | c :: rest =>
      if c = '"' ∧ taken = false then some rest else afterClosing (takesNext taken c) rest

/-- The text opens with a quote, and the quote that closes it is its last character. -/
def EndsAtLastQuote (text : String) : Prop :=
  text.toList.head? = some '"' ∧ afterClosing false text.toList.tail = some []

instance (text : String) : Decidable (EndsAtLastQuote text) :=
  inferInstanceAs (Decidable (_ ∧ _))

/-- The number of backslashes at the end of a text. -/
def backslashRun (chars : List Char) : Nat :=
  (chars.rtakeWhile (· = '\\')).length

/-- Between its first and its last quote, a text has quotes behind odd runs of backslashes only, and
its last quote stands behind an even one. -/
def OnlyLastQuoteBare (text : String) : Prop :=
  ∃ inner, text.toList = '"' :: inner ++ ['"'] ∧ Even (backslashRun inner) ∧
    ∀ before after, inner = before ++ '"' :: after → Odd (backslashRun before)

/-- Backslashes stand in pairs where a quote or the end of the text follows. -/
structure PairsBackslashes (chars : List Char) : Prop where
  beforeQuotes : ∀ before after, chars = before ++ '"' :: after → Even (backslashRun before)
  atEnd : Even (backslashRun chars)

theorem backslashRun_concat_backslash (chars : List Char) :
    backslashRun (chars ++ ['\\']) = backslashRun chars + 1 := by
  rw [backslashRun, List.rtakeWhile_concat_pos _ _ _ (by simp), List.length_append]
  rfl

theorem backslashRun_concat_other (chars : List Char) {c : Char} (other : c ≠ '\\') :
    backslashRun (chars ++ [c]) = 0 := by
  rw [backslashRun, List.rtakeWhile_concat_neg _ _ _ (by simpa using other), List.length_nil]

/-- A character is taken if it stands behind an odd run of backslashes. -/
theorem foldl_takesNext_eq_true_iff (front : List Char) :
    front.foldl takesNext false = true ↔ Odd (backslashRun front) := by
  induction front using List.reverseRecOn with
  | nil => simp [backslashRun]
  | append_singleton front c ih =>
    rw [List.foldl_append, List.foldl_cons, List.foldl_nil]
    by_cases isBackslash : c = '\\'
    · rw [isBackslash, backslashRun_concat_backslash, Nat.odd_add_one, ← ih]
      simp [takesNext]
    · rw [backslashRun_concat_other _ isBackslash]
      simp [takesNext, isBackslash]

theorem foldl_takesNext_eq_false_iff (front : List Char) :
    front.foldl takesNext false = false ↔ Even (backslashRun front) := by
  rw [← Bool.not_eq_true, foldl_takesNext_eq_true_iff, Nat.not_odd_iff_even]

/-- The quote that closes a text is the first one that is not taken. -/
theorem afterClosing_eq_some_iff {taken : Bool} {text rest : List Char} :
    afterClosing taken text = some rest ↔
      ∃ front, text = front ++ '"' :: rest ∧ front.foldl takesNext taken = false ∧
        ∀ before after, front = before ++ '"' :: after →
          before.foldl takesNext taken = true := by
  induction text generalizing taken with
  | nil => simp [afterClosing]
  | cons c text ih =>
    rw [afterClosing]
    split
    · next closes =>
      obtain ⟨rfl, rfl⟩ := closes
      constructor
      · intro found
        obtain rfl := Option.some.inj found
        exact ⟨[], rfl, rfl, by simp⟩
      · -- A longer front would begin with this quote, which is not taken.
        rintro ⟨front, split, -, earlier⟩
        cases front with
        | nil => exact congrArg some (List.cons.inj split).2
        | cons first front =>
          obtain ⟨rfl, -⟩ := List.cons.inj split
          simpa using earlier [] front rfl
    · next passes =>
      rw [ih]
      constructor
      · rintro ⟨front, rfl, bare, earlier⟩
        refine ⟨c :: front, rfl, bare, ?_⟩
        intro before after split
        cases before with
        | nil =>
          obtain ⟨rfl, -⟩ := List.cons.inj split
          simpa using passes
        | cons first before =>
          obtain ⟨rfl, inFront⟩ := List.cons.inj split
          exact earlier before after inFront
      · rintro ⟨front, split, bare, earlier⟩
        cases front with
        | nil =>
          obtain ⟨rfl, -⟩ := List.cons.inj split
          exact absurd ⟨rfl, bare⟩ passes
        | cons first front =>
          obtain ⟨rfl, inText⟩ := List.cons.inj split
          refine ⟨front, inText, bare, ?_⟩
          rintro before after rfl
          exact earlier (c :: before) after rfl

theorem endsAtLastQuote_iff_onlyLastQuoteBare (text : String) :
    EndsAtLastQuote text ↔ OnlyLastQuoteBare text := by
  simp only [EndsAtLastQuote, OnlyLastQuoteBare, afterClosing_eq_some_iff,
    foldl_takesNext_eq_true_iff, foldl_takesNext_eq_false_iff]
  constructor
  · rintro ⟨opens, inner, closes, parity⟩
    refine ⟨inner, ?_, parity⟩
    rw [List.cons_append, ← closes]
    exact List.eq_cons_of_mem_head? opens
  · rintro ⟨inner, whole, parity⟩
    rw [whole]
    exact ⟨rfl, inner, rfl, parity⟩

theorem escapeQuotes_append (a b : List Char) :
    escapeQuotes (a ++ b) = escapeQuotes a ++ escapeQuotes b := by
  induction a using escapeQuotes.induct with
  | case1 => rfl
  | case2 rest ih => simp [escapeQuotes, ih]
  | case3 c rest plain ih => simp [escapeQuotes, ih]

theorem escapeQuotes_of_ne {c : Char} (plain : c ≠ '"') (rest : List Char) :
    escapeQuotes (c :: rest) = c :: escapeQuotes rest := by
  rw [escapeQuotes]
  exact plain

/-- The backslash of an escape belongs to its quote, and no run ends with a quote. -/
theorem backslashRun_escapeQuotes (chars : List Char) :
    backslashRun (escapeQuotes chars) = backslashRun chars := by
  induction chars using List.reverseRecOn with
  | nil => rfl
  | append_singleton chars c ih =>
    rw [escapeQuotes_append]
    by_cases isBackslash : c = '\\'
    · have escaped : escapeQuotes [c] = ['\\'] := by rw [isBackslash]; rfl
      rw [escaped, isBackslash, backslashRun_concat_backslash, backslashRun_concat_backslash, ih]
    · rw [backslashRun_concat_other _ isBackslash]
      by_cases isQuote : c = '"'
      · have escaped : escapeQuotes [c] = ['\\'] ++ ['"'] := by rw [isQuote]; rfl
        rw [escaped, ← List.append_assoc, backslashRun_concat_other _ (by decide)]
      · rw [escapeQuotes_of_ne isQuote]
        exact backslashRun_concat_other _ isBackslash

/-- Every quote of an escaped text comes from a quote of the text. -/
theorem escapeQuotes_eq_append_iff {chars before after : List Char} :
    escapeQuotes chars = before ++ '"' :: after ↔
      ∃ front back, chars = front ++ '"' :: back ∧ before = escapeQuotes front ++ ['\\'] ∧
        after = escapeQuotes back := by
  constructor
  · intro split
    induction chars using escapeQuotes.induct generalizing before with
    | case1 => simp [escapeQuotes] at split
    | case2 rest ih =>
      rw [escapeQuotes] at split
      match before with
      | [] => simp at split
      | [first] =>
        obtain ⟨rfl, rfl⟩ : '\\' = first ∧ escapeQuotes rest = after := by simpa using split
        exact ⟨[], rest, rfl, rfl, rfl⟩
      | first :: second :: before =>
        obtain ⟨rfl, rfl, inRest⟩ : '\\' = first ∧ '"' = second ∧
            escapeQuotes rest = before ++ '"' :: after := by
          simpa using split
        obtain ⟨front, back, rfl, rfl, rfl⟩ := ih inRest
        exact ⟨'"' :: front, back, rfl, rfl, rfl⟩
    | case3 c rest plain ih =>
      rw [escapeQuotes_of_ne plain] at split
      cases before with
      | nil => exact absurd (List.cons.inj split).1 plain
      | cons first before =>
        obtain ⟨rfl, inRest⟩ := List.cons.inj split
        obtain ⟨front, back, rfl, rfl, rfl⟩ := ih inRest
        exact ⟨c :: front, back, rfl, by rw [escapeQuotes_of_ne plain]; rfl, rfl⟩
  · rintro ⟨front, back, rfl, rfl, rfl⟩
    rw [escapeQuotes_append, escapeQuotes, List.append_assoc]
    rfl

theorem onlyLastQuoteBare_quoted_iff (text : String) :
    OnlyLastQuoteBare (quoted text) ↔ PairsBackslashes text.toList := by
  constructor
  · rintro ⟨inner, whole, atEnd, inside⟩
    obtain rfl : escapeQuotes text.toList = inner := by simpa [quoted] using whole
    refine ⟨?_, ?_⟩
    · intro before after split
      have escaped := inside _ _ (escapeQuotes_eq_append_iff.mpr ⟨before, after, split, rfl, rfl⟩)
      rwa [backslashRun_concat_backslash, backslashRun_escapeQuotes, Nat.odd_add_one,
        Nat.not_odd_iff_even] at escaped
    · rwa [backslashRun_escapeQuotes] at atEnd
  · rintro ⟨beforeQuotes, atEnd⟩
    refine ⟨escapeQuotes text.toList, by simp [quoted], ?_, ?_⟩
    · rwa [backslashRun_escapeQuotes]
    · intro before after split
      obtain ⟨front, back, whole, rfl, -⟩ := escapeQuotes_eq_append_iff.mp split
      rw [backslashRun_concat_backslash, backslashRun_escapeQuotes, Nat.odd_add_one,
        Nat.not_odd_iff_even]
      exact beforeQuotes front back whole

end CilSketch.Literal

namespace CilSketch

open Literal

/-- The quote that closes the literal of a string is its last character exactly if the backslashes
of the string stand in pairs before its quotes and at its end. That it is the last character means
that all other quotes stand behind odd runs of backslashes, and that one behind an even run. -/
theorem string_literal_ends_iff_pairsBackslashes (options : Options) (text : String) :
    let literal := (Literal.ofConstant options (.string text)).text
    (EndsAtLastQuote literal ↔ PairsBackslashes text.toList) ∧
      (EndsAtLastQuote literal ↔ OnlyLastQuoteBare literal) := by
  intro literal
  have bare := endsAtLastQuote_iff_onlyLastQuoteBare literal
  exact ⟨bare.trans (onlyLastQuoteBare_quoted_iff text), bare⟩

/-- A backslash before a quote takes the backslash of the escape, so the literal ends too early;
one at the end takes the last quote, so the literal does not end at all. -/
theorem backslash_breaks_string_literal :
    ¬ EndsAtLastQuote (Literal.ofConstant {} (.string "\\\"")).text ∧
      ¬ EndsAtLastQuote (Literal.ofConstant {} (.string "\\")).text := by
  decide

end CilSketch
