import CilSketch.Proofs.Literal.Closing
import CilSketch.Proofs.Text.Numeral

/-!
Reading literals back. The literal of a string gives the string if the backslash before each quote
is dropped. An escaped character literal holds one character or one escape, and the table of
escapes, read from right to left, gives the character. Different strings and different characters
therefore have different literals.
-/

set_option autoImplicit false

namespace CilSketch.Literal

/-- The text without the backslash that stands before each quote. -/
def unescapeQuotes : List Char → List Char
  | [] => []
  | '\\' :: '"' :: rest => '"' :: unescapeQuotes rest
  | c :: rest => c :: unescapeQuotes rest

/-- A literal that reads back as a string: a backslash stands before every quote inside it, and the
string is what is left without these. -/
def SpellsString (literal text : String) : Prop :=
  ∃ inner, literal.toList = '"' :: inner ++ ['"'] ∧
    (∀ before after, inner = before ++ '"' :: after → before.getLast? = some '\\') ∧
    unescapeQuotes inner = text.toList

/-- The characters with an escape of one letter. -/
def namedEscape? : Char → Option Char
  | '\'' => some '\''
  | '\\' => some '\\'
  | 'n' => some '\n'
  | 'r' => some '\r'
  | 't' => some '\t'
  | '0' => some '\x00'
  | _ => none

def hexDigit? (c : Char) : Option Nat :=
  if 48 ≤ c.toNat ∧ c.toNat ≤ 57 then some (c.toNat - 48)
  else if 97 ≤ c.toNat ∧ c.toNat ≤ 102 then some (c.toNat - 87)
  else none

def hexValue? (digits : List Char) : Option Nat :=
  digits.foldlM (fun value digit => (hexDigit? digit).map (16 * value + ·)) 0

/-- The character that a character or an escape stands for. -/
def unescapeChar? : List Char → Option Char
  | [c] => if c = '\'' ∨ c = '\\' then none else some c
  | ['\\', letter] => namedEscape? letter
  | '\\' :: 'u' :: '\x7b' :: rest =>
      if rest.getLast? = some '\x7d' then (hexValue? rest.dropLast).map Char.ofNat else none
  | _ => none

/-- A single character that needs no escape, or a complete escape. -/
inductive CharForm : List Char → Prop where
  | plain {c : Char} : c ≠ '\'' → c ≠ '\\' → CharForm [c]
  | named {letter : Char} : (namedEscape? letter).isSome → CharForm ['\\', letter]
  | number {digits : List Char} : digits ≠ [] → (∀ digit ∈ digits, (hexDigit? digit).isSome) →
      CharForm ('\\' :: 'u' :: '\x7b' :: digits ++ ['\x7d'])

/-- What stands between the quotes of a character literal that reads back as a character. -/
structure SpellsCharInside (c : Char) (inner : List Char) : Prop where
  form : CharForm inner
  noControl : ∀ part ∈ inner, isControl part = false
  quotesEscaped : ∀ before after, inner = before ++ '\'' :: after → Odd (backslashRun before)
  readsBack : unescapeChar? inner = some c

def SpellsChar (literal : String) (c : Char) : Prop :=
  ∃ inner, literal.toList = '\'' :: inner ++ ['\''] ∧ SpellsCharInside c inner

theorem head?_escapeQuotes_ne (chars : List Char) : (escapeQuotes chars).head? ≠ some '"' := by
  induction chars using escapeQuotes.induct with
  | case1 => simp [escapeQuotes]
  | case2 rest => simp [escapeQuotes]
  | case3 c rest plain =>
    rw [escapeQuotes_of_ne plain]
    simpa using plain

theorem unescapeQuotes_cons {c : Char} {rest : List Char}
    (plain : c = '\\' → rest.head? ≠ some '"') :
    unescapeQuotes (c :: rest) = c :: unescapeQuotes rest := by
  rw [unescapeQuotes]
  rintro more rfl rfl
  exact plain rfl rfl

/-- A backslash of the text itself is never followed by a quote, because the escape of that quote
comes between. -/
theorem unescapeQuotes_escapeQuotes (chars : List Char) :
    unescapeQuotes (escapeQuotes chars) = chars := by
  induction chars using escapeQuotes.induct with
  | case1 => rfl
  | case2 rest ih => rw [escapeQuotes, unescapeQuotes, ih]
  | case3 c rest plain ih =>
    rw [escapeQuotes_of_ne plain, unescapeQuotes_cons fun _ => head?_escapeQuotes_ne rest, ih]

theorem spellsString_quoted (text : String) : SpellsString (quoted text) text := by
  refine ⟨escapeQuotes text.toList, by simp [quoted], ?_, unescapeQuotes_escapeQuotes _⟩
  intro before after split
  obtain ⟨front, -, -, rfl, -⟩ := escapeQuotes_eq_append_iff.mp split
  exact List.getLast?_concat

theorem SpellsString.unique {literal a b : String} (spellsA : SpellsString literal a)
    (spellsB : SpellsString literal b) : a = b := by
  obtain ⟨inner, whole, -, readsA⟩ := spellsA
  obtain ⟨other, again, -, readsB⟩ := spellsB
  obtain rfl : inner = other := by simpa using whole.symm.trans again
  exact String.toList_inj.mp (readsA.symm.trans readsB)

theorem SpellsChar.unique {literal : String} {a b : Char} (spellsA : SpellsChar literal a)
    (spellsB : SpellsChar literal b) : a = b := by
  obtain ⟨inner, whole, insideA⟩ := spellsA
  obtain ⟨other, again, insideB⟩ := spellsB
  obtain rfl : inner = other := by simpa using whole.symm.trans again
  exact Option.some.inj (insideA.readsBack.symm.trans insideB.readsBack)

theorem hexDigit?_digitChar : ∀ d < 16, hexDigit? (Nat.digitChar d) = some d := by
  decide

/-- A digit is no control character and no quote. -/
theorem isControl_and_ne_quote_digitChar :
    ∀ d < 16, isControl (Nat.digitChar d) = false ∧ Nat.digitChar d ≠ '\'' := by
  decide

theorem hexValue?_places (width n : Nat) :
    hexValue? (Digits.places 16 width n) = some (n % 16 ^ width) := by
  induction width generalizing n with
  | zero => simp [Digits.places, hexValue?, Nat.mod_one]
  | succ width ih =>
    have digit := hexDigit?_digitChar (n % 16) (Nat.mod_lt n (by decide))
    have front : (Digits.places 16 width (n / 16)).foldlM _ 0 = _ := ih (n / 16)
    rw [Digits.places, hexValue?, List.foldlM_append, front, Nat.pow_succ', Nat.mod_mul]
    simp [digit, Nat.add_comm]

theorem spellsCharInside_named {letter c : Char} (named : namedEscape? letter = some c)
    (visible : isControl letter = false) : SpellsCharInside c ['\\', letter] where
  form := .named (Option.isSome_of_eq_some named)
  noControl := by
    intro part member
    rcases List.mem_pair.mp member with rfl | rfl
    · rfl
    · exact visible
  quotesEscaped := by
    intro before after split
    match before with
    | [] => simp at split
    | [first] =>
      obtain ⟨rfl, -⟩ := List.cons.inj split
      decide
    | first :: second :: before => simp at split
  readsBack := named

theorem spellsCharInside_number {c : Char} (isControl : isControl c = true) :
    SpellsCharInside c ('\\' :: 'u' :: '\x7b' :: Digits.places 16 4 c.toNat ++ ['\x7d']) where
  form := by
    refine .number ?_ ?_
    · exact List.ne_nil_of_length_pos (by simp)
    · intro digit member
      obtain ⟨d, small, rfl⟩ := Digits.exists_digitChar_of_mem (by decide) member
      exact Option.isSome_of_eq_some (hexDigit?_digitChar d small)
  noControl := by
    intro part member
    simp only [List.cons_append, List.mem_cons, List.mem_append, List.not_mem_nil,
      or_false] at member
    rcases member with rfl | rfl | rfl | digit | rfl
    · rfl
    · rfl
    · rfl
    · obtain ⟨d, small, rfl⟩ := Digits.exists_digitChar_of_mem (by decide) digit
      exact (isControl_and_ne_quote_digitChar d small).1
    · rfl
  quotesEscaped := by
    intro before after split
    have member : '\'' ∈ Digits.places 16 4 c.toNat := by
      have inWhole := congrArg ('\'' ∈ ·) split
      simpa using inWhole
    obtain ⟨d, small, isQuote⟩ := Digits.exists_digitChar_of_mem (by decide) member
    exact absurd isQuote.symm (isControl_and_ne_quote_digitChar d small).2
  readsBack := by
    have small : c.toNat < 16 ^ 4 := by
      simp only [Literal.isControl, Bool.or_eq_true, Bool.and_eq_true,
        decide_eq_true_eq] at isControl
      omega
    have number : hexValue? (Digits.places 16 4 c.toNat) = some c.toNat := by
      rw [hexValue?_places, Nat.mod_eq_of_lt small]
    simp [unescapeChar?, number]

theorem spellsCharInside_plain {c : Char} (visible : isControl c = false) (notQuote : c ≠ '\'')
    (notBackslash : c ≠ '\\') : SpellsCharInside c [c] where
  form := .plain notQuote notBackslash
  noControl := by simpa using visible
  quotesEscaped := by
    intro before after split
    have member : '\'' ∈ [c] := by simp [split]
    exact absurd (List.mem_singleton.mp member).symm notQuote
  readsBack := by simp [unescapeChar?, notQuote, notBackslash]

/-- One case for each row of the table of escapes. -/
theorem spellsCharInside_escapeChar (c : Char) : SpellsCharInside c (escapeChar c).toList := by
  unfold escapeChar
  split
  · exact spellsCharInside_named rfl rfl
  · exact spellsCharInside_named rfl rfl
  · exact spellsCharInside_named rfl rfl
  · exact spellsCharInside_named rfl rfl
  · exact spellsCharInside_named rfl rfl
  · exact spellsCharInside_named rfl rfl
  · next notQuote notBackslash _ _ _ _ =>
    split
    · next isControl =>
      have inside := spellsCharInside_number isControl
      simpa [Digits.hex] using inside
    · next visible =>
      have inside := spellsCharInside_plain (Bool.eq_false_iff.mpr visible) notQuote
        notBackslash
      simpa using inside

theorem spellsChar_charText {options : Options} (escapes : options.escapeChars = true) (c : Char) :
    SpellsChar (charText options c) c := by
  refine ⟨(escapeChar c).toList, ?_, spellsCharInside_escapeChar c⟩
  simp [charText, escapes]

end CilSketch.Literal

namespace CilSketch

open Literal

/-- The literals of strings, and those of characters where they are escaped, read back as what they
were written for, so that no two strings and no two characters share one. -/
theorem text_literals_read_back (options : Options) :
    (∀ text, SpellsString (Literal.ofConstant options (.string text)).text text) ∧
      (Function.Injective fun text => (Literal.ofConstant options (.string text)).text) ∧
      (options.escapeChars = true →
        (∀ c, SpellsChar (Literal.ofConstant options (.char c)).text c) ∧
          Function.Injective fun c => (Literal.ofConstant options (.char c)).text) := by
  refine ⟨spellsString_quoted, ?_, ?_⟩
  · intro a b same
    have literal : quoted a = quoted b := same
    have spells := spellsString_quoted b
    rw [← literal] at spells
    exact (spellsString_quoted a).unique spells
  · intro escapes
    refine ⟨spellsChar_charText escapes, ?_⟩
    intro a b same
    have literal : charText options a = charText options b := same
    have spells := spellsChar_charText escapes b
    rw [← literal] at spells
    exact (spellsChar_charText escapes a).unique spells

/-- A control character without an escape of its own, and a string whose backslash does not belong
to the quote behind it. -/
theorem escape_character_and_backslash_read_back :
    SpellsChar "'\\u\x7b001b\x7d'" '\x1b' ∧ SpellsString "\"\\\\\"\"" "\\\"" := by
  obtain ⟨strings, -, chars⟩ := text_literals_read_back { escapeChars := true }
  exact ⟨(chars rfl).1 '\x1b', strings "\\\""⟩

end CilSketch
