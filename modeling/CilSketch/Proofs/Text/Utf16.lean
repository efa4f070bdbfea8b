import CilSketch.Bytes.RoundTrip
import CilSketch.Text.Utf16
import Mathlib.Data.List.Induction

/-!
Encoding and decoding of UTF-16 are inverse, and what is not an encoding has a surrogate without
its other half. Units are taken apart character by character: they start with the encoding of one,
or with a surrogate that is half of nothing.
-/

set_option autoImplicit false

namespace CilSketch.Utf16

def IsHigh (unit : UInt16) : Prop :=
  0xD800 ≤ unit.toNat ∧ unit.toNat < 0xDC00

def IsLow (unit : UInt16) : Prop :=
  0xDC00 ≤ unit.toNat ∧ unit.toNat < 0xE000

/-- A surrogate between other units that is not half of a pair: a high one with no low one right
after it, or a low one with no high one right before it. -/
def Stray (before : List UInt16) (unit : UInt16) (after : List UInt16) : Prop :=
  (IsHigh unit ∧ ∀ next ∈ after.head?, ¬IsLow next) ∨
    (IsLow unit ∧ ∀ last ∈ before.getLast?, ¬IsHigh last)

def HasStray (units : List UInt16) : Prop :=
  ∃ before unit after, units = before ++ unit :: after ∧ Stray before unit after

/-- A text as UTF-16 units in little-endian order. -/
def littleEndian (text : String) : Bytes :=
  toBytes (encode text.toList)

section Bytes

theorem toBytes_cons (unit : UInt16) (rest : List UInt16) :
    toBytes (unit :: rest) = LittleEndian.encode 2 unit.toNat ++ toBytes rest := rfl

theorem length_toBytes (units : List UInt16) : (toBytes units).length = 2 * units.length := by
  induction units with
  | nil => rfl
  | cons unit rest ih =>
    rw [toBytes_cons, List.length_append, LittleEndian.length_encode, ih, List.length_cons]
    omega

theorem ofBytes_toBytes (units : List UInt16) : ofBytes (toBytes units) = units := by
  induction units with
  | nil => rfl
  | cons unit rest ih =>
    have joined : LittleEndian.decode (LittleEndian.encode 2 unit.toNat) = unit.toNat :=
      (LittleEndian.decode_encode 2 unit.toNat).trans (Nat.mod_eq_of_lt unit.toNat_lt)
    have first : ofBytes (toBytes (unit :: rest)) =
        UInt16.ofNat (LittleEndian.decode (LittleEndian.encode 2 unit.toNat)) ::
          ofBytes (toBytes rest) := rfl
    rw [first, joined, UInt16.ofNat_toNat, ih]

theorem toBytes_ofBytes (bytes : Bytes) (even : bytes.length % 2 = 0) :
    toBytes (ofBytes bytes) = bytes := by
  match bytes with
  | [] => rfl
  | [byte] => simp at even
  | low :: high :: rest =>
    have fits : low.toNat + 256 * high.toNat < 65536 := by
      have lowBound : low.toNat < 256 := low.toNat_lt
      have highBound : high.toNat < 256 := high.toNat_lt
      omega
    have value : (UInt16.ofNat (low.toNat + 256 * high.toNat)).toNat =
        low.toNat + 256 * high.toNat := by
      rw [UInt16.toNat_ofNat', Nat.mod_eq_of_lt fits]
    have pair : LittleEndian.encode 2 (low.toNat + 256 * high.toNat) = [low, high] := by
      simpa [LittleEndian.decode] using LittleEndian.encode_decode [low, high]
    have later : rest.length % 2 = 0 := by
      rw [List.length_cons, List.length_cons] at even
      omega
    rw [ofBytes, toBytes_cons, value, pair, toBytes_ofBytes rest later]
    rfl

end Bytes

section Characters

variable {unit high low : UInt16} {char : Char}

theorem isValidChar_toNat (char : Char) : char.toNat.isValidChar :=
  char.valid

theorem ofUnit?_eq_some_iff : ofUnit? unit = some char ↔ char.toNat = unit.toNat := by
  unfold ofUnit?
  constructor
  · intro found
    by_cases valid : unit.toNat.isValidChar
    · rw [dif_pos valid] at found
      obtain rfl := Option.some.inj found
      rfl
    · rw [dif_neg valid] at found
      cases found
  · intro same
    have valid : unit.toNat.isValidChar := same ▸ isValidChar_toNat char
    rw [dif_pos valid, Option.some.injEq]
    exact Char.toNat_inj.mp same.symm

/-- Only a surrogate is no character by itself. -/
theorem ofUnit?_eq_none_iff : ofUnit? unit = none ↔ IsHigh unit ∨ IsLow unit := by
  have bound : unit.toNat < 65536 := unit.toNat_lt
  unfold ofUnit? IsHigh IsLow
  by_cases valid : unit.toNat.isValidChar
  · rw [dif_pos valid]
    refine iff_of_false (Option.some_ne_none _) ?_
    unfold Nat.isValidChar at valid
    omega
  · rw [dif_neg valid]
    refine iff_of_true rfl ?_
    unfold Nat.isValidChar at valid
    omega

theorem ofPair?_eq_some_iff :
    ofPair? high low = some char ↔
      IsHigh high ∧ IsLow low ∧
        char.toNat = 0x10000 + (high.toNat - 0xD800) * 0x400 + (low.toNat - 0xDC00) := by
  unfold ofPair? IsHigh IsLow
  constructor
  · intro found
    split at found
    · next pair =>
      obtain rfl := Option.some.inj found
      have valid : (0x10000 + (high.toNat - 0xD800) * 0x400 + (low.toNat - 0xDC00)).isValidChar :=
        .inr (by omega)
      refine ⟨⟨pair.1, pair.2.1⟩, pair.2.2, ?_⟩
      rw [Char.ofNat, dif_pos valid]
      rfl
    · cases found
  · rintro ⟨isHigh, isLow, same⟩
    rw [if_pos ⟨isHigh.1, isHigh.2, isLow⟩, ← same, Char.ofNat_toNat]

theorem ofPair?_eq_none_iff : ofPair? high low = none ↔ (IsHigh high → ¬IsLow low) := by
  unfold ofPair? IsHigh IsLow
  split
  · simp
    omega
  · simp
    omega

theorem encodeChar_eq_singleton_iff : encodeChar char = [unit] ↔ ofUnit? unit = some char := by
  have bound : unit.toNat < 65536 := unit.toNat_lt
  rw [ofUnit?_eq_some_iff, encodeChar]
  split
  · next small =>
    rw [List.cons.injEq, ← UInt16.toNat_inj, UInt16.toNat_ofNat', Nat.mod_eq_of_lt small]
    simp
  · next large =>
    simp
    omega

theorem encodeChar_eq_pair_iff : encodeChar char = [high, low] ↔ ofPair? high low = some char := by
  have valid := isValidChar_toNat char
  unfold Nat.isValidChar at valid
  rw [ofPair?_eq_some_iff, encodeChar]
  split
  · next small =>
    simp
    omega
  · next large =>
    simp only [List.cons.injEq, ← UInt16.toNat_inj, UInt16.toNat_ofNat', and_true]
    unfold IsHigh IsLow
    omega

/-- The two forms of an encoded character. -/
theorem encodeChar_cases (char : Char) :
    (∃ unit, encodeChar char = [unit] ∧ ofUnit? unit = some char) ∨
      ∃ high low, encodeChar char = [high, low] ∧ ofPair? high low = some char := by
  by_cases small : char.toNat < 0x10000
  · have single : encodeChar char = [UInt16.ofNat char.toNat] := by rw [encodeChar, if_pos small]
    exact .inl ⟨_, single, encodeChar_eq_singleton_iff.mp single⟩
  · obtain ⟨high, low, pair⟩ : ∃ high low, encodeChar char = [high, low] := by
      rw [encodeChar, if_neg small]
      exact ⟨_, _, rfl⟩
    exact .inr ⟨high, low, pair, encodeChar_eq_pair_iff.mp pair⟩

theorem not_isLow_of_isHigh (isHigh : IsHigh unit) : ¬IsLow unit := by
  unfold IsHigh at isHigh
  unfold IsLow
  omega

end Characters

section Decoding

theorem decode_encodeChar_append (char : Char) (rest : List UInt16) :
    decode (encodeChar char ++ rest) = (decode rest).map (char :: ·) := by
  rcases encodeChar_cases char with ⟨unit, single, found⟩ | ⟨high, low, pair, found⟩
  · rw [single, List.singleton_append]
    cases rest <;> simp [decode, found]
  · have isHigh := (ofPair?_eq_some_iff.mp found).1
    have surrogate : ofUnit? high = none := ofUnit?_eq_none_iff.mpr (.inl isHigh)
    rw [pair]
    simp [decode, surrogate, found]

/-- There is no text where the first unit is half of nothing. -/
theorem decode_of_stray {unit : UInt16} {rest : List UInt16} (stray : Stray [] unit rest) :
    decode (unit :: rest) = none := by
  have surrogate : ofUnit? unit = none := by
    rw [ofUnit?_eq_none_iff]
    exact stray.imp And.left And.left
  cases rest with
  | nil => simp [decode, surrogate]
  | cons next rest =>
    have unpaired : ofPair? unit next = none := by
      rw [ofPair?_eq_none_iff]
      intro isHigh
      rcases stray with ⟨-, alone⟩ | ⟨isLow, -⟩
      · exact alone next rfl
      · exact absurd isLow (not_isLow_of_isHigh isHigh)
    simp [decode, surrogate, unpaired]

/-- Induction over units character by character, as far as they can be read. -/
@[elab_as_elim]
theorem units_induction {motive : List UInt16 → Prop} (nil : motive [])
    (stray : ∀ unit rest, Stray [] unit rest → motive (unit :: rest))
    (char : ∀ char rest, motive rest → motive (encodeChar char ++ rest)) :
    ∀ units, motive units
  | [] => nil
  | unit :: rest => by
    cases found : ofUnit? unit with
    | some single =>
      have later := units_induction nil stray char rest
      have read := char single rest later
      rwa [encodeChar_eq_singleton_iff.mpr found] at read
    | none =>
      rcases ofUnit?_eq_none_iff.mp found with isHigh | isLow
      · match rest with
        | [] => exact stray unit [] (.inl ⟨isHigh, by simp⟩)
        | next :: rest =>
          cases paired : ofPair? unit next with
          | some pair =>
            have later := units_induction nil stray char rest
            have read := char pair rest later
            rwa [encodeChar_eq_pair_iff.mpr paired] at read
          | none =>
            have alone := ofPair?_eq_none_iff.mp paired isHigh
            exact stray unit (next :: rest) (.inl ⟨isHigh, by simpa using alone⟩)
      · exact stray unit rest (.inr ⟨isLow, by simp⟩)

theorem encode_cons (char : Char) (text : List Char) :
    encode (char :: text) = encodeChar char ++ encode text := rfl

theorem decode_encode (text : List Char) : decode (encode text) = some text := by
  induction text with
  | nil => rfl
  | cons char text ih => rw [encode_cons, decode_encodeChar_append, ih, Option.map_some]

theorem encode_of_decode {units : List UInt16} {text : List Char}
    (found : decode units = some text) : encode text = units := by
  induction units using units_induction generalizing text with
  | nil =>
    obtain rfl := Option.some.inj found
    rfl
  | stray unit rest stray =>
    rw [decode_of_stray stray] at found
    cases found
  | char char rest ih =>
    rw [decode_encodeChar_append] at found
    obtain ⟨later, read, rfl⟩ := Option.map_eq_some_iff.mp found
    rw [encode_cons, ih read]

theorem decode_eq_some_iff {units : List UInt16} {text : List Char} :
    decode units = some text ↔ encode text = units :=
  ⟨encode_of_decode, fun encoded => encoded ▸ decode_encode text⟩

/-- Whether units have a stray surrogate, where others stand before them. -/
def HasStrayAfter (earlier units : List UInt16) : Prop :=
  ∃ before unit after, units = before ++ unit :: after ∧ Stray (earlier ++ before) unit after

theorem hasStrayAfter_cons_iff {earlier rest : List UInt16} {first : UInt16} :
    HasStrayAfter earlier (first :: rest) ↔
      Stray earlier first rest ∨ HasStrayAfter (earlier ++ [first]) rest := by
  constructor
  · rintro ⟨before, unit, after, split, stray⟩
    cases before with
    | nil =>
      obtain ⟨rfl, rfl⟩ := List.cons.inj split
      exact .inl (by simpa using stray)
    | cons head before =>
      obtain ⟨rfl, rfl⟩ := List.cons.inj split
      exact .inr ⟨before, unit, after, rfl, by simpa using stray⟩
  · rintro (stray | ⟨before, unit, after, rfl, stray⟩)
    · exact ⟨[], first, rest, rfl, by simpa using stray⟩
    · exact ⟨first :: before, unit, after, rfl, by simpa using stray⟩

/-- Of what stands before, only a high surrogate at the end of it matters. -/
theorem hasStrayAfter_concat_iff {last : UInt16} (notHigh : ¬IsHigh last)
    (earlier units : List UInt16) : HasStrayAfter (earlier ++ [last]) units ↔ HasStray units := by
  have same : ∀ before unit after,
      Stray (earlier ++ [last] ++ before) unit after ↔ Stray before unit after := by
    intro before unit after
    cases before using List.reverseRecOn with
    | nil => simp [Stray, notHigh]
    | append_singleton before previous => simp [Stray, ← List.append_assoc]
  simp only [HasStrayAfter, same]
  rfl

/-- A whole character neither is stray nor makes anything after it stray. -/
theorem hasStray_encodeChar_append (char : Char) (rest : List UInt16) :
    HasStray (encodeChar char ++ rest) ↔ HasStray rest := by
  change HasStrayAfter [] (encodeChar char ++ rest) ↔ HasStray rest
  rcases encodeChar_cases char with ⟨unit, single, found⟩ | ⟨high, low, pair, found⟩
  · have plain : ¬(IsHigh unit ∨ IsLow unit) := by
      rw [← ofUnit?_eq_none_iff, found]
      simp
    rw [not_or] at plain
    rw [single, List.singleton_append, hasStrayAfter_cons_iff, hasStrayAfter_concat_iff plain.1]
    simp [Stray, plain]
  · obtain ⟨isHigh, isLow, -⟩ := ofPair?_eq_some_iff.mp found
    have notHigh : ¬IsHigh low := fun both => not_isLow_of_isHigh both isLow
    rw [pair, List.cons_append, List.singleton_append, hasStrayAfter_cons_iff,
      hasStrayAfter_cons_iff, hasStrayAfter_concat_iff notHigh]
    simp [Stray, isHigh, isLow, notHigh, not_isLow_of_isHigh isHigh]

theorem decode_eq_none_iff (units : List UInt16) : decode units = none ↔ HasStray units := by
  induction units using units_induction with
  | nil => simp [decode, HasStray]
  | stray unit rest stray =>
    have found : HasStray (unit :: rest) := ⟨[], unit, rest, rfl, stray⟩
    simp [decode_of_stray stray, found]
  | char char rest ih =>
    rw [decode_encodeChar_append, Option.map_eq_none_iff, ih, hasStray_encodeChar_append]

end Decoding

section Text

variable {text other : String}

theorem littleEndian_injective (same : littleEndian text = littleEndian other) : text = other := by
  have units := congrArg ofBytes same
  rw [littleEndian, littleEndian, ofBytes_toBytes, ofBytes_toBytes] at units
  have chars := congrArg decode units
  rw [decode_encode, decode_encode, Option.some.injEq] at chars
  exact String.toList_inj.mp chars

theorem length_littleEndian_mod_two (text : String) : (littleEndian text).length % 2 = 0 := by
  rw [littleEndian, length_toBytes]
  omega

/-- A blob of whole units is a text if and only if it is the encoding of that text. -/
theorem decode_ofBytes_eq_some_iff {bytes : Bytes} (even : bytes.length % 2 = 0)
    (text : String) : decode (ofBytes bytes) = some text.toList ↔ littleEndian text = bytes := by
  rw [decode_eq_some_iff, littleEndian]
  constructor
  · intro encoded
    rw [encoded, toBytes_ofBytes bytes even]
  · intro encoded
    rw [← encoded, ofBytes_toBytes]

end Text

end CilSketch.Utf16
