import CilSketch.TypeRef
import Mathlib.Data.List.Basic

/-!
Qualified names split and joined. Splitting finds what was joined, whichever dots the namespace has.
Joining gives back what was split, with one exception: a name that starts with its only dot is taken
for one of the global namespace, and the dot is lost.
-/

set_option autoImplicit false

namespace CilSketch

theorem splitLastDot_eq_none_iff {text : List Char} : splitLastDot text = none ↔ '.' ∉ text := by
  induction text with
  | nil => simp [splitLastDot]
  | cons c rest ih =>
    rw [splitLastDot, List.mem_cons, not_or, ← ih]
    cases splitLastDot rest with
    | none => simp [eq_comm]
    | some parts => simp

theorem splitLastDot_of_not_mem (before : List Char) {after : List Char} (plain : '.' ∉ after) :
    splitLastDot (before ++ '.' :: after) = some (before, after) := by
  induction before with
  | nil => simp [splitLastDot, splitLastDot_eq_none_iff.mpr plain]
  | cons c rest ih => simp [splitLastDot, ih]

theorem splitLastDot_eq_some_iff {text before after : List Char} :
    splitLastDot text = some (before, after) ↔ text = before ++ '.' :: after ∧ '.' ∉ after := by
  constructor
  · intro split
    induction text generalizing before with
    | nil => simp [splitLastDot] at split
    | cons c rest ih =>
      rw [splitLastDot] at split
      cases later : splitLastDot rest with
      | none =>
        -- No dot is left behind this character, so it is the last one or there is none.
        simp only [later, Option.ite_none_right_eq_some, Option.some.injEq, Prod.mk.injEq] at split
        obtain ⟨rfl, rfl, rfl⟩ := split
        exact ⟨rfl, splitLastDot_eq_none_iff.mp later⟩
      | some parts =>
        simp only [later, Option.some.injEq, Prod.mk.injEq] at split
        obtain ⟨rfl, rfl⟩ := split
        obtain ⟨rfl, plain⟩ := ih later
        exact ⟨rfl, plain⟩
  · rintro ⟨rfl, plain⟩
    exact splitLastDot_of_not_mem before plain

/-- The part of a qualified name behind its last dot; all of it if it has no dot. -/
structure IsSimpleName (full name : String) : Prop where
  no_dot : '.' ∉ name.toList
  behind : full = name ∨ ∃ space, full = space ++ "." ++ name

/-- The last dot of the name is its first character, and this is what follows. -/
structure OnlyDotFirst (full rest : String) : Prop where
  eq_dot : full = "." ++ rest
  no_dot : '.' ∉ rest.toList

namespace TypeRef

variable {space name : String}

theorem toList_joined (space name : String) :
    (space ++ "." ++ name).toList = space.toList ++ '.' :: name.toList := by
  simp

theorem ofFullName_of_no_dot (plain : '.' ∉ name.toList) :
    ofFullName name = inNamespace "" name := by
  rw [ofFullName, splitLastDot_eq_none_iff.mpr plain]

/-- Joined by a dot, also behind an empty namespace. -/
theorem ofFullName_joined (space : String) (plain : '.' ∉ name.toList) :
    ofFullName (space ++ "." ++ name) = inNamespace space name := by
  rw [ofFullName, toList_joined, splitLastDot_of_not_mem _ plain]
  simp only [String.ofList_toList]

/-- The two ways in which a name is split. -/
theorem ofFullName_cases (full : String) :
    '.' ∉ full.toList ∧ ofFullName full = inNamespace "" full ∨
      ∃ space name, full = space ++ "." ++ name ∧ '.' ∉ name.toList ∧
        ofFullName full = inNamespace space name := by
  cases split : splitLastDot full.toList with
  | none =>
    have plain := splitLastDot_eq_none_iff.mp split
    exact .inl ⟨plain, ofFullName_of_no_dot plain⟩
  | some parts =>
    obtain ⟨whole, plain⟩ := splitLastDot_eq_some_iff.mp split
    have joined : full = String.ofList parts.1 ++ "." ++ String.ofList parts.2 := by
      apply String.toList_inj.mp
      simpa using whole
    have simpleName : '.' ∉ (String.ofList parts.2).toList := by simpa using plain
    refine .inr ⟨_, _, joined, simpleName, ?_⟩
    conv_lhs => rw [joined]
    exact ofFullName_joined _ simpleName

theorem ofFullName_fullName (space : String) (plain : '.' ∉ name.toList) :
    ofFullName (inNamespace space name).fullName = inNamespace space name := by
  rw [inNamespace, qualify]
  split
  case isTrue isGlobal => rw [ofFullName_of_no_dot plain, inNamespace, qualify, if_pos rfl]
  case isFalse named => rw [ofFullName_joined space plain, inNamespace, qualify, if_neg named]

theorem isSimpleName_ofFullName (full : String) : IsSimpleName full (ofFullName full).name := by
  obtain ⟨plain, split⟩ | ⟨space, name, joined, plain, split⟩ := ofFullName_cases full
  · rw [split]
    exact ⟨plain, .inl rfl⟩
  · rw [split]
    exact ⟨plain, .inr ⟨space, joined⟩⟩

theorem fullName_of_onlyDotFirst {full rest : String} (exception : OnlyDotFirst full rest) :
    (ofFullName full).fullName = rest := by
  have split := ofFullName_joined "" exception.no_dot
  rw [String.empty_append, ← exception.eq_dot] at split
  rw [split]
  rfl

theorem fullName_ofFullName_eq_iff (full : String) :
    (ofFullName full).fullName = full ↔ ¬∃ rest, OnlyDotFirst full rest := by
  constructor
  · rintro same ⟨rest, exception⟩
    have shorter := fullName_of_onlyDotFirst exception
    rw [same, exception.eq_dot] at shorter
    simpa using congrArg String.length shorter
  · intro regular
    obtain ⟨plain, split⟩ | ⟨space, name, joined, plain, split⟩ := ofFullName_cases full
    · rw [split]
      rfl
    · have named : space ≠ "" := by
        rintro rfl
        exact regular ⟨name, by rw [joined, String.empty_append], plain⟩
      rw [split, joined, inNamespace, qualify, if_neg named]

theorem ofFullName_fullName_ofFullName (full : String) :
    ofFullName (ofFullName full).fullName = ofFullName full := by
  obtain ⟨plain, split⟩ | ⟨space, name, -, plain, split⟩ := ofFullName_cases full
  · rw [split]
    exact ofFullName_fullName "" plain
  · rw [split]
    exact ofFullName_fullName space plain

end TypeRef

/-- A name without dots is found again behind any namespace. Of any text, the name is what stands
behind the last dot; joined again the text is the same, unless its last dot comes first; and
splitting what was joined gives nothing new. -/
theorem qualified_names_split_and_join :
    (∀ space name : String, '.' ∉ name.toList →
      TypeRef.ofFullName (TypeRef.inNamespace space name).fullName =
        TypeRef.inNamespace space name) ∧
      ∀ full : String,
        IsSimpleName full (TypeRef.ofFullName full).name ∧
          ((TypeRef.ofFullName full).fullName = full ↔ ¬∃ rest, OnlyDotFirst full rest) ∧
          (∀ rest, OnlyDotFirst full rest → (TypeRef.ofFullName full).fullName = rest) ∧
          TypeRef.ofFullName (TypeRef.ofFullName full).fullName = TypeRef.ofFullName full := by
  constructor
  · intro space name plain
    exact TypeRef.ofFullName_fullName space plain
  · intro full
    refine ⟨TypeRef.isSimpleName_ofFullName full, TypeRef.fullName_ofFullName_eq_iff full, ?_,
      TypeRef.ofFullName_fullName_ofFullName full⟩
    intro rest exception
    exact TypeRef.fullName_of_onlyDotFirst exception

/-- A namespace that ends in a dot of its own, and a name that starts with its only one. -/
theorem dotted_namespace_and_leading_dot :
    TypeRef.ofFullName (TypeRef.inNamespace "A..B." "C").fullName =
        TypeRef.inNamespace "A..B." "C" ∧
      OnlyDotFirst ".Program" "Program" ∧
      (TypeRef.ofFullName ".Program").fullName = "Program" := by
  have leading : OnlyDotFirst ".Program" "Program" := ⟨by decide, by decide⟩
  refine ⟨qualified_names_split_and_join.1 "A..B." "C" (by decide), leading, ?_⟩
  exact (qualified_names_split_and_join.2 ".Program").2.2.1 "Program" leading

end CilSketch
