import CilSketch.Projection.Type
import Mathlib.Data.List.Basic

/-!
Reading projected source. What is emitted for a thing is legible if it can be told from the front of
any trace that starts with it, where it ends included. Names may be any text, so where one thing
ends is seen from the events around it and never from how a name is spelled.
-/

set_option autoImplicit false

namespace CilSketch

/-- Traces that start with what is emitted for two things tell what is seen of the things, and they
go on alike. -/
def Legible {α β : Type} (view : α → β) (emit : α → Trace) : Prop :=
  ∀ ⦃a b : α⦄ ⦃r s : Trace⦄, emit a ++ r = emit b ++ s → view a = view b ∧ r = s

namespace Legible

variable {α β : Type} {view : α → β} {emit : α → Trace} {r s : Trace}

/-- A list of things is legible before an end that no thing starts with. -/
theorem flatMap (legible : Legible view emit) (Ends : Trace → Prop)
    (starts : ∀ a rest, ¬ Ends (emit a ++ rest))
    (leftEnds : Ends r) (rightEnds : Ends s) {as bs : List α}
    (same : as.flatMap emit ++ r = bs.flatMap emit ++ s) :
    as.map view = bs.map view ∧ r = s := by
  induction as generalizing bs with
  | nil =>
    cases bs with
    | nil => exact ⟨rfl, same⟩
    | cons b bs =>
      rw [List.flatMap_nil, List.nil_append, List.flatMap_cons, List.append_assoc] at same
      exact absurd (same ▸ leftEnds) (starts b _)
  | cons a as ih =>
    rw [List.flatMap_cons, List.append_assoc] at same
    cases bs with
    | nil =>
      rw [List.flatMap_nil, List.nil_append] at same
      exact absurd (same ▸ rightEnds) (starts a _)
    | cons b bs =>
      rw [List.flatMap_cons, List.append_assoc] at same
      obtain ⟨first, same⟩ := legible same
      obtain ⟨others, ends⟩ := ih same
      exact ⟨by rw [List.map_cons, List.map_cons, first, others], ends⟩

theorem flatMap_before (legible : Legible view emit) {stop : Event}
    (starts : ∀ a rest, (emit a ++ rest).head? ≠ some stop) {as bs : List α}
    (same : as.flatMap emit ++ stop :: r = bs.flatMap emit ++ stop :: s) :
    as.map view = bs.map view ∧ r = s := by
  obtain ⟨things, rest⟩ :=
    legible.flatMap (fun rest => rest.head? = some stop) starts rfl rfl same
  exact ⟨things, (List.cons.inj rest).2⟩

end Legible

theorem separatedBy_nil (separator : String) : separatedBy separator [] = [] := rfl

theorem separatedBy_cons (separator : String) (item : Trace) (items : List Trace) :
    separatedBy separator (item :: items) = item ++ items.flatMap (.text separator :: ·) := by
  induction items generalizing item with
  | nil => simp [separatedBy]
  | cons next rest ih =>
    have joined := ih next
    simp only [separatedBy, List.intercalate_cons_cons] at joined ⊢
    rw [joined]
    simp

namespace Legible

variable {α β : Type} {view : α → β} {emit : α → Trace} {r s : Trace}

theorem separatedBy (legible : Legible view emit) (Ends : Trace → Prop) {separator : String}
    (starts : ∀ a rest, ¬ Ends (emit a ++ rest))
    (continues : ∀ rest, ¬ Ends (.text separator :: rest))
    (leftEnds : Ends r) (rightEnds : Ends s) {as bs : List α}
    (same : separatedBy separator (as.map emit) ++ r = separatedBy separator (bs.map emit) ++ s) :
    as.map view = bs.map view ∧ r = s := by
  have separated : Legible view fun a => .text separator :: emit a := by
    intro a b r s same
    exact legible (List.cons.inj same).2
  cases as with
  | nil =>
    cases bs with
    | nil => exact ⟨rfl, same⟩
    | cons b bs =>
      rw [List.map_nil, separatedBy_nil, List.nil_append, List.map_cons, separatedBy_cons,
        List.append_assoc] at same
      exact absurd (same ▸ leftEnds) (starts b _)
  | cons a as =>
    rw [List.map_cons, separatedBy_cons, List.append_assoc] at same
    cases bs with
    | nil =>
      rw [List.map_nil, separatedBy_nil, List.nil_append] at same
      exact absurd (same ▸ rightEnds) (starts a _)
    | cons b bs =>
      rw [List.map_cons, separatedBy_cons, List.append_assoc, List.flatMap_map,
        List.flatMap_map] at same
      obtain ⟨first, same⟩ := legible same
      obtain ⟨others, ends⟩ :=
        separated.flatMap Ends (fun a rest => continues _) leftEnds rightEnds same
      exact ⟨by rw [List.map_cons, List.map_cons, first, others], ends⟩

end Legible

/-- What may be there or not, behind a text that introduces it. -/
def introduced {α : Type} (lead : String) (emit : α → Trace) : Option α → Trace
  | none => []
  | some a => .text lead :: emit a

/-- Whether it is there is seen as long as nothing else starts with the text that introduces it. -/
theorem Legible.introduced {α β : Type} {view : α → β} {emit : α → Trace}
    (legible : Legible view emit) {lead : String} {r s : Trace}
    (left : r.head? ≠ some (.text lead)) (right : s.head? ≠ some (.text lead)) {x y : Option α}
    (same : introduced lead emit x ++ r = introduced lead emit y ++ s) :
    x.map view = y.map view ∧ r = s := by
  cases x with
  | none =>
    cases y with
    | none => exact ⟨rfl, same⟩
    | some b => exact absurd (congrArg List.head? same) left
  | some a =>
    cases y with
    | none => exact absurd (congrArg List.head? same.symm) right
    | some b =>
      obtain ⟨things, rest⟩ := legible (List.cons.inj same).2
      exact ⟨congrArg some things, rest⟩

theorem StyleCategory.style_injective : Function.Injective StyleCategory.style := by
  intro a b same
  cases a <;> cases b <;> first | rfl | simp [style] at same

theorem legible_keyword : Legible id keyword := by
  intro v w r s same
  simpa [keyword] using same

/-- A type as source shows it: the full name that it refers to, and the name that is written. -/
structure ShownType where
  target : String
  shown : String
  deriving DecidableEq, Repr

def TypeRef.outline (ref : TypeRef) : ShownType where
  target := ref.fullName
  shown := ref.displayName

theorem TypeRef.legible_project : Legible TypeRef.outline TypeRef.project := by
  intro a b r s same
  simpa [project, outline, Event.referTo, Entity.target, and_assoc] using same

theorem Literal.legible_project : Legible id Literal.project := by
  rintro ⟨text, _ | category⟩ ⟨otherText, _ | otherCategory⟩ r s same
  · simpa [project] using same
  · simp [project] at same
  · simp [project] at same
  · have sameStyle : category.style = otherCategory.style ∧ text = otherText ∧ r = s := by
      simpa [project] using same
    obtain ⟨sameStyle, rfl, rfl⟩ := sameStyle
    rw [StyleCategory.style_injective sameStyle]
    exact ⟨rfl, rfl⟩

/-! Reserved words at the start of a declaration. Each of them may be there or not, so a list of
words tells which ones are, as long as no word has two roles. -/

/-- What can follow reserved words: anything but one more of them. -/
def EndsWords (rest : Trace) : Prop :=
  ∀ style word later, rest ≠ .beginSpan style :: .text word :: later

theorem head?_keywords (words : List String) {rest : Trace}
    (starts : words = [] → rest.head? = some (.beginSpan StyleCategory.keyword.style)) :
    (words.flatMap keyword ++ rest).head? = some (.beginSpan StyleCategory.keyword.style) := by
  cases words with
  | nil => exact starts rfl
  | cons word words => rfl

theorem legible_keywords {v w : List String} {r s : Trace} (leftEnds : EndsWords r)
    (rightEnds : EndsWords s) (same : v.flatMap keyword ++ r = w.flatMap keyword ++ s) :
    v = w ∧ r = s := by
  have starts : ∀ word rest, ¬ EndsWords (keyword word ++ rest) := by
    intro word rest ends
    exact ends _ word _ rfl
  obtain ⟨words, ends⟩ := legible_keyword.flatMap EndsWords starts leftEnds rightEnds same
  rw [List.map_id, List.map_id] at words
  exact ⟨words, ends⟩

section Words

variable {v w : List String}

theorem optional_cancel {x y : Option String} (left : ∀ word ∈ y, word ∉ v)
    (right : ∀ word ∈ x, word ∉ w) (same : x.toList ++ v = y.toList ++ w) : x = y ∧ v = w := by
  cases x with
  | none =>
    cases y with
    | none => exact ⟨rfl, same⟩
    | some word =>
      have member : word ∈ v := by
        rw [show v = word :: w from same]
        exact List.mem_cons_self
      exact absurd member (left word rfl)
  | some word =>
    cases y with
    | none =>
      have member : word ∈ w := by
        rw [show w = word :: v from same.symm]
        exact List.mem_cons_self
      exact absurd member (right word rfl)
    | some other =>
      obtain ⟨first, rest⟩ := List.cons.inj same
      exact ⟨congrArg some first, rest⟩

theorem flagged_subset (table : List (Bool × String)) : flagged table ⊆ table.map Prod.snd := by
  intro word member
  obtain ⟨entry, kept, rfl⟩ := List.mem_map.mp member
  exact List.mem_map_of_mem (List.mem_of_mem_filter kept)

/-- The words that are there tell the flags of a table, if no word has two roles. -/
theorem flagged_cancel {a b : List (Bool × String)} (sameWords : a.map Prod.snd = b.map Prod.snd)
    (distinct : (a.map Prod.snd).Nodup) (left : (a.map Prod.snd).Disjoint v)
    (right : (a.map Prod.snd).Disjoint w) (same : flagged a ++ v = flagged b ++ w) :
    a = b ∧ v = w := by
  induction a generalizing b with
  | nil =>
    obtain rfl : b = [] := by simpa using sameWords.symm
    exact ⟨rfl, same⟩
  | cons entry a ih =>
    cases b with
    | nil => cases sameWords
    | cons other b =>
      obtain ⟨flag, word⟩ := entry
      obtain ⟨otherFlag, otherWord⟩ := other
      obtain ⟨rfl, sameOthers⟩ := List.cons.inj sameWords
      obtain ⟨fresh, distinct⟩ := List.nodup_cons.mp distinct
      obtain ⟨notLeft, left⟩ := List.disjoint_cons_left.mp left
      obtain ⟨notRight, right⟩ := List.disjoint_cons_left.mp right
      have first (flag : Bool) (rest : List (Bool × String)) : flagged ((flag, word) :: rest) =
          (if flag then some word else none).toList ++ flagged rest := by
        cases flag <;> rfl
      have only (flag : Bool) : ∀ found ∈ if flag then some word else none, word = found := by
        cases flag <;> simp
      have apart : word ∉ flagged a ++ v := by
        simpa [notLeft] using fun member => fresh (flagged_subset a member)
      have otherApart : word ∉ flagged b ++ w := by
        simpa [notRight] using fun member => fresh (sameOthers ▸ flagged_subset b member)
      rw [first, first, List.append_assoc, List.append_assoc] at same
      obtain ⟨flags, same⟩ := optional_cancel (fun found member => only _ found member ▸ apart)
        (fun found member => only _ found member ▸ otherApart) same
      obtain ⟨rfl, rest⟩ := ih sameOthers distinct left right same
      obtain rfl : flag = otherFlag := by
        cases flag <;> cases otherFlag <;> first | rfl | cases flags
      exact ⟨rfl, rest⟩

theorem eq_of_flagged_eq {a b : List (Bool × String)} (same : flagged a = flagged b)
    (sameWords : a.map Prod.snd = b.map Prod.snd) (distinct : (a.map Prod.snd).Nodup) : a = b := by
  have same : flagged a ++ [] = flagged b ++ [] := congrArg (· ++ []) same
  exact (flagged_cancel sameWords distinct (List.disjoint_nil_right _)
    (List.disjoint_nil_right _) same).1

/-- All words that source may have in front of a blank in the style of keywords. -/
def reservedWords : List String :=
  ["module", "public", "private", "internal", "protected", "sealed", "static", "abstract",
    "override", "operator", "class", "struct", "interface", "enum", "let", "mut", "func",
    "implement"]

namespace Accessibility

def words : List String :=
  ["public", "private", "internal", "protected"]

theorem keyword?_subset (access : Accessibility) : access.keyword?.toList ⊆ words := by
  cases access <;> simp [keyword?, words]

theorem keyword?_injective : Function.Injective keyword? := by
  intro a b same
  cases a <;> cases b <;> first | rfl | simp [keyword?] at same

theorem keyword?_cancel {a b : Accessibility} (left : words.Disjoint v) (right : words.Disjoint w)
    (same : a.keyword?.toList ++ v = b.keyword?.toList ++ w) : a = b ∧ v = w := by
  have listed (access : Accessibility) (word : String) (isWord : word ∈ access.keyword?) :
      word ∈ words :=
    access.keyword?_subset (Option.mem_toList.mpr isWord)
  obtain ⟨keywords, rest⟩ := optional_cancel (fun word isWord => left (listed b word isWord))
    (fun word isWord => right (listed a word isWord)) same
  exact ⟨keyword?_injective keywords, rest⟩

theorem keyword?_subset_reservedWords (access : Accessibility) :
    access.keyword?.toList ⊆ reservedWords :=
  List.Subset.trans access.keyword?_subset (by decide)

end Accessibility

theorem FieldDecl.keywords_subset (decl : FieldDecl) : decl.keywords ⊆ reservedWords := by
  apply List.append_subset.mpr
  refine ⟨decl.access.keyword?_subset_reservedWords, List.cons_subset.mpr ⟨by decide, ?_⟩⟩
  apply List.Subset.trans (flagged_subset _)
  simp [reservedWords]

theorem MethodDecl.keywords_subset (decl : MethodDecl) : decl.keywords ⊆ reservedWords := by
  apply List.append_subset.mpr
  refine ⟨decl.access.keyword?_subset_reservedWords, ?_⟩
  apply List.Subset.trans (flagged_subset _)
  simp [reservedWords, MethodModifiers.table]

theorem TypeDecl.keywords_subset (decl : TypeDecl) : decl.keywords ⊆ reservedWords := by
  have kind : [decl.kind.keyword] ⊆ reservedWords := by
    cases decl.kind <;> simp [TypeKind.keyword, reservedWords]
  have modifiers : flagged decl.modifiers.table ⊆ reservedWords := by
    apply List.Subset.trans (flagged_subset _)
    simp [reservedWords, TypeModifiers.table]
  have access := decl.access.keyword?_subset_reservedWords
  exact List.append_subset.mpr ⟨List.append_subset.mpr ⟨access, modifiers⟩, kind⟩

theorem FieldDecl.eq_of_keywords_eq {a b : FieldDecl} (same : a.keywords = b.keywords) :
    a.access = b.access ∧ a.readOnly = b.readOnly := by
  have apart (decl : FieldDecl) :
      Accessibility.words.Disjoint ("let" :: flagged [(!decl.readOnly, "mut")]) := by
    refine List.disjoint_of_subset_right (List.cons_subset_cons _ (flagged_subset _)) ?_
    simp [Accessibility.words]
  obtain ⟨access, same⟩ := Accessibility.keyword?_cancel (apart a) (apart b) same
  have flags := eq_of_flagged_eq (List.cons.inj same).2 rfl (by simp)
  exact ⟨access, by simpa using flags⟩

theorem MethodDecl.eq_of_keywords_eq {a b : MethodDecl} (same : a.keywords = b.keywords) :
    a.access = b.access ∧ a.modifiers = b.modifiers ∧ a.isConstructor = b.isConstructor := by
  have apart (decl : MethodDecl) : Accessibility.words.Disjoint
      (flagged (decl.modifiers.table ++ [(!decl.isConstructor, "func")])) := by
    refine List.disjoint_of_subset_right (flagged_subset _) ?_
    simp [Accessibility.words, MethodModifiers.table]
  obtain ⟨access, same⟩ := Accessibility.keyword?_cancel (apart a) (apart b) same
  have flags := eq_of_flagged_eq same rfl (by simp [MethodModifiers.table])
  refine ⟨access, ?_⟩
  cases left : a.modifiers
  cases right : b.modifiers
  simpa [MethodModifiers.table, left, right, and_assoc] using flags

theorem TypeDecl.eq_of_keywords_eq {a b : TypeDecl} (same : a.keywords = b.keywords) :
    a.access = b.access ∧ a.modifiers = b.modifiers ∧ a.kind.keyword = b.kind.keyword := by
  have apart (decl : TypeDecl) : Accessibility.words.Disjoint
      (flagged decl.modifiers.table ++ [decl.kind.keyword]) := by
    refine List.disjoint_append_right.mpr
      ⟨List.disjoint_of_subset_right (flagged_subset _) ?_, ?_⟩
    · simp [Accessibility.words, TypeModifiers.table]
    · cases decl.kind <;> simp [Accessibility.words, TypeKind.keyword]
  have notModifier (decl other : TypeDecl) :
      (decl.modifiers.table.map Prod.snd).Disjoint [other.kind.keyword] := by
    cases other.kind <;> simp [TypeModifiers.table, TypeKind.keyword]
  rw [keywords, keywords, List.append_assoc, List.append_assoc] at same
  obtain ⟨access, same⟩ := Accessibility.keyword?_cancel (apart a) (apart b) same
  obtain ⟨flags, kind⟩ := flagged_cancel (by rfl) (by simp [TypeModifiers.table])
    (notModifier a a) (notModifier a b) same
  refine ⟨access, ?_, (List.cons.inj kind).1⟩
  cases left : a.modifiers
  cases right : b.modifiers
  simpa [TypeModifiers.table, left, right] using flags

end Words

end CilSketch
