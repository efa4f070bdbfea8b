import CilSketch.Proofs.Projection.Nesting
import CilSketch.Proofs.Projection.Newlines

/-!
Which declarations have regions with the right lines. The lines of all regions are right exactly if
no newline is shown before the end of a region: in a type, anywhere; in a container of free
functions, which has no region of its own, up to its last method with a body.
-/

set_option autoImplicit false

namespace CilSketch

open Trace (uncounted CountsLines)

/-- No newline is shown before the end of a region. The regions of a container are those of its
methods with a body; the last region of any other type ends it. -/
def TypeDecl.LinesKept (decl : TypeDecl) (options : Options) : Prop :=
  if decl.isContainer options then
    ∀ (earlier : List MethodDecl) (method : MethodDecl) (later : List MethodDecl),
      decl.methods = earlier ++ method :: later → method.hasBody = true →
        newlines decl.namespaceName = 0 ∧
          (∀ field ∈ decl.fields, field.shownNewlines options = 0) ∧
          (∀ shown ∈ earlier, shown.shownNewlines = 0) ∧ method.shownNewlines = 0
  else
    newlines decl.namespaceName = 0 ∧ newlines decl.name = 0 ∧
      (∀ base ∈ decl.visibleBases, newlines base.name = 0) ∧
      (∀ field ∈ decl.fields, field.shownNewlines options = 0) ∧
      ∀ method ∈ decl.methods, method.shownNewlines = 0

theorem foldEnd_not_mem_keyword (word : String) : .foldEnd ∉ keyword word := by
  simp [keyword]

theorem foldEnd_not_mem_keywords (words : List String) : .foldEnd ∉ words.flatMap keyword := by
  simp [foldEnd_not_mem_keyword]

theorem TypeRef.foldEnd_not_mem_project (ref : TypeRef) : .foldEnd ∉ ref.project := by
  simp [project, Event.referTo]

theorem Literal.foldEnd_not_mem_project (literal : Literal) : .foldEnd ∉ literal.project := by
  unfold project
  split <;> simp

theorem FieldDecl.foldEnd_not_mem_project (decl : FieldDecl) (options : Options) :
    .foldEnd ∉ decl.project options := by
  have words := foldEnd_not_mem_keywords decl.keywords
  have constant : .foldEnd ∉ decl.projectConstant options := by
    unfold projectConstant
    split <;> simp [Literal.foldEnd_not_mem_project]
  simp only [project, projectLine, List.mem_append, words, constant,
    TypeRef.foldEnd_not_mem_project]
  simp [Event.referTo]

theorem mem_separatedBy {separator : String} {items : List Trace} {event : Event}
    (member : event ∈ separatedBy separator items) :
    event = .text separator ∨ ∃ item ∈ items, event ∈ item := by
  cases items with
  | nil => simp [separatedBy_nil] at member
  | cons item rest =>
    rw [separatedBy_cons, List.mem_append, List.mem_flatMap] at member
    obtain inItem | ⟨other, found, inOther⟩ := member
    · exact .inr ⟨item, List.mem_cons_self, inItem⟩
    · rcases List.mem_cons.mp inOther with isSeparator | inOther
      · exact .inl isSeparator
      · exact .inr ⟨other, List.mem_cons_of_mem _ found, inOther⟩

theorem foldEnd_not_mem_separatedBy {separator : String} {items : List Trace}
    (absent : ∀ item ∈ items, .foldEnd ∉ item) : .foldEnd ∉ separatedBy separator items := by
  intro member
  obtain isSeparator | ⟨item, found, inItem⟩ := mem_separatedBy member
  · cases isSeparator
  · exact absent item found inItem

theorem Trace.foldEnd_suffix_foldedBlock (title inner : Trace) :
    [.foldEnd] <:+ foldedBlock title inner :=
  List.suffix_append_of_suffix (List.suffix_append _ _)

namespace MethodDecl

theorem foldEnd_not_mem_projectParameters (decl : MethodDecl) :
    .foldEnd ∉ decl.projectParameters := by
  apply foldEnd_not_mem_separatedBy
  intro item found
  obtain ⟨parameter, -, rfl⟩ := List.mem_map.mp found
  simp [ParameterDecl.project, TypeRef.foldEnd_not_mem_project]

theorem foldEnd_not_mem_projectHead (decl : MethodDecl) : .foldEnd ∉ decl.projectHead := by
  have words := foldEnd_not_mem_keywords decl.keywords
  have name : .foldEnd ∉ decl.projectName := by
    unfold projectName
    split <;> simp [Event.referTo]
  simp only [projectHead, List.mem_append, List.mem_cons, words, name,
    foldEnd_not_mem_projectParameters]
  simp

theorem foldEnd_not_mem_projectTail (decl : MethodDecl) (mark : String) :
    .foldEnd ∉ decl.projectTail mark := by
  have returned : .foldEnd ∉ decl.projectReturn := by
    unfold projectReturn
    split <;> simp [TypeRef.foldEnd_not_mem_project]
  simp [projectTail, returned]

/-- Only a body makes a region. -/
theorem foldEnd_mem_project_iff (decl : MethodDecl) :
    .foldEnd ∈ decl.project ↔ decl.hasBody = true := by
  by_cases body : decl.hasBody = true
  · simp [project, projectBody, body, Trace.foldedBlock, Trace.closeBlock]
  · simp [project, projectBody, body, foldEnd_not_mem_projectHead, foldEnd_not_mem_projectTail]

theorem foldEnd_suffix_project {decl : MethodDecl} (body : decl.hasBody = true) :
    [.foldEnd, .lineBreak, .lineBreak] <:+ decl.project := by
  obtain ⟨front, closed⟩ := Trace.foldEnd_suffix_foldedBlock (decl.projectTail " \x7b") []
  refine ⟨decl.projectHead ++ front, ?_⟩
  simp [project, projectBody, body, ← closed]

theorem countsLines_project_iff (decl : MethodDecl) :
    decl.project.CountsLines ↔ (decl.hasBody = true → decl.shownNewlines = 0) := by
  by_cases body : decl.hasBody = true
  · obtain ⟨front, whole⟩ := foldEnd_suffix_project body
    have silent : uncounted [.lineBreak, .lineBreak] = 0 := rfl
    rw [← whole, Trace.countsLines_iff_uncounted silent, whole, uncounted_project]
    simp [body]
  · have none : .foldEnd ∉ decl.project := by
      rw [foldEnd_mem_project_iff]
      exact body
    simp [Trace.countsLines_of_not_mem none, body]

end MethodDecl

namespace TypeDecl

theorem foldEnd_not_mem_projectNamespace (decl : TypeDecl) : .foldEnd ∉ decl.projectNamespace := by
  unfold projectNamespace
  split <;> simp [foldEnd_not_mem_keyword]

theorem foldEnd_not_mem_projectFields (decl : TypeDecl) (options : Options) :
    .foldEnd ∉ decl.projectFields options := by
  simp [projectFields, FieldDecl.foldEnd_not_mem_project]

/-- The last event of a type closes the region of its methods. -/
theorem foldEnd_suffix_projectBlocks (decl : TypeDecl) (options : Options) :
    [.foldEnd] <:+ decl.projectBlocks options :=
  (Trace.foldEnd_suffix_foldedBlock decl.projectTitle decl.projectMethods).trans
    (List.suffix_append_of_suffix (List.suffix_cons _ _))

theorem countsLines_project_of_type {decl : TypeDecl} {options : Options}
    (isType : decl.isContainer options = false) :
    (decl.project options).CountsLines ↔ decl.LinesKept options := by
  obtain ⟨front, blocks⟩ := decl.foldEnd_suffix_projectBlocks options
  have whole : decl.project options = (decl.projectNamespace ++ front) ++ .foldEnd :: [] := by
    rw [project, isType, ← blocks, List.append_assoc]
    rfl
  have total : uncounted (decl.project options) =
      newlines decl.namespaceName + (newlines decl.name +
        (decl.visibleBases.map fun base => newlines base.name).sum +
        (decl.fields.map fun field => field.shownNewlines options).sum + newlines decl.name +
        (decl.methods.map MethodDecl.shownNewlines).sum) := by
    rw [project, isType, Trace.uncounted_append, uncounted_projectNamespace]
    simp only [Bool.false_eq_true, ↓reduceIte]
    rw [uncounted_projectBlocks, uncounted_projectHeader, uncounted_projectFields, projectMethods,
      uncounted_methods]
  -- The last region ends the type, so every newline of the type stands before it.
  rw [whole, Trace.countsLines_iff_uncounted Trace.uncounted_nil, ← whole, total, LinesKept, isType]
  simp only [Nat.add_eq_zero_iff, sum_map_eq_zero_iff, Bool.false_eq_true, ↓reduceIte]
  tauto

theorem countsLines_project_of_container {decl : TypeDecl} {options : Options}
    (isContainer : decl.isContainer options = true) :
    (decl.project options).CountsLines ↔ decl.LinesKept options := by
  have free : .foldEnd ∉ decl.projectNamespace ++ decl.projectFields options := by
    simp [foldEnd_not_mem_projectNamespace, foldEnd_not_mem_projectFields]
  have members : uncounted (decl.projectNamespace ++ decl.projectFields options) = 0 ↔
      newlines decl.namespaceName = 0 ∧
        ∀ field ∈ decl.fields, field.shownNewlines options = 0 := by
    rw [Trace.uncounted_append, uncounted_projectNamespace, uncounted_projectFields,
      Nat.add_eq_zero_iff, sum_map_eq_zero_iff]
  rw [project, isContainer, if_pos rfl, ← List.append_assoc, Trace.countsLines_append_iff,
    projectMethods, Trace.countsLines_flatMap_iff, members, LinesKept, isContainer, if_pos rfl]
  constructor
  · rintro ⟨-, methods, joined⟩ earlier method later split body
    have ends := method.foldEnd_mem_project_iff.mpr body
    obtain ⟨counts, before⟩ := methods earlier method later split
    obtain ⟨space, fields⟩ := joined (List.mem_flatMap.mpr ⟨method, by simp [split], ends⟩)
    refine ⟨space, fields, ?_, method.countsLines_project_iff.mp counts body⟩
    rw [← sum_map_eq_zero_iff, ← uncounted_methods]
    exact before ends
  · intro kept
    refine ⟨Trace.countsLines_of_not_mem free, ?_, ?_⟩
    · intro earlier method later split
      refine ⟨method.countsLines_project_iff.mpr ?_, ?_⟩
      · intro body
        exact (kept earlier method later split body).2.2.2
      · intro ends
        have body := method.foldEnd_mem_project_iff.mp ends
        rw [uncounted_methods, sum_map_eq_zero_iff]
        exact (kept earlier method later split body).2.2.1
    · intro member
      obtain ⟨method, found, ends⟩ := List.mem_flatMap.mp member
      obtain ⟨earlier, later, split⟩ := List.append_of_mem found
      have body := method.foldEnd_mem_project_iff.mp ends
      obtain ⟨space, fields, -⟩ := kept earlier method later split body
      exact ⟨space, fields⟩

theorem countsLines_project_iff (decl : TypeDecl) (options : Options) :
    (decl.project options).CountsLines ↔ decl.LinesKept options := by
  cases isContainer : decl.isContainer options with
  | false => exact countsLines_project_of_type isContainer
  | true => exact countsLines_project_of_container isContainer

end TypeDecl

/-- The lines that regions state never run ahead of the text, and they all agree with it exactly if
no newline is shown before the end of a region. -/
theorem fold_lines_agree_iff_linesKept (unit : String) (plain : newlines unit = 0)
    (decl : TypeDecl) (options : Options) :
    let page := (Page.blank unit).play (decl.project options)
    (∀ fold ∈ page.folds,
        fold.startLine ≤ page.lineAt fold.start ∧ fold.stopLine ≤ page.lineAt fold.stop) ∧
      ((∀ fold ∈ page.folds, fold.LinesAgree page) ↔ decl.LinesKept options) := by
  intro page
  refine ⟨?_, ?_⟩
  · intro fold member
    obtain ⟨pair, starts, stops⟩ := Page.exists_lines_of_mem_folds plain member
    exact ⟨starts ▸ Nat.le_add_right _ _, stops ▸ Nat.le_add_right _ _⟩
  · have balanced := (decl.nested_project options).wellBracketed.balanced
    rw [← decl.countsLines_project_iff options]
    exact Page.linesAgree_iff_countsLines plain balanced

/-- A type with one field, which has the given constant. -/
def TypeDecl.withConstant (value : Constant) : TypeDecl where
  name := "T"
  fields := [{ name := "f", type := .inNamespace "System" "String", constant := some value }]

/-- A newline that is escaped is not shown, so both regions of the type have the right lines. -/
theorem escaped_newline_keeps_lines :
    newlines Page.defaultUnit = 0 ∧
      ∀ fold ∈ ((Page.blank Page.defaultUnit).play
          ((TypeDecl.withConstant (.char '\n')).project { escapeChars := true })).folds,
        fold.LinesAgree ((Page.blank Page.defaultUnit).play
          ((TypeDecl.withConstant (.char '\n')).project { escapeChars := true })) := by
  have kept : (TypeDecl.withConstant (.char '\n')).LinesKept { escapeChars := true } := by
    rw [TypeDecl.LinesKept, if_neg (by decide)]
    decide
  exact ⟨rfl, (fold_lines_agree_iff_linesKept Page.defaultUnit rfl _ _).2.mpr kept⟩

/-- The region of the fields ends on line 6, behind a text of two lines, and states line 5. -/
theorem text_newline_shifts_lines :
    ¬∀ fold ∈ ((Page.blank Page.defaultUnit).play
          ((TypeDecl.withConstant (.string "a\nb")).project {})).folds,
        fold.LinesAgree ((Page.blank Page.defaultUnit).play
          ((TypeDecl.withConstant (.string "a\nb")).project {})) := by
  intro agree
  have stated := (agree ⟨8, 44, 1, 5⟩ (by decide +kernel)).stopLine_eq
  exact absurd stated (by decide +kernel)

end CilSketch
