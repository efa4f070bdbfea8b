import CilSketch.Proofs.Projection.Legibility

/-!
What projected source tells of a type. The outline of a declaration is what its source shows, and
the source determines it: the words at the start of each declaration, its names, and what follows
them can be read off one after the other.
-/

set_option autoImplicit false

namespace CilSketch

structure FieldOutline where
  name : String
  access : Accessibility
  readOnly : Bool
  type : ShownType
  /-- The constant as it is written and styled, if there is one. -/
  literal : Option Literal
  deriving DecidableEq, Repr

structure ParameterOutline where
  name : String
  type : ShownType
  deriving DecidableEq, Repr

structure MethodOutline where
  name : String
  access : Accessibility
  modifiers : MethodModifiers
  isConstructor : Bool
  parameters : List ParameterOutline
  /-- None if the method returns nothing. -/
  returnType : Option ShownType
  hasBody : Bool
  deriving DecidableEq, Repr

structure TypeOutline where
  namespaceName : String
  name : String
  access : Accessibility
  modifiers : TypeModifiers
  kind : TypeKind
  bases : List ShownType
  fields : List FieldOutline
  methods : List MethodOutline
  deriving DecidableEq, Repr

/-- The kind that source shows: a delegate is written as a class. -/
def TypeKind.shown : TypeKind → TypeKind
  | .delegate => .referenceType
  | kind => kind

def FieldDecl.outline (options : Options) (decl : FieldDecl) : FieldOutline where
  name := decl.name
  access := decl.access
  readOnly := decl.readOnly
  type := decl.type.outline
  literal := decl.constant.map (Literal.ofConstant options)

def ParameterDecl.outline (decl : ParameterDecl) : ParameterOutline where
  name := decl.name
  type := decl.type.outline

/-- The type that a method returns, if it returns anything. -/
def MethodDecl.returned (decl : MethodDecl) : Option TypeRef :=
  if decl.returnType.isVoid then none else some decl.returnType

def MethodDecl.outline (decl : MethodDecl) : MethodOutline where
  name := decl.name
  access := decl.access
  modifiers := decl.modifiers
  isConstructor := decl.isConstructor
  parameters := decl.parameters.map ParameterDecl.outline
  returnType := decl.returned.map TypeRef.outline
  hasBody := decl.hasBody

def TypeDecl.outline (options : Options) (decl : TypeDecl) : TypeOutline where
  namespaceName := decl.namespaceName
  name := decl.name
  access := decl.access
  modifiers := decl.modifiers
  kind := decl.kind.shown
  bases := decl.visibleBases.map TypeRef.outline
  fields := decl.fields.map (FieldDecl.outline options)
  methods := decl.methods.map MethodDecl.outline

theorem endsWords_reference (target shown : String) (isDefinition : Bool) (rest : Trace) :
    EndsWords (.reference target shown isDefinition :: rest) := by
  intro style word later same
  simp at same

namespace FieldDecl

theorem projectConstant_eq (decl : FieldDecl) (options : Options) :
    decl.projectConstant options =
      introduced " = " (fun value => (Literal.ofConstant options value).project) decl.constant := by
  cases constant : decl.constant <;> simp [projectConstant, introduced, constant]

theorem legible_project (options : Options) :
    Legible (outline options) fun decl => decl.project options := by
  have constants : Legible (Literal.ofConstant options)
      fun value => (Literal.ofConstant options value).project := by
    intro value other r s same
    exact Literal.legible_project same
  intro a b r s same
  simp only [project, projectLine, projectConstant_eq, Event.referTo, Entity.target,
    List.append_assoc, List.cons_append, List.nil_append] at same
  obtain ⟨keywords, same⟩ :=
    legible_keywords (endsWords_reference _ _ _ _) (endsWords_reference _ _ _ _) same
  obtain ⟨access, readOnly⟩ := eq_of_keywords_eq keywords
  simp only [List.cons.injEq, Event.reference.injEq, true_and, and_true, and_self] at same
  obtain ⟨name, same⟩ := same
  obtain ⟨type, same⟩ := TypeRef.legible_project same
  obtain ⟨literal, same⟩ := constants.introduced (by simp) (by simp) same
  simp only [List.cons.injEq, true_and] at same
  exact ⟨by simp only [outline, name, access, readOnly, type, literal], same⟩

theorem head?_project (decl : FieldDecl) (options : Options) (rest : Trace) :
    (decl.project options ++ rest).head? = some (.beginSpan StyleCategory.keyword.style) := by
  simp only [project, projectLine, List.append_assoc]
  apply head?_keywords
  simp [keywords]

end FieldDecl

theorem ParameterDecl.legible_project : Legible ParameterDecl.outline ParameterDecl.project := by
  intro a b r s same
  simp only [project, List.cons_append, List.nil_append, List.cons.injEq, Event.text.injEq,
    true_and] at same
  obtain ⟨name, same⟩ := same
  obtain ⟨type, rest⟩ := TypeRef.legible_project same
  exact ⟨by simp only [outline, name, type], rest⟩

namespace MethodDecl

theorem endsWords_projectName (decl : MethodDecl) (rest : Trace) :
    EndsWords (decl.projectName ++ rest) := by
  intro style word later same
  cases isConstructor : decl.isConstructor <;>
    simp [projectName, isConstructor, Event.referTo] at same

theorem projectName_cancel {a b : MethodDecl} (alike : a.isConstructor = b.isConstructor)
    {r s : Trace} (same : a.projectName ++ r = b.projectName ++ s) : a.name = b.name ∧ r = s := by
  cases right : b.isConstructor <;>
    simpa [projectName, alike, right, Event.referTo, Entity.target] using same

/-- What ends a list of parameters. A parameter may be named like the parenthesis that ends the
list, but its name is followed by a colon. -/
def EndsParameters (rest : Trace) : Prop :=
  rest.head? = some .foldStart ∨ rest.head? = some (.text ")") ∧ rest[1]? ≠ some (.text ": ")

theorem endsParameters_projectBody (decl : MethodDecl) (rest : Trace) :
    EndsParameters (decl.projectBody ++ rest) := by
  cases hasBody : decl.hasBody with
  | true => exact .inl (by simp [projectBody, hasBody, Trace.foldedBlock, Trace.openBlock])
  | false =>
    right
    cases isVoid : decl.returnType.isVoid <;>
      simp [projectBody, projectTail, hasBody, projectReturn, isVoid]

theorem projectParameters_cancel {a b : MethodDecl} {r s : Trace} (leftEnds : EndsParameters r)
    (rightEnds : EndsParameters s)
    (same : a.projectParameters ++ r = b.projectParameters ++ s) :
    a.parameters.map ParameterDecl.outline = b.parameters.map ParameterDecl.outline ∧ r = s := by
  refine ParameterDecl.legible_project.separatedBy EndsParameters ?_ ?_ leftEnds rightEnds same
  · rintro parameter rest (folds | ⟨-, noColon⟩)
    · simp [ParameterDecl.project] at folds
    · simp [ParameterDecl.project] at noColon
  · rintro rest (folds | ⟨closes, -⟩)
    · simp at folds
    · simp at closes

theorem projectReturn_eq (decl : MethodDecl) :
    decl.projectReturn = introduced " -> " TypeRef.project decl.returned := by
  cases isVoid : decl.returnType.isVoid <;> simp [projectReturn, introduced, returned, isVoid]

theorem projectTail_cancel {a b : MethodDecl} {mark : String} (notArrow : mark ≠ " -> ")
    {r s : Trace} (same : a.projectTail mark ++ r = b.projectTail mark ++ s) :
    a.returned.map TypeRef.outline = b.returned.map TypeRef.outline ∧ r = s := by
  simp only [projectTail, projectReturn_eq, List.cons_append, List.append_assoc, List.nil_append,
    List.cons.injEq, true_and] at same
  obtain ⟨returned, same⟩ :=
    TypeRef.legible_project.introduced (by simp [notArrow]) (by simp [notArrow]) same
  exact ⟨returned, (List.cons.inj same).2⟩

theorem legible_projectBody :
    Legible (fun decl : MethodDecl => (decl.returned.map TypeRef.outline, decl.hasBody))
      projectBody := by
  intro a b r s same
  -- Only a method with a body starts a foldable region here.
  have hasBody : a.hasBody = b.hasBody := by
    cases left : a.hasBody <;> cases right : b.hasBody <;>
      simp_all [projectBody, projectTail, Trace.foldedBlock, Trace.openBlock]
  simp only [projectBody, hasBody] at same
  split at same
  · simp only [Trace.foldedBlock, Trace.openBlock, List.append_assoc, List.cons_append,
      List.cons.injEq, true_and] at same
    obtain ⟨returned, same⟩ := projectTail_cancel (by simp) same
    exact ⟨Prod.ext returned hasBody, by simpa using same⟩
  · rw [List.append_assoc, List.append_assoc] at same
    obtain ⟨returned, same⟩ := projectTail_cancel (by simp) same
    exact ⟨Prod.ext returned hasBody, by simpa using same⟩

theorem legible_project : Legible outline project := by
  intro a b r s same
  simp only [project, projectHead, List.append_assoc, List.cons_append] at same
  obtain ⟨keywords, same⟩ :=
    legible_keywords (a.endsWords_projectName _) (b.endsWords_projectName _) same
  obtain ⟨access, modifiers, isConstructor⟩ := eq_of_keywords_eq keywords
  obtain ⟨name, same⟩ := projectName_cancel isConstructor same
  obtain ⟨parameters, same⟩ := projectParameters_cancel (a.endsParameters_projectBody r)
    (b.endsParameters_projectBody s) (List.cons.inj same).2
  obtain ⟨ending, rest⟩ := legible_projectBody same
  obtain ⟨returnType, hasBody⟩ := Prod.mk.inj ending
  refine ⟨?_, rest⟩
  simp only [outline, name, access, modifiers, isConstructor, parameters, returnType, hasBody]

theorem head?_project (decl : MethodDecl) (rest : Trace) :
    (decl.project ++ rest).head? = some (.beginSpan StyleCategory.keyword.style) := by
  simp only [project, projectHead, List.append_assoc]
  apply head?_keywords
  cases isConstructor : decl.isConstructor with
  | false => simp [keywords, flagged, isConstructor]
  | true => simp [projectName, isConstructor]

end MethodDecl

theorem TypeKind.shown_eq_of_keyword_eq {a b : TypeKind} (same : a.keyword = b.keyword) :
    a.shown = b.shown := by
  cases a <;> cases b <;> first | rfl | simp [keyword] at same

namespace TypeDecl

theorem projectBases_cancel {a b : List TypeRef} {r s : Trace}
    (same : projectBases a ++ .text " " :: r = projectBases b ++ .text " " :: s) :
    a.map TypeRef.outline = b.map TypeRef.outline ∧ r = s := by
  cases a with
  | nil =>
    cases b with
    | nil => simpa [projectBases] using same
    | cons base bases => simp [projectBases] at same
  | cons base bases =>
    cases b with
    | nil => simp [projectBases] at same
    | cons other others =>
      simp only [projectBases, List.cons_append, List.cons.injEq, true_and] at same
      obtain ⟨shown, rest⟩ := TypeRef.legible_project.separatedBy
        (fun rest => rest.head? = some (.text " ")) (by simp [TypeRef.project]) (by simp) rfl rfl
        same
      exact ⟨shown, (List.cons.inj rest).2⟩

theorem projectHeader_cancel {a b : TypeDecl} {r s : Trace}
    (same : a.projectHeader ++ .text " " :: r = b.projectHeader ++ .text " " :: s) :
    (a.access = b.access ∧ a.modifiers = b.modifiers ∧ a.kind.shown = b.kind.shown) ∧
      a.name = b.name ∧
      a.visibleBases.map TypeRef.outline = b.visibleBases.map TypeRef.outline ∧ r = s := by
  simp only [projectHeader, Event.referTo, List.append_assoc, List.cons_append] at same
  obtain ⟨keywords, same⟩ :=
    legible_keywords (endsWords_reference _ _ _ _) (endsWords_reference _ _ _ _) same
  obtain ⟨access, modifiers, kind⟩ := eq_of_keywords_eq keywords
  simp only [List.cons.injEq, Event.reference.injEq, and_true] at same
  obtain ⟨⟨-, name⟩, same⟩ := same
  exact ⟨⟨access, modifiers, TypeKind.shown_eq_of_keyword_eq kind⟩, name, projectBases_cancel same⟩

theorem projectFields_cancel {a b : TypeDecl} {options : Options} {r s : Trace}
    (same : a.projectFields options ++ .unindent :: r =
      b.projectFields options ++ .unindent :: s) :
    a.fields.map (FieldDecl.outline options) = b.fields.map (FieldDecl.outline options) ∧
      r = s := by
  apply (FieldDecl.legible_project options).flatMap_before _ same
  intro field rest
  rw [FieldDecl.head?_project]
  simp

theorem projectMethods_cancel {a b : TypeDecl} {r s : Trace}
    (same : a.projectMethods ++ .unindent :: r = b.projectMethods ++ .unindent :: s) :
    a.methods.map MethodDecl.outline = b.methods.map MethodDecl.outline ∧ r = s := by
  apply MethodDecl.legible_project.flatMap_before _ same
  intro method rest
  rw [MethodDecl.head?_project]
  simp

theorem outline_eq_of_projectBlocks_eq {a b : TypeDecl} {options : Options}
    (namespaceName : a.namespaceName = b.namespaceName)
    (same : a.projectBlocks options = b.projectBlocks options) :
    a.outline options = b.outline options := by
  simp only [projectBlocks, Trace.foldedBlock, Trace.openBlock, Trace.closeBlock, Trace.brace,
    projectTitle, keyword, List.append_assoc, List.cons_append, List.nil_append] at same
  obtain ⟨⟨access, modifiers, kind⟩, name, bases, same⟩ := projectHeader_cancel same
  simp only [List.cons.injEq, true_and] at same
  obtain ⟨fields, same⟩ := projectFields_cancel same
  simp only [List.cons.injEq, true_and] at same
  obtain ⟨methods, -⟩ := projectMethods_cancel same.2
  simp only [outline, namespaceName, name, access, modifiers, kind, bases, fields, methods]

theorem endsWords_text (text : String) (rest : Trace) : EndsWords (.text text :: rest) := by
  intro style word later same
  simp at same

/-- A namespace may be spelled like any part of a header, but it is text where a header has a
reference. -/
theorem module_ne_projectBlocks (space : String) (rest : Trace) (decl : TypeDecl)
    (options : Options) : keyword "module" ++ .text space :: rest ≠ decl.projectBlocks options := by
  intro same
  have oneWord : keyword "module" = ["module"].flatMap keyword := by simp
  simp only [projectBlocks, projectHeader, Event.referTo, List.append_assoc,
    List.cons_append] at same
  rw [oneWord] at same
  obtain ⟨-, next⟩ := legible_keywords (endsWords_text _ _) (endsWords_reference _ _ _ _) same
  simp at next

theorem projectNamespace_cancel {a b : TypeDecl} {options : Options}
    (same : a.projectNamespace ++ a.projectBlocks options =
      b.projectNamespace ++ b.projectBlocks options) :
    a.namespaceName = b.namespaceName ∧ a.projectBlocks options = b.projectBlocks options := by
  by_cases left : a.namespaceName = ""
  · by_cases right : b.namespaceName = ""
    · simpa [projectNamespace, left, right] using same
    · simp only [projectNamespace, left, right, if_true, if_false, List.nil_append,
        List.append_assoc, List.cons_append] at same
      exact absurd same.symm (module_ne_projectBlocks _ _ a options)
  · by_cases right : b.namespaceName = ""
    · simp only [projectNamespace, left, right, if_true, if_false, List.nil_append,
        List.append_assoc, List.cons_append] at same
      exact absurd same (module_ne_projectBlocks _ _ b options)
    · simpa [projectNamespace, left, right] using same

end TypeDecl

/-- Source tells all that an outline has, for any two types that stand in a block of their own. -/
theorem projection_determines_outline (options : Options) (a b : TypeDecl)
    (left : a.isContainer options = false) (right : b.isContainer options = false)
    (same : a.project options = b.project options) :
    a.outline options = b.outline options := by
  simp only [TypeDecl.project, left, right, Bool.false_eq_true, if_false] at same
  obtain ⟨namespaceName, blocks⟩ := TypeDecl.projectNamespace_cancel same
  exact TypeDecl.outline_eq_of_projectBlocks_eq namespaceName blocks

/-- A delegate that states an implied base, in a namespace and with a parameter that are spelled
like other parts of source. -/
def misleadingDelegate : TypeDecl where
  name := "Handler"
  namespaceName := "class"
  kind := .delegate
  bases := [⟨"Object", "System.Object"⟩]
  methods := [{
    name := "Invoke"
    parameters := [⟨")", ⟨"Point", "Geometry.Point"⟩⟩]
    body := some (.ofCode [0x2A]) }]

theorem misleadingDelegate_outline_eq_class :
    let asClass : TypeDecl := { misleadingDelegate with kind := .referenceType, bases := [] }
    misleadingDelegate ≠ asClass ∧ misleadingDelegate.outline {} = asClass.outline {} := by
  refine ⟨by decide, projection_determines_outline {} _ _ ?_ ?_ ?_⟩
  · decide
  · decide
  · decide

end CilSketch
