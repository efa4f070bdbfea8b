import CilSketch.Proofs.Page.Index
import CilSketch.Proofs.Projection.Legibility

/-!
Where the members of a type stand in its source: each of them once, in order, and as it is projected
by itself, between parts that know nothing of members. The references of the page follow from this,
since each construct refers to what it names and to nothing else.
-/

set_option autoImplicit false

namespace CilSketch

/-- What source shows of a type beside its members. -/
structure TypeFrame where
  name : String
  namespaceName : String
  kind : TypeKind
  access : Accessibility
  modifiers : TypeModifiers
  /-- The bases that source states. -/
  bases : List TypeRef
  isContainer : Bool
  deriving DecidableEq, Repr

def TypeDecl.frame (decl : TypeDecl) (options : Options) : TypeFrame where
  name := decl.name
  namespaceName := decl.namespaceName
  kind := decl.kind
  access := decl.access
  modifiers := decl.modifiers
  bases := decl.visibleBases
  isContainer := decl.isContainer options

namespace TypeFrame

def fullName (frame : TypeFrame) : String :=
  qualify frame.namespaceName frame.name

def moduleLine (frame : TypeFrame) : Trace :=
  if frame.namespaceName = "" then []
  else keyword "module" ++ [.text frame.namespaceName, .text ";", .lineBreak, .lineBreak]

def header (frame : TypeFrame) : Trace :=
  (frame.access.keyword?.toList ++ flagged frame.modifiers.table ++
      [frame.kind.keyword]).flatMap keyword ++
    .reference frame.fullName frame.name true :: TypeDecl.projectBases frame.bases

/-- The title of the block of the methods. -/
def title (frame : TypeFrame) : Trace :=
  keyword "implement" ++ [.reference frame.fullName frame.name false, .text " \x7b"]

/-- What comes before the fields. -/
def opening (frame : TypeFrame) : Trace :=
  frame.moduleLine ++
    if frame.isContainer then []
    else frame.header ++ .text " " :: Trace.openBlock [.text "\x7b"] ++ [.lineBreak]

/-- What comes between the fields and the methods. -/
def between (frame : TypeFrame) : Trace :=
  if frame.isContainer then []
  else Trace.closeBlock ++ .lineBreak :: Trace.openBlock frame.title

/-- What comes after the methods. -/
def closing (frame : TypeFrame) : Trace :=
  if frame.isContainer then [] else Trace.closeBlock

theorem between_and_closing_of_isContainer {frame : TypeFrame}
    (isContainer : frame.isContainer = true) : frame.between = [] ∧ frame.closing = [] := by
  rw [between, closing, if_pos isContainer, if_pos isContainer]
  exact ⟨rfl, rfl⟩

end TypeFrame

theorem TypeDecl.project_eq_frame (decl : TypeDecl) (options : Options) :
    decl.project options =
      (decl.frame options).opening ++ decl.projectFields options ++ (decl.frame options).between ++
        decl.projectMethods ++ (decl.frame options).closing := by
  cases isContainer : decl.isContainer options with
  | true =>
    simp [project, TypeFrame.opening, TypeFrame.between, TypeFrame.closing, frame, isContainer,
      projectNamespace, TypeFrame.moduleLine]
  | false =>
    simp [project, projectBlocks, Trace.foldedBlock, TypeFrame.opening, TypeFrame.between,
      TypeFrame.closing, frame, isContainer, projectNamespace, TypeFrame.moduleLine, projectHeader,
      keywords, TypeFrame.header, projectTitle, TypeFrame.title, Event.referTo, Entity.target,
      fullName, TypeFrame.fullName]

/-- The target of an event that refers to something, as its definition or as a use of it. -/
def Event.target? (asDefinition : Bool) : Event → Option String
  | .reference target _ isDefinition => if isDefinition == asDefinition then some target else none
  | _ => none

/-- The targets that a trace defines, or those that it uses, in order. -/
def Trace.targets (asDefinition : Bool) (trace : Trace) : List String :=
  trace.filterMap (Event.target? asDefinition)

namespace Trace

variable (asDefinition : Bool)

@[simp] theorem targets_nil : targets asDefinition [] = [] := rfl

@[simp] theorem targets_append (a b : Trace) :
    targets asDefinition (a ++ b) = targets asDefinition a ++ targets asDefinition b :=
  List.filterMap_append

theorem targets_cons (event : Event) (rest : Trace) :
    targets asDefinition (event :: rest) =
      (event.target? asDefinition).toList ++ targets asDefinition rest := by
  rw [targets, List.filterMap_cons]
  cases event.target? asDefinition <;> rfl

theorem targets_flatMap {α : Type} (items : List α) (project : α → Trace) :
    targets asDefinition (items.flatMap project) =
      items.flatMap fun item => targets asDefinition (project item) :=
  List.filterMap_flatMap

/-- Things with a separator between them, each of which uses one target. -/
theorem targets_separatedBy {α : Type} {project : α → Trace} {target : α → String}
    (uses : ∀ item, targets asDefinition (project item) =
      if asDefinition then [] else [target item])
    (separator : String) (items : List α) :
    targets asDefinition (separatedBy separator (items.map project)) =
      if asDefinition then [] else items.map target := by
  have flat : targets asDefinition (separatedBy separator (items.map project)) =
      items.flatMap fun item => targets asDefinition (project item) := by
    cases items with
    | nil => rfl
    | cons item rest =>
      rw [List.map_cons, separatedBy_cons, List.flatMap_map, targets_append, targets_flatMap,
        List.flatMap_cons]
      rfl
  simp only [flat, uses]
  cases asDefinition with
  | false => exact List.map_eq_flatMap.symm
  | true => simp

end Trace

namespace Page

/-- The targets that the references of a page define, or those that they use, in order. -/
def targets (asDefinition : Bool) (page : Page) : List String :=
  (page.references.filter (·.isDefinition == asDefinition)).map Reference.target

theorem map_target_definitions (page : Page) :
    page.definitions.map Reference.target = page.targets true := by
  simp [definitions, targets]

theorem map_target_uses (page : Page) :
    (page.references.filter fun reference => !reference.isDefinition).map Reference.target =
      page.targets false := by
  simp [targets]

theorem targets_step (asDefinition : Bool) (page : Page) (event : Event) :
    (page.step event).targets asDefinition =
      page.targets asDefinition ++ (event.target? asDefinition).toList := by
  cases isReference : event.isReference with
  | false =>
    have refersToNothing : event.target? asDefinition = none := by
      cases event <;> simp_all [Event.isReference, Event.target?]
    rw [targets, references_step_other page isReference, refersToNothing]
    exact (List.append_nil _).symm
  | true =>
    obtain ⟨target, shown, isDefinition, rfl⟩ := Event.exists_eq_reference isReference
    obtain ⟨recorded, added, rfl, rfl, -⟩ :=
      page.references_step_reference target shown isDefinition
    rw [targets, added, List.filter_append, List.map_append, targets, Event.target?,
      List.filter_singleton]
    cases recorded.isDefinition == asDefinition <;> rfl

/-- A page records what a trace refers to. -/
theorem targets_play (asDefinition : Bool) (page : Page) (trace : Trace) :
    (page.play trace).targets asDefinition =
      page.targets asDefinition ++ trace.targets asDefinition := by
  induction trace generalizing page with
  | nil => exact (List.append_nil _).symm
  | cons event rest ih =>
    rw [play_cons, ih, targets_step, Trace.targets_cons, List.append_assoc]

end Page

section Constructs

variable (asDefinition : Bool)

theorem targets_keyword (word : String) : Trace.targets asDefinition (keyword word) = [] := rfl

theorem targets_keywords (words : List String) :
    Trace.targets asDefinition (words.flatMap keyword) = [] := by
  rw [Trace.targets_flatMap]
  exact List.flatMap_eq_nil_iff.mpr fun word _ => targets_keyword asDefinition word

theorem Trace.targets_openBlock (title : Trace) :
    Trace.targets asDefinition (.openBlock title) = Trace.targets asDefinition title := by
  simp [openBlock, targets_cons, Event.target?]

theorem Trace.targets_closeBlock : Trace.targets asDefinition .closeBlock = [] := rfl

theorem Literal.targets_project (literal : Literal) :
    Trace.targets asDefinition literal.project = [] := by
  unfold project
  split <;> rfl

theorem TypeRef.targets_project (ref : TypeRef) :
    Trace.targets asDefinition ref.project = if asDefinition then [] else [ref.fullName] := by
  cases asDefinition <;> rfl

theorem FieldDecl.targets_project (decl : FieldDecl) (options : Options) :
    Trace.targets asDefinition (decl.project options) =
      if asDefinition then [decl.name] else [decl.type.fullName] := by
  have constant : Trace.targets asDefinition (decl.projectConstant options) = [] := by
    unfold projectConstant
    split
    · rw [Trace.targets_cons, Literal.targets_project]
      rfl
    · rfl
  simp only [project, projectLine, Trace.targets_append, targets_keywords,
    TypeRef.targets_project, constant]
  cases asDefinition <;> rfl

/-- The types that a signature names: those of the parameters, and what is returned if anything
is. -/
def MethodDecl.signatureTypes (decl : MethodDecl) : List TypeRef :=
  decl.parameters.map ParameterDecl.type ++
    if decl.returnType.isVoid then [] else [decl.returnType]

namespace MethodDecl

theorem targets_projectName (decl : MethodDecl) :
    Trace.targets asDefinition decl.projectName = if asDefinition then [decl.name] else [] := by
  unfold projectName
  split <;> cases asDefinition <;> rfl

theorem targets_projectParameters (decl : MethodDecl) :
    Trace.targets asDefinition decl.projectParameters =
      if asDefinition then [] else decl.parameters.map (·.type.fullName) := by
  apply Trace.targets_separatedBy
  intro parameter
  cases asDefinition <;> rfl

theorem targets_projectReturn (decl : MethodDecl) :
    Trace.targets asDefinition decl.projectReturn =
      if asDefinition || decl.returnType.isVoid then [] else [decl.returnType.fullName] := by
  cases isVoid : decl.returnType.isVoid <;> cases asDefinition <;>
    simp [projectReturn, isVoid, Trace.targets_cons, TypeRef.targets_project, Event.target?]

theorem targets_projectTail (decl : MethodDecl) (mark : String) :
    Trace.targets asDefinition (decl.projectTail mark) =
      Trace.targets asDefinition decl.projectReturn := by
  simp [projectTail, Trace.targets_cons, Event.target?]

theorem targets_projectBody (decl : MethodDecl) :
    Trace.targets asDefinition decl.projectBody =
      Trace.targets asDefinition decl.projectReturn := by
  unfold projectBody
  split
  · simp [Trace.foldedBlock, Trace.targets_openBlock, Trace.targets_closeBlock,
      targets_projectTail, Trace.targets_cons, Event.target?]
  · simp [targets_projectTail, Trace.targets_cons, Event.target?]

theorem targets_project (decl : MethodDecl) :
    Trace.targets asDefinition decl.project =
      if asDefinition then [decl.name] else decl.signatureTypes.map TypeRef.fullName := by
  simp only [project, projectHead, Trace.targets_append, targets_keywords, targets_projectName,
    Trace.targets_cons, targets_projectParameters, targets_projectBody, targets_projectReturn,
    signatureTypes]
  cases asDefinition <;> cases decl.returnType.isVoid <;>
    simp [Event.target?, Function.comp_def]

end MethodDecl

theorem TypeDecl.targets_projectBases (bases : List TypeRef) :
    Trace.targets asDefinition (projectBases bases) =
      if asDefinition then [] else bases.map TypeRef.fullName := by
  cases bases with
  | nil => simp [projectBases]
  | cons base rest =>
    have shown : projectBases (base :: rest) =
        .text ": " :: separatedBy ", " ((base :: rest).map TypeRef.project) := rfl
    rw [shown, Trace.targets_cons,
      Trace.targets_separatedBy asDefinition (TypeRef.targets_project asDefinition)]
    rfl

namespace TypeFrame

theorem targets_opening (frame : TypeFrame) :
    Trace.targets asDefinition frame.opening =
      if frame.isContainer then [] else
        if asDefinition then [frame.fullName] else frame.bases.map TypeRef.fullName := by
  have moduleLine : Trace.targets asDefinition frame.moduleLine = [] := by
    unfold TypeFrame.moduleLine
    split <;> rfl
  have header : Trace.targets asDefinition frame.header =
      if asDefinition then [frame.fullName] else frame.bases.map TypeRef.fullName := by
    simp only [TypeFrame.header, Trace.targets_append, targets_keywords, Trace.targets_cons,
      TypeDecl.targets_projectBases]
    cases asDefinition <;> simp [Event.target?]
  rw [opening, Trace.targets_append, moduleLine, List.nil_append]
  split
  · rfl
  · rw [Trace.targets_append, Trace.targets_append, header]
    simp [Trace.targets_cons, Trace.targets_openBlock, Event.target?]

theorem targets_between (frame : TypeFrame) :
    Trace.targets asDefinition frame.between =
      if frame.isContainer || asDefinition then [] else [frame.fullName] := by
  cases isContainer : frame.isContainer <;> cases asDefinition <;>
    simp [between, title, isContainer, Trace.targets_closeBlock, Trace.targets_openBlock,
      targets_keyword, Trace.targets_cons, Event.target?]

theorem targets_closing (frame : TypeFrame) : Trace.targets asDefinition frame.closing = [] := by
  unfold closing
  split <;> rfl

end TypeFrame

end Constructs

namespace TypeDecl

variable (decl : TypeDecl) (options : Options)

theorem targets_true_project :
    Trace.targets true (decl.project options) =
      (if decl.isContainer options then [] else [decl.fullName]) ++
        decl.fields.map FieldDecl.name ++ decl.methods.map MethodDecl.name := by
  have opening := (decl.frame options).targets_opening true
  have between := (decl.frame options).targets_between true
  have closing := (decl.frame options).targets_closing true
  simp only [if_true, Bool.or_true] at opening between
  simp only [project_eq_frame, Trace.targets_append, opening, projectFields, between,
    projectMethods, closing, Trace.targets_flatMap, FieldDecl.targets_project,
    MethodDecl.targets_project, if_true, List.append_nil, ← List.map_eq_flatMap]
  rfl

theorem targets_false_project :
    Trace.targets false (decl.project options) =
      (if decl.isContainer options then [] else decl.visibleBases.map TypeRef.fullName) ++
        decl.fields.map (fun field => field.type.fullName) ++
        (if decl.isContainer options then [] else [decl.fullName]) ++
        decl.methods.flatMap fun method => method.signatureTypes.map TypeRef.fullName := by
  have opening := (decl.frame options).targets_opening false
  have between := (decl.frame options).targets_between false
  have closing := (decl.frame options).targets_closing false
  simp only [Bool.false_eq_true, if_false, Bool.or_false] at opening between
  simp only [project_eq_frame, Trace.targets_append, opening, projectFields, between,
    projectMethods, closing, Trace.targets_flatMap, FieldDecl.targets_project,
    MethodDecl.targets_project, Bool.false_eq_true, if_false, List.append_nil,
    ← List.map_eq_flatMap]
  rfl

end TypeDecl

/-- The source of a type is its members, each once and as it is projected by itself, in the frame of
the type; a container has nothing between its fields and methods or behind them. The page defines
the type, its fields and its methods, and it uses the bases, the types of the fields, the type
itself, and the types of each signature, all in the order of the declaration. -/
theorem members_projected_in_order (unit : String) (decl : TypeDecl) (options : Options) :
    let frame := decl.frame options
    let page := (Page.blank unit).play (decl.project options)
    let own := if decl.isContainer options then [] else [decl.fullName]
    let bases :=
      if decl.isContainer options then [] else decl.visibleBases.map TypeRef.fullName
    decl.project options =
        frame.opening ++ (decl.fields.flatMap fun field => field.project options) ++
          frame.between ++ decl.methods.flatMap MethodDecl.project ++ frame.closing ∧
      (decl.isContainer options = true → frame.between = [] ∧ frame.closing = []) ∧
      page.definitions.map Reference.target =
        own ++ decl.fields.map FieldDecl.name ++ decl.methods.map MethodDecl.name ∧
      (page.references.filter fun reference => !reference.isDefinition).map Reference.target =
        bases ++ decl.fields.map (fun field => field.type.fullName) ++ own ++
          decl.methods.flatMap fun method => method.signatureTypes.map TypeRef.fullName := by
  intro frame page own bases
  refine ⟨decl.project_eq_frame options, ?_, ?_, ?_⟩
  · intro isContainer
    exact TypeFrame.between_and_closing_of_isContainer isContainer
  · rw [page.map_target_definitions, Page.targets_play, decl.targets_true_project]
    rfl
  · rw [page.map_target_uses, Page.targets_play, decl.targets_false_project]
    rfl

/-- A container by its name alone, with a member of each kind. -/
def namedContainer : TypeDecl where
  name := "FreeFunctions"
  namespaceName := "App"
  bases := [⟨"Base", "App.Base"⟩]
  fields := [{ name := "Version", type := .inNamespace "System" "Int32" }]
  methods := [{
    name := "Main"
    parameters := [⟨"args", .inNamespace "System" "String"⟩]
    returnType := .inNamespace "System" "Boolean"
    body := some (.ofCode [0x2A]) }]

theorem namedContainer_members_alone :
    let frame := namedContainer.frame {}
    let page := (Page.blank "\t").play (namedContainer.project {})
    (namedContainer.isContainer {} = true ∧ frame.between = [] ∧ frame.closing = []) ∧
      page.definitions.map Reference.target = ["Version", "Main"] ∧
      (page.references.filter fun reference => !reference.isDefinition).map Reference.target =
        ["System.Int32", "System.String", "System.Boolean"] := by
  have isContainer : namedContainer.isContainer {} = true := by decide
  obtain ⟨-, alone, defined, used⟩ := members_projected_in_order "\t" namedContainer {}
  refine ⟨⟨isContainer, alone isContainer⟩, ?_, ?_⟩
  · rw [defined, if_pos isContainer]
    rfl
  · rw [used, if_pos isContainer, if_pos isContainer]
    decide

end CilSketch
