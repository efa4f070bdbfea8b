import CilSketch.Projection.Type
import CilSketch.Proofs.Page.Nesting

/-!
Projected source is well bracketed. Each construct of the surface language is nested because its
parts are, and all regions and indented lines belong to a foldable block.
-/

set_option autoImplicit false

namespace CilSketch

open Trace (Nested WellBracketed)

namespace Trace.Nested

variable {inner rest : Trace}

theorem text (shown : String) (nested : Nested rest) : Nested (.text shown :: rest) :=
  .plain rfl rfl nested

theorem lineBreak (nested : Nested rest) : Nested (.lineBreak :: rest) :=
  .plain rfl rfl nested

theorem reference (entity : Entity) (shown : String) (isDefinition : Bool)
    (nested : Nested rest) : Nested (.referTo entity shown isDefinition :: rest) :=
  .plain rfl rfl nested

theorem styled (style : Style) (nested : Nested inner) :
    Nested (.beginSpan style :: inner ++ [.endSpan]) :=
  .enclose rfl rfl nested .nil

theorem block (nestedInner : Nested inner) (nestedRest : Nested rest) :
    Nested (.indent :: inner ++ .unindent :: rest) :=
  .enclose rfl rfl nestedInner nestedRest

theorem region (nestedInner : Nested inner) (nestedRest : Nested rest) :
    Nested (.foldStart :: inner ++ .foldEnd :: rest) :=
  .enclose rfl rfl nestedInner nestedRest

theorem separatedBy {items : List Trace} (separator : String)
    (nested : ∀ item ∈ items, Nested item) : Nested (separatedBy separator items) := by
  induction items with
  | nil => exact .nil
  | cons item rest ih =>
    have nestedItem : Nested item := nested item (by simp)
    cases rest with
    | nil =>
      rw [CilSketch.separatedBy, List.intercalate_singleton]
      exact nestedItem
    | cons next rest =>
      rw [CilSketch.separatedBy, List.intercalate_cons_cons]
      have nestedRest := ih fun other member => nested other (List.mem_cons_of_mem _ member)
      exact (nestedItem.append (.text separator .nil)).append nestedRest

end Trace.Nested

namespace Trace

/-- A foldable block without its region: a title, what is inside, and the brace that ends it. -/
def block (title inner : Trace) : Trace :=
  title ++ .lineBreak :: .indent :: inner ++ brace

theorem foldedBlock_eq_block (title inner : Trace) :
    foldedBlock title inner = .foldStart :: block title inner ++ [.foldEnd] := by
  simp [foldedBlock, openBlock, closeBlock, block]

theorem Nested.titledBlock {title inner : Trace} (nestedTitle : Nested title)
    (nestedInner : Nested inner) : Nested (Trace.block title inner) := by
  have lines := Nested.block nestedInner (.text "\x7d" (.lineBreak .nil))
  simpa [Trace.block, brace] using nestedTitle.append (.lineBreak lines)

theorem Nested.foldedBlock {title inner : Trace} (nestedTitle : Nested title)
    (nestedInner : Nested inner) : Nested (Trace.foldedBlock title inner) := by
  rw [foldedBlock_eq_block]
  exact .region (nestedTitle.titledBlock nestedInner) .nil

end Trace

theorem nested_keyword (word : String) : Nested (keyword word) :=
  .styled _ (.text word (.text " " .nil))

theorem nested_keywords (words : List String) : Nested (words.flatMap keyword) :=
  .flatMap nested_keyword

theorem TypeRef.nested_project (ref : TypeRef) : Nested ref.project :=
  .styled _ (.reference _ _ _ .nil)

theorem Literal.nested_project (literal : Literal) : Nested literal.project := by
  unfold project
  split
  · exact .styled _ (.text _ .nil)
  · exact .text _ .nil

namespace FieldDecl

theorem nested_projectConstant (decl : FieldDecl) (options : Options) :
    Nested (decl.projectConstant options) := by
  unfold projectConstant
  split
  · exact .text _ (Literal.nested_project _)
  · exact .nil

theorem nested_project (decl : FieldDecl) (options : Options) : Nested (decl.project options) := by
  have name : Nested [.referTo (.field decl) decl.name true, .text ": "] :=
    .reference _ _ _ (.text _ .nil)
  have words := (nested_keywords decl.keywords).append name
  have line := (words.append decl.type.nested_project).append (decl.nested_projectConstant options)
  exact (line.append (.text ";" .nil)).append (.lineBreak .nil)

end FieldDecl

namespace MethodDecl

theorem nested_projectName (decl : MethodDecl) : Nested decl.projectName := by
  unfold projectName
  split
  · exact .styled _ (.reference _ _ _ .nil)
  · exact .reference _ _ _ .nil

theorem nested_projectReturn (decl : MethodDecl) : Nested decl.projectReturn := by
  unfold projectReturn
  split
  · exact .nil
  · exact .text _ decl.returnType.nested_project

theorem nested_projectParameters (decl : MethodDecl) : Nested decl.projectParameters := by
  apply Trace.Nested.separatedBy
  intro item member
  obtain ⟨parameter, _, rfl⟩ := List.mem_map.mp member
  exact .text _ (.text _ parameter.type.nested_project)

theorem nested_projectHead (decl : MethodDecl) : Nested decl.projectHead := by
  have words := (nested_keywords decl.keywords).append decl.nested_projectName
  exact words.append (.text "(" decl.nested_projectParameters)

theorem nested_projectTail (decl : MethodDecl) (mark : String) : Nested (decl.projectTail mark) :=
  .text _ (decl.nested_projectReturn.append (.text _ .nil))

theorem nested_project (decl : MethodDecl) : Nested decl.project := by
  apply decl.nested_projectHead.append
  unfold projectBody
  split
  · exact ((decl.nested_projectTail _).foldedBlock .nil).append (.lineBreak (.lineBreak .nil))
  · exact (decl.nested_projectTail _).append (.lineBreak .nil)

end MethodDecl

namespace TypeDecl

theorem nested_projectNamespace (decl : TypeDecl) : Nested decl.projectNamespace := by
  unfold projectNamespace
  split
  · exact .nil
  · refine (nested_keyword "module").append ?_
    exact .text _ (.text _ (.lineBreak (.lineBreak .nil)))

theorem nested_projectBases (bases : List TypeRef) : Nested (projectBases bases) := by
  cases bases with
  | nil => exact .nil
  | cons base rest =>
    refine .text _ (.separatedBy ", " ?_)
    intro item member
    obtain ⟨ref, _, rfl⟩ := List.mem_map.mp member
    exact ref.nested_project

theorem nested_projectHeader (decl : TypeDecl) : Nested decl.projectHeader :=
  (nested_keywords decl.keywords).append (.reference _ _ _ (nested_projectBases _))

theorem nested_projectTitle (decl : TypeDecl) : Nested decl.projectTitle :=
  (nested_keyword "implement").append (.reference _ _ _ (.text _ .nil))

theorem nested_projectFields (decl : TypeDecl) (options : Options) :
    Nested (decl.projectFields options) :=
  .flatMap fun field => field.nested_project options

theorem nested_projectMethods (decl : TypeDecl) : Nested decl.projectMethods :=
  .flatMap MethodDecl.nested_project

theorem nested_projectBlocks (decl : TypeDecl) (options : Options) :
    Nested (decl.projectBlocks options) := by
  have brace : Nested [.text "\x7b"] := .text _ .nil
  have fields := brace.foldedBlock (.lineBreak (decl.nested_projectFields options))
  have methods := decl.nested_projectTitle.foldedBlock decl.nested_projectMethods
  exact (decl.nested_projectHeader.append (.text " " fields)).append (.lineBreak methods)

theorem nested_project (decl : TypeDecl) (options : Options) : Nested (decl.project options) := by
  refine decl.nested_projectNamespace.append ?_
  split
  · exact (decl.nested_projectFields options).append decl.nested_projectMethods
  · exact decl.nested_projectBlocks options

end TypeDecl

/-- Everything that is projected by itself is well bracketed, whatever the code of its bodies. -/
theorem projections_wellBracketed (options : Options) :
    (∀ decl : TypeDecl, WellBracketed (decl.project options)) ∧
      (∀ decl : FieldDecl, WellBracketed (decl.project options)) ∧
      (∀ decl : MethodDecl, WellBracketed decl.project) ∧
      (∀ value : Constant, WellBracketed (Literal.ofConstant options value).project) := by
  refine ⟨?_, ?_, ?_, ?_⟩
  · intro decl
    exact (decl.nested_project options).wellBracketed
  · intro decl
    exact (decl.nested_project options).wellBracketed
  · intro decl
    exact decl.nested_project.wellBracketed
  · intro value
    exact (Literal.ofConstant options value).nested_project.wellBracketed

end CilSketch
