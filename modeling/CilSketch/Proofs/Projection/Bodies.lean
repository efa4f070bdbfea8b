import CilSketch.Projection.Journal
import CilSketch.Projection.Type
import Mathlib.Data.List.Forall2

/-!
Bodies are not seen in source. Source shows whether a method has a body, and only the journal shows
what the body is or whether it could be decoded, so types that differ in the code of their bodies
alone are projected alike.
-/

set_option autoImplicit false

namespace CilSketch

/-- The same choices, but for whether bodies are decoded. -/
def Options.SameButDecoding (a b : Options) : Prop :=
  b = { a with decodeBodies := b.decodeBodies }

/-- The same method, but for the body if it has one. -/
structure MethodDecl.SameButBody (a b : MethodDecl) : Prop where
  rest_eq : b = { a with body := b.body }
  hasBody_eq : b.hasBody = a.hasBody

/-- The same type, but for the bodies of those methods that have one. -/
structure TypeDecl.SameButBodies (a b : TypeDecl) : Prop where
  rest_eq : b = { a with methods := b.methods }
  methods : List.Forall₂ MethodDecl.SameButBody a.methods b.methods

namespace Options.SameButDecoding

variable {a b : Options}

theorem ofConstant_eq (same : a.SameButDecoding b) (value : Constant) :
    Literal.ofConstant b value = Literal.ofConstant a value := by
  have escapeChars : b.escapeChars = a.escapeChars := by rw [same]
  cases value with
  | char c => simp only [Literal.ofConstant, Literal.charText, escapeChars]
  | string | boolean | integer | unsigned | single | double | other => rfl

theorem project_field_eq (same : a.SameButDecoding b) (decl : FieldDecl) :
    decl.project b = decl.project a := by
  have constant : decl.projectConstant b = decl.projectConstant a := by
    unfold FieldDecl.projectConstant
    split
    · rw [same.ofConstant_eq]
    · rfl
  rw [FieldDecl.project, FieldDecl.projectLine, constant]
  rfl

theorem isContainer_eq (same : a.SameButDecoding b) (decl : TypeDecl) :
    decl.isContainer b = decl.isContainer a := by
  have container : b.container = a.container := by rw [same]
  simp only [TypeDecl.isContainer, Options.isContainerName, container]

theorem project_eq (same : a.SameButDecoding b) (decl : TypeDecl) :
    decl.project b = decl.project a := by
  have fields : decl.projectFields b = decl.projectFields a := by
    simp only [TypeDecl.projectFields, same.project_field_eq]
  simp only [TypeDecl.project, TypeDecl.projectBlocks, same.isContainer_eq, fields]

end Options.SameButDecoding

namespace MethodDecl.SameButBody

theorem project_eq {a b : MethodDecl} (same : a.SameButBody b) : b.project = a.project := by
  obtain ⟨rest, hasBody⟩ := same
  have head : b.projectHead = a.projectHead := by rw [rest]; rfl
  have tail : b.projectTail = a.projectTail := by rw [rest]; rfl
  rw [project, project, projectBody, projectBody, head, tail, hasBody]

theorem flatMap_project_eq {as bs : List MethodDecl}
    (same : List.Forall₂ MethodDecl.SameButBody as bs) :
    bs.flatMap project = as.flatMap project := by
  induction same with
  | nil => rfl
  | cons first _ ih => rw [List.flatMap_cons, List.flatMap_cons, first.project_eq, ih]

end MethodDecl.SameButBody

theorem TypeDecl.SameButBodies.project_eq {a b : TypeDecl} (same : a.SameButBodies b)
    (options : Options) : b.project options = a.project options := by
  obtain ⟨rest, pairs⟩ := same
  have methods : b.projectMethods = a.projectMethods :=
    MethodDecl.SameButBody.flatMap_project_eq pairs
  have namespaceLine : b.projectNamespace = a.projectNamespace := by rw [rest]; rfl
  have isContainer : b.isContainer options = a.isContainer options := by rw [rest]; rfl
  have header : b.projectHeader = a.projectHeader := by rw [rest]; rfl
  have fields : b.projectFields options = a.projectFields options := by rw [rest]; rfl
  have title : b.projectTitle = a.projectTitle := by rw [rest]; rfl
  simp only [project, projectBlocks, namespaceLine, isContainer, header, fields, title, methods]

/-- Whatever the bodies are, and whether they are decoded or not, types and methods that are
otherwise the same have the same source, and it leaves any page in the same state. -/
theorem projection_ignores_bodies (o p : Options) (options : o.SameButDecoding p) :
    (∀ a b : TypeDecl, a.SameButBodies b →
        a.project o = b.project p ∧
          ∀ page : Page, page.play (a.project o) = page.play (b.project p)) ∧
      ∀ a b : MethodDecl, a.SameButBody b →
        a.project = b.project ∧ ∀ page : Page, page.play a.project = page.play b.project := by
  constructor
  · intro a b same
    have alike : a.project o = b.project p := by
      rw [options.project_eq, same.project_eq]
    exact ⟨alike, fun page => congrArg page.play alike⟩
  · intro a b same
    have alike := same.project_eq.symm
    exact ⟨alike, fun page => congrArg page.play alike⟩

/-- A type with a method of the given body and a method without any. -/
def oneBody (body : Body) : TypeDecl where
  name := "Worker"
  namespaceName := "App"
  fields := [{ name := "mark", type := .inNamespace "System" "Char", constant := some (.char '\'') }]
  methods := [{ name := "Run", body := some body }, { name := "Stop" }]

/-- A body that ends within an opcode and is decoded, and a sound one of a fat header that is not:
the journals differ, and the sources do not. -/
theorem truncatedBody_unseen :
    let truncated := oneBody (.ofCode [0x00, 0xFE])
    let sound := oneBody ⟨[0x2A], 2, true, true, 0x11000001⟩
    truncated.journal {} ≠ sound.journal { decodeBodies := false } ∧
      truncated.project {} = sound.project { decodeBodies := false } ∧
      (Page.blank "\t").play (truncated.project {}) =
        (Page.blank "\t").play (sound.project { decodeBodies := false }) ∧
      truncated.methods.head?.map MethodDecl.project = sound.methods.head?.map MethodDecl.project := by
  intro truncated sound
  obtain ⟨ofTypes, ofMethods⟩ := projection_ignores_bodies {} { decodeBodies := false } rfl
  have alike : ∀ body other : Body, MethodDecl.SameButBody
      { name := "Run", body := some body } { name := "Run", body := some other } :=
    fun body other => ⟨rfl, rfl⟩
  have types := ofTypes truncated sound ⟨rfl, .cons (alike _ _) (.cons ⟨rfl, rfl⟩ .nil)⟩
  have methods := ofMethods _ _ (alike (.ofCode [0x00, 0xFE]) ⟨[0x2A], 2, true, true, 0x11000001⟩)
  refine ⟨?_, types.1, types.2 _, ?_⟩
  · intro same
    have lengths := congrArg List.length same
    exact absurd lengths (by simp [truncated, sound, oneBody, TypeDecl.journal, MethodDecl.journal])
  · exact congrArg some methods.1

end CilSketch
