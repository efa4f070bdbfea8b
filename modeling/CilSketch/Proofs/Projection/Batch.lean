import CilSketch.Proofs.Page.Sequel
import CilSketch.Proofs.Projection.Nesting

/-!
Types projected one after the other on one page, and each on a page of its own. The source of a type
is self-contained, whether it has blocks, is a container or is nothing at all, so both ways give the
same text, and the same index up to what stands before each type.
-/

set_option autoImplicit false

namespace CilSketch

open Trace (EndsLine KeepsLineStart SelfContained)

theorem endsLine_lineBreak : EndsLine [.lineBreak] :=
  fun _ => rfl

/-- The region of a block is closed after the line break that ends the block. -/
theorem endsLine_foldedBlock (title inner : Trace) : EndsLine (.foldedBlock title inner) := by
  have closing : EndsLine Trace.closeBlock := by
    intro page
    have last : page.play Trace.closeBlock =
        (page.play Trace.brace).step .foldEnd := rfl
    rw [last, Page.atLineStart_step _ (by simp)]
    rfl
  exact closing.after _

theorem FieldDecl.endsLine_project (decl : FieldDecl) (options : Options) :
    EndsLine (decl.project options) :=
  endsLine_lineBreak.after _

theorem MethodDecl.endsLine_project (decl : MethodDecl) : EndsLine decl.project := by
  apply EndsLine.after
  unfold projectBody
  split
  · exact (endsLine_lineBreak.after [.lineBreak]).after _
  · exact endsLine_lineBreak.after _

namespace TypeDecl

theorem keepsLineStart_projectNamespace (decl : TypeDecl) :
    KeepsLineStart decl.projectNamespace := by
  unfold projectNamespace
  split
  · exact .nil
  · have ending : EndsLine [.text decl.namespaceName, .text ";", .lineBreak, .lineBreak] :=
      fun _ => rfl
    exact (ending.after _).keepsLineStart

theorem endsLine_projectBlocks (decl : TypeDecl) (options : Options) :
    EndsLine (decl.projectBlocks options) :=
  ((endsLine_foldedBlock _ _).after [.lineBreak]).after _

theorem keepsLineStart_project (decl : TypeDecl) (options : Options) :
    KeepsLineStart (decl.project options) := by
  apply decl.keepsLineStart_projectNamespace.append
  split
  · apply KeepsLineStart.append
    · exact .flatMap fun field => (field.endsLine_project options).keepsLineStart
    · exact .flatMap fun method => method.endsLine_project.keepsLineStart
  · exact (decl.endsLine_projectBlocks options).keepsLineStart

theorem selfContained_project (decl : TypeDecl) (options : Options) :
    SelfContained (decl.project options) where
  nested := decl.nested_project options
  keepsLineStart := decl.keepsLineStart_project options

end TypeDecl

/-- Projects types on one page, one after the other. -/
def projectOnto (page : Page) (decls : List TypeDecl) (options : Options) : Page :=
  decls.foldl (fun page decl => page.play (decl.project options)) page

/-- How far the sources of some types, each on a page of its own, move what comes behind them. -/
def shiftAfter (decls : List TypeDecl) (options : Options) : Shift where
  bytes := ((projectPages decls options).map Page.size).sum
  lines := (decls.map fun decl => (decl.project options).lineBreaks).sum

section Batch

variable (decls : List TypeDecl) (options : Options)

theorem projectOnto_eq_foldl (page : Page) :
    projectOnto page decls options =
      (decls.map fun decl => decl.project options).foldl Page.play page := by
  rw [projectOnto, List.foldl_map]

theorem projectPages_eq_map :
    projectPages decls options =
      (decls.map fun decl => decl.project options).map (Page.blank Page.defaultUnit).play := by
  rw [List.map_map]
  rfl

theorem selfContained_projections :
    ∀ trace ∈ decls.map fun decl => decl.project options, trace.SelfContained := by
  intro trace member
  obtain ⟨decl, -, rfl⟩ := List.mem_map.mp member
  exact decl.selfContained_project options

theorem text_projectOnto :
    (projectOnto (.blank Page.defaultUnit) decls options).text =
      String.join ((projectPages decls options).map Page.text) := by
  rw [projectOnto_eq_foldl, projectPages_eq_map,
    (Page.AtRest.blank Page.defaultUnit).text_foldl_play (selfContained_projections decls options)]
  exact String.empty_append

theorem shift_projectOnto :
    (projectOnto (.blank Page.defaultUnit) decls options).shift = shiftAfter decls options := by
  have bytes : (projectOnto (.blank Page.defaultUnit) decls options).size =
      ((projectPages decls options).map Page.size).sum := by
    rw [Page.size, text_projectOnto]
    induction projectPages decls options with
    | nil => rfl
    | cons page rest ih =>
      rw [List.map_cons, String.join_cons, String.utf8ByteSize_append, ih]
      rfl
  have lines : (projectOnto (.blank Page.defaultUnit) decls options).line =
      1 + (decls.map fun decl => (decl.project options).lineBreaks).sum := by
    rw [projectOnto_eq_foldl, Page.line_foldl_play, List.map_map]
    rfl
  rw [Page.shift, bytes, lines, Nat.add_sub_cancel_left]
  rfl

/-- What one of the lists of a page holds after the types, if putting a page behind finished text
shifts the members of the list. -/
theorem items_projectOnto {α : Type} (items : Page → List α) (shifted : Shift → α → α)
    (items_blank : items (.blank Page.defaultUnit) = [])
    (items_behind : ∀ front page : Page,
      items (front.behind page) = items front ++ (items page).map (shifted front.shift)) :
    items (projectOnto (.blank Page.defaultUnit) decls options) =
      ((projectPages decls options).mapIdx fun index page =>
        (items page).map (shifted (shiftAfter (decls.take index) options))).flatten := by
  have listed := (Page.AtRest.blank Page.defaultUnit).items_foldl_play items_behind
    (selfContained_projections decls options)
  rw [items_blank, List.nil_append, ← projectPages_eq_map] at listed
  simp only [← List.map_take, ← projectOnto_eq_foldl, shift_projectOnto] at listed
  exact listed

end Batch

/-- Types projected one after the other on one page have the text of the batch and its index, where
each type is moved by the text and by the line breaks of those before it. -/
theorem sequential_projection_eq_batch (decls : List TypeDecl) (options : Options) :
    let whole := projectOnto (.blank Page.defaultUnit) decls options
    let pages := projectPages decls options
    let shift := fun index => shiftAfter (decls.take index) options
    whole.text = String.join (pages.map Page.text) ∧
      whole.folds =
        (pages.mapIdx fun index page => page.folds.map (.shifted (shift index))).flatten ∧
      whole.spans =
        (pages.mapIdx fun index page => page.spans.map (.shifted (shift index))).flatten ∧
      whole.references =
        (pages.mapIdx fun index page => page.references.map (.shifted (shift index))).flatten := by
  intro whole pages shift
  refine ⟨text_projectOnto decls options, ?_, ?_, ?_⟩
  · exact items_projectOnto decls options Page.folds Fold.shifted rfl fun _ _ => rfl
  · exact items_projectOnto decls options Page.spans Span.shifted rfl fun _ _ => rfl
  · exact items_projectOnto decls options Page.references Reference.shifted rfl fun _ _ => rfl

end CilSketch
