import CilSketch.Proofs.Page.Blocks
import CilSketch.Proofs.Projection.Layout

/-!
The foldable regions of projected source are its blocks. A type has a region for its fields and one
for its methods, and every body has a region that begins behind the parameters. Regions are listed
as they close, so those of the bodies stand between the other two.
-/

set_option autoImplicit false

namespace CilSketch

open Trace (InLine Lined Nested)

namespace Page

/-- The region folds the body of a method away. It begins right behind the parameters and ends
behind the brace of the body, with the line of the brace. -/
structure FoldsBody (page : Page) (level : Nat) (method : MethodDecl) (fold : Fold) : Prop where
  behind_head : ∃ start, IsPart page.text start fold.start method.headSource
  covers : IsPart page.text fold.start fold.stop
    (")" ++ method.returnSource ++ " \x7b\n" ++ String.join (List.replicate level page.unit) ++
      "\x7d\n")

theorem FoldsBody.play {page : Page} {level : Nat} {method : MethodDecl} {fold : Fold}
    (folds : page.FoldsBody level method fold) (later : Trace) :
    (page.play later).FoldsBody level method fold := by
  obtain ⟨⟨start, head⟩, covers⟩ := folds
  obtain ⟨added, text⟩ := page.exists_text_play later
  refine ⟨⟨start, ?_⟩, ?_⟩
  · rw [text]
    exact head.append added
  · rw [text, unit_play]
    exact covers.append added

/-- A trace adds the regions of the bodies of some methods to a page, and no other. They stand apart
from each other, and from whatever comes before and behind the methods. -/
structure AddsBodies (page : Page) (trace : Trace) (methods : List MethodDecl)
    (bodies : List Fold) : Prop where
  folds_eq : (page.play trace).folds = page.folds ++ bodies
  foldsBody : List.Forall₂ ((page.play trace).FoldsBody page.level)
    (methods.filter MethodDecl.hasBody) bodies
  apart : bodies.Pairwise fun earlier later => earlier.stop < later.start
  within : ∀ body ∈ bodies, page.size < body.start ∧ body.stop < (page.play trace).size

namespace AddsBodies

variable {page : Page}

theorem nil (page : Page) : page.AddsBodies [] [] [] :=
  ⟨(List.append_nil _).symm, .nil, .nil, by simp⟩

theorem append {a b : Trace} {first others : List MethodDecl} {bodies moreBodies : List Fold}
    (added : page.AddsBodies a first bodies) (sameLevel : (page.play a).level = page.level)
    (more : (page.play a).AddsBodies b others moreBodies) :
    page.AddsBodies (a ++ b) (first ++ others) (bodies ++ moreBodies) where
  folds_eq := by rw [play_append, more.folds_eq, added.folds_eq, List.append_assoc]
  foldsBody := by
    rw [List.filter_append, play_append]
    apply List.rel_append
    · exact added.foldsBody.imp fun _ _ folds => folds.play b
    · rw [← sameLevel]
      exact more.foldsBody
  apart := by
    refine List.pairwise_append.mpr ⟨added.apart, more.apart, ?_⟩
    intro earlier member body found
    exact (added.within earlier member).2.trans (more.within body found).1
  within := by
    intro body member
    rw [play_append]
    rcases List.mem_append.mp member with found | found
    · obtain ⟨starts, stops⟩ := added.within body found
      exact ⟨starts, stops.trans_le (size_le_play _ b)⟩
    · obtain ⟨starts, stops⟩ := more.within body found
      exact ⟨(page.size_le_play a).trans_lt starts, stops⟩

section Block

variable {title inner : Trace} {methods : List MethodDecl} {bodies : List Fold} {fold : Fold}
  (folded : page.FoldsBlock title inner fold)
  (added : (page.insideBlock title).AddsBodies inner methods bodies)

include folded added

theorem folds_play_foldedBlock (unclosed : .foldEnd ∉ title) :
    (page.play (.foldedBlock title inner)).folds = page.folds ++ bodies ++ [fold] := by
  rw [folded.folds_eq, added.folds_eq, folds_insideBlock unclosed]

/-- What is inside a block is strictly inside its region. -/
theorem within_foldedBlock :
    ∀ body ∈ bodies, fold.start < body.start ∧ body.stop < fold.stop := by
  intro body member
  obtain ⟨starts, stops⟩ := added.within body member
  rw [folded.start_eq, folded.stop_eq, play_foldedBlock]
  exact ⟨(page.size_lt_insideBlock title).trans starts, stops.trans_le (size_le_play _ _)⟩

end Block

theorem foldsBody_foldedBlock {title inner : Trace} {methods : List MethodDecl}
    {bodies : List Fold} (added : (page.insideBlock title).AddsBodies inner methods bodies)
    (stay : title.InLine) :
    List.Forall₂ ((page.play (.foldedBlock title inner)).FoldsBody (page.level + 1))
      (methods.filter MethodDecl.hasBody) bodies := by
  rw [play_foldedBlock, ← level_insideBlock stay]
  exact added.foldsBody.imp fun _ _ folds => folds.play _

end AddsBodies

end Page

namespace MethodDecl

theorem startsLine_projectHead (decl : MethodDecl) :
    decl.projectHead.any Event.startsLine = true := by
  have visible : decl.projectHead.text ≠ "" := by
    simp [text_projectHead, headSource]
  exact Page.startsLine_of_text decl.inLine_projectHead visible

theorem text_play_projectHead (decl : MethodDecl) (page : Page) :
    (page.play decl.projectHead).text =
      page.text ++ (page.pendingIndentation ++ decl.headSource) := by
  rw [Page.text_play_words decl.inLine_projectHead, startsLine_projectHead, if_pos rfl,
    text_projectHead]

theorem size_lt_play_projectHead (decl : MethodDecl) (page : Page) :
    page.size < (page.play decl.projectHead).size := by
  have parenthesis : ("(" : String).utf8ByteSize = 1 := rfl
  simp only [Page.size, text_play_projectHead, headSource, String.utf8ByteSize_append, parenthesis]
  omega

theorem exists_foldsBlock_body (decl : MethodDecl) (page : Page) :
    ∃ body, (page.play decl.projectHead).FoldsBlock (decl.projectTail " \x7b") [] body := by
  apply Page.exists_foldsBlock (decl.inLine_projectTail _) (decl.nested_projectTail _) .nil .nil
  rw [Page.pendingIndentation_play_words decl.inLine_projectHead, startsLine_projectHead,
    if_pos rfl]

theorem blockText_body (decl : MethodDecl) (unit : String) (level : Nat) :
    Page.blockText unit level (decl.projectTail " \x7b").text [] =
      ")" ++ decl.returnSource ++ " \x7b\n" ++ String.join (List.replicate level unit) ++
        "\x7d\n" := by
  have opening : " \x7b\n" = " \x7b" ++ "\n" := rfl
  simp [Page.blockText, Page.shownAt, Page.blank, Page.atLevel, text_projectTail, opening,
    Page.indentation_eq_join, String.append_assoc]

theorem project_of_hasBody {decl : MethodDecl} (hasBody : decl.hasBody = true) :
    decl.project =
      decl.projectHead ++ .foldedBlock (decl.projectTail " \x7b") [] ++
        [.lineBreak, .lineBreak] := by
  simp [project, projectBody, hasBody]

theorem foldsBody_of_foldsBlock {decl : MethodDecl} {page : Page} {body : Fold}
    (hasBody : decl.hasBody = true)
    (folded : (page.play decl.projectHead).FoldsBlock (decl.projectTail " \x7b") [] body) :
    (page.play decl.project).FoldsBody page.level decl body := by
  have covers := folded.isPart [.lineBreak, .lineBreak]
  have level : (page.play decl.projectHead).level = page.level :=
    Page.level_play_words decl.inLine_projectHead
  rw [Page.unit_play, level, blockText_body] at covers
  refine ⟨⟨(page.text ++ page.pendingIndentation).utf8ByteSize, ?_⟩, ?_⟩
  · obtain ⟨added, text⟩ := (page.play decl.projectHead).exists_text_play decl.projectBody
    rw [← Page.play_append, text_play_projectHead, ← String.append_assoc] at text
    refine ⟨page.text ++ page.pendingIndentation, added, text, rfl, ?_⟩
    rw [folded.start_eq, Page.size, text_play_projectHead, String.append_assoc]
  · rw [Page.unit_play, project_of_hasBody hasBody, Page.play_append, Page.play_append]
    exact covers

/-- A body makes one region, and nothing else in a method makes any. -/
theorem exists_addsBodies (decl : MethodDecl) (page : Page) :
    ∃ bodies, page.AddsBodies decl.project [decl] bodies := by
  cases hasBody : decl.hasBody with
  | false =>
    have unclosed : .foldEnd ∉ decl.project := by
      rw [decl.foldEnd_mem_project_iff, hasBody]
      exact Bool.false_ne_true
    refine ⟨[], ?_, ?_, .nil, by simp⟩
    · rw [Page.folds_play_of_not_mem unclosed, List.append_nil]
    · simp [hasBody]
  | true =>
    obtain ⟨body, folded⟩ := decl.exists_foldsBlock_body page
    have foldsBody := foldsBody_of_foldsBlock hasBody folded
    have whole := project_of_hasBody hasBody
    refine ⟨[body], ?_, ?_, List.pairwise_singleton _ _, ?_⟩
    · rw [whole, Page.play_append, Page.play_append, Page.folds_play_of_not_mem (by simp),
        folded.folds_eq, Page.play_nil,
        Page.folds_insideBlock (decl.foldEnd_not_mem_projectTail _),
        Page.folds_play_of_not_mem decl.foldEnd_not_mem_projectHead]
    · simpa [hasBody] using foldsBody
    · intro fold member
      obtain rfl := List.mem_singleton.mp member
      refine ⟨?_, ?_⟩
      · rw [folded.start_eq]
        exact decl.size_lt_play_projectHead page
      · rw [folded.stop_eq, whole, Page.play_append, Page.play_append]
        exact Page.size_lt_play (by simp) _

theorem exists_addsBodies_flatMap (methods : List MethodDecl) (page : Page) :
    ∃ bodies, page.AddsBodies (methods.flatMap project) methods bodies := by
  induction methods generalizing page with
  | nil => exact ⟨[], .nil page⟩
  | cons method rest ih =>
    obtain ⟨bodies, added⟩ := method.exists_addsBodies page
    obtain ⟨moreBodies, more⟩ := ih (page.play method.project)
    have sameLevel := (method.nested_project.wellBracketed.sameOpen page).level
    exact ⟨bodies ++ moreBodies, added.append sameLevel more⟩

end MethodDecl

namespace TypeDecl

theorem foldEnd_not_mem_projectBases (bases : List TypeRef) : .foldEnd ∉ projectBases bases := by
  cases bases with
  | nil => simp [projectBases]
  | cons base rest =>
    refine List.not_mem_cons_of_ne_of_not_mem (by simp) (foldEnd_not_mem_separatedBy ?_)
    intro item found
    obtain ⟨ref, -, rfl⟩ := List.mem_map.mp found
    exact ref.foldEnd_not_mem_project

theorem foldEnd_not_mem_projectFieldsFront (decl : TypeDecl) :
    .foldEnd ∉ decl.projectFieldsFront := by
  have words := foldEnd_not_mem_keywords decl.keywords
  simp only [projectFieldsFront, projectHeader, List.mem_append, List.mem_cons, words,
    foldEnd_not_mem_projectBases, decl.foldEnd_not_mem_projectNamespace]
  simp [Event.referTo]

theorem foldEnd_not_mem_projectTitle (decl : TypeDecl) : .foldEnd ∉ decl.projectTitle := by
  simp [projectTitle, foldEnd_not_mem_keyword, Event.referTo]

theorem nested_projectFieldsFront (decl : TypeDecl) : Nested decl.projectFieldsFront :=
  (decl.nested_projectNamespace.append decl.nested_projectHeader).append (.text " " .nil)

end TypeDecl

/-- The regions of a type on a page: one for the fields, those of the bodies, and one for the
methods, which has those of the bodies inside and is the last thing on the page. -/
structure Page.FoldsBlocks (page : Page) (decl : TypeDecl) (options : Options)
    (fields methods : Fold) (bodies : List Fold) : Prop where
  folds_eq : page.folds = fields :: bodies ++ [methods]
  fields_covers : IsPart page.text fields.start fields.stop
    ("\x7b\n\n" ++ shownAt page.unit 1 (decl.projectFields options) ++ "\x7d\n")
  methods_covers : IsPart page.text methods.start methods.stop
    ("implement " ++ decl.name ++ " \x7b\n" ++ shownAt page.unit 1 decl.projectMethods ++ "\x7d\n")
  methods_stop : methods.stop = page.size
  fields_before : ∀ fold ∈ bodies ++ [methods], fields.stop < fold.start
  bodies_within : ∀ body ∈ bodies, methods.start < body.start ∧ body.stop < methods.stop

namespace TypeDecl

variable {decl : TypeDecl} {options : Options}

/-- The page that the region of the fields opens on. -/
def fieldsPage (decl : TypeDecl) (unit : String) : Page :=
  (Page.blank unit).play decl.projectFieldsFront

/-- The page that the region of the methods opens on. -/
def methodsPage (decl : TypeDecl) (options : Options) (unit : String) : Page :=
  ((decl.fieldsPage unit).play
    (.foldedBlock [.text "\x7b"] (.lineBreak :: decl.projectFields options))).play [.lineBreak]

theorem level_fieldsPage (decl : TypeDecl) (unit : String) : (decl.fieldsPage unit).level = 0 :=
  (decl.nested_projectFieldsFront.wellBracketed.sameOpen (.blank unit)).level

theorem unit_fieldsPage (decl : TypeDecl) (unit : String) : (decl.fieldsPage unit).unit = unit :=
  Page.unit_play _ _

theorem folds_fieldsPage (decl : TypeDecl) (unit : String) : (decl.fieldsPage unit).folds = [] :=
  Page.folds_play_of_not_mem decl.foldEnd_not_mem_projectFieldsFront (.blank unit)

theorem play_eq_methodsPage (isType : decl.isContainer options = false) (unit : String) :
    (Page.blank unit).play (decl.project options) =
      (decl.methodsPage options unit).play
        (.foldedBlock decl.projectTitle decl.projectMethods) := by
  rw [project_of_type isType, projectMethodsFront, Page.play_append, Page.play_append,
    Page.play_append]
  rfl

theorem exists_foldsBlock_fields (decl : TypeDecl) (options : Options) (unit : String) :
    ∃ fields, (decl.fieldsPage unit).FoldsBlock [.text "\x7b"]
      (.lineBreak :: decl.projectFields options) fields := by
  apply Page.exists_foldsBlock
  · exact .text _ .nil
  · exact .text _ .nil
  · exact .blank (decl.lined_projectFields options)
  · exact .lineBreak (decl.nested_projectFields options)
  · have started : decl.fieldsPage unit = _ := Page.play_append _ _ [.text " "]
    simp [started, Page.step, Page.startLine_eq, Page.append, Page.pendingIndentation]

theorem level_methodsPage (decl : TypeDecl) (options : Options) (unit : String) :
    (decl.methodsPage options unit).level = 0 := by
  obtain ⟨fields, folded⟩ := decl.exists_foldsBlock_fields options unit
  have ended : Nested [.lineBreak] := .lineBreak .nil
  rw [methodsPage, (ended.wellBracketed.sameOpen _).level, folded.sameOpen.level, level_fieldsPage]

theorem unit_methodsPage (decl : TypeDecl) (options : Options) (unit : String) :
    (decl.methodsPage options unit).unit = unit := by
  rw [methodsPage, Page.unit_play, Page.unit_play, unit_fieldsPage]

theorem folds_methodsPage {unit : String} {fields : Fold}
    (folded : (decl.fieldsPage unit).FoldsBlock [.text "\x7b"]
      (.lineBreak :: decl.projectFields options) fields) :
    (decl.methodsPage options unit).folds = [fields] := by
  have unclosed : .foldEnd ∉ Event.lineBreak :: decl.projectFields options := by
    simp [decl.foldEnd_not_mem_projectFields]
  rw [methodsPage, Page.folds_play_of_not_mem (by simp), folded.folds_eq,
    Page.folds_play_of_not_mem unclosed, Page.folds_insideBlock (by simp), folds_fieldsPage,
    List.nil_append]

theorem exists_foldsBlock_methods (decl : TypeDecl) (options : Options) (unit : String) :
    ∃ methods, (decl.methodsPage options unit).FoldsBlock decl.projectTitle
      decl.projectMethods methods := by
  apply Page.exists_foldsBlock
  · exact decl.inLine_projectTitle
  · exact decl.nested_projectTitle
  · exact decl.lined_projectMethods
  · exact decl.nested_projectMethods
  · have starts : (decl.methodsPage options unit).atLineStart = true := rfl
    simp [Page.pendingIndentation, starts, level_methodsPage, Page.indentation]

theorem blockText_fields (decl : TypeDecl) (options : Options) (unit : String) :
    Page.blockText unit 0 (Trace.text [.text "\x7b"]) (.lineBreak :: decl.projectFields options) =
      "\x7b\n\n" ++ Page.shownAt unit 1 (decl.projectFields options) ++ "\x7d\n" := by
  have opening : "\x7b\n\n" = "\x7b" ++ "\n" ++ "\n" := rfl
  have title : Trace.text [.text "\x7b"] = "\x7b" := rfl
  have lined := decl.lined_projectFields options
  rw [Page.blockText, Page.shownAt_lineBreak lined, title, opening, Page.indentation]
  simp only [String.append_assoc, String.empty_append]

theorem blockText_methods (decl : TypeDecl) (unit : String) :
    Page.blockText unit 0 decl.projectTitle.text decl.projectMethods =
      "implement " ++ decl.name ++ " \x7b\n" ++ Page.shownAt unit 1 decl.projectMethods ++
        "\x7d\n" := by
  have opening : " \x7b\n" = " \x7b" ++ "\n" := rfl
  rw [Page.blockText, text_projectTitle, opening, Page.indentation]
  simp only [String.append_assoc, String.empty_append]

theorem exists_foldsBlocks (isType : decl.isContainer options = false) (unit : String) :
    let page := (Page.blank unit).play (decl.project options)
    ∃ fields methods bodies, page.FoldsBlocks decl options fields methods bodies ∧
      List.Forall₂ (page.FoldsBody 1) (decl.methods.filter MethodDecl.hasBody) bodies ∧
      bodies.Pairwise fun earlier later => earlier.stop < later.start := by
  intro page
  have whole : page = _ := play_eq_methodsPage isType unit
  have unitEq : page.unit = unit := Page.unit_play _ _
  obtain ⟨fields, foldedFields⟩ := decl.exists_foldsBlock_fields options unit
  obtain ⟨methods, foldedMethods⟩ := decl.exists_foldsBlock_methods options unit
  obtain ⟨bodies, added⟩ := MethodDecl.exists_addsBodies_flatMap decl.methods
    ((decl.methodsPage options unit).insideBlock decl.projectTitle)
  have within := added.within_foldedBlock foldedMethods
  have apart : fields.stop < methods.start := by
    rw [foldedFields.stop_eq, foldedMethods.start_eq]
    exact Page.size_lt_play (by simp) _
  refine ⟨fields, methods, bodies, ⟨?_, ?_, ?_, ?_, ?_, ?_⟩, ?_, added.apart⟩
  · rw [whole, added.folds_play_foldedBlock foldedMethods decl.foldEnd_not_mem_projectTitle,
      folds_methodsPage foldedFields]
    rfl
  · have covers := foldedFields.isPart
      ([.lineBreak] ++ Trace.foldedBlock decl.projectTitle decl.projectMethods)
    rw [level_fieldsPage, unit_fieldsPage, blockText_fields, Page.play_append] at covers
    rw [unitEq, whole]
    exact covers
  · have covers := foldedMethods.isPart []
    rw [level_methodsPage, unit_methodsPage, blockText_methods, Page.play_nil, ← whole] at covers
    rw [unitEq]
    exact covers
  · rw [foldedMethods.stop_eq, whole]
  · intro fold member
    rcases List.mem_append.mp member with inBodies | isMethods
    · exact apart.trans (within fold inBodies).1
    · rwa [List.mem_singleton.mp isMethods]
  · exact within
  · have foldsBody := added.foldsBody_foldedBlock decl.inLine_projectTitle
    rw [level_methodsPage] at foldsBody
    rw [whole]
    exact foldsBody

theorem exists_foldsBodies (isContainer : decl.isContainer options = true) (unit : String) :
    let page := (Page.blank unit).play (decl.project options)
    ∃ bodies, page.folds = bodies ∧
      List.Forall₂ (page.FoldsBody 0) (decl.methods.filter MethodDecl.hasBody) bodies ∧
      bodies.Pairwise fun earlier later => earlier.stop < later.start := by
  intro page
  let before := (Page.blank unit).play (decl.projectNamespace ++ decl.projectFields options)
  have whole : page = before.play decl.projectMethods := by
    rw [← Page.play_append]
    simp [page, project, isContainer]
  have nested := decl.nested_projectNamespace.append (decl.nested_projectFields options)
  have level : before.level = 0 := (nested.wellBracketed.sameOpen (.blank unit)).level
  have folds : before.folds = [] := by
    apply Page.folds_play_of_not_mem
    simp [decl.foldEnd_not_mem_projectNamespace, decl.foldEnd_not_mem_projectFields]
  obtain ⟨bodies, added⟩ := MethodDecl.exists_addsBodies_flatMap decl.methods before
  refine ⟨bodies, ?_, ?_, added.apart⟩
  · rw [whole, ← List.nil_append bodies, ← folds]
    exact added.folds_eq
  · rw [whole, ← level]
    exact added.foldsBody

end TypeDecl

/-- The regions of a projected type are its blocks, in the order in which they close: that of the
fields, those of the bodies in the order of the methods, and that of all methods. A container of
free functions has those of the bodies only. -/
theorem folds_are_blocks (unit : String) (decl : TypeDecl) (options : Options) :
    let page := (Page.blank unit).play (decl.project options)
    ∃ bodies : List Fold,
      (bodies.Pairwise fun earlier later => earlier.stop < later.start) ∧
        if decl.isContainer options then
          page.folds = bodies ∧
            List.Forall₂ (page.FoldsBody 0) (decl.methods.filter MethodDecl.hasBody) bodies
        else
          List.Forall₂ (page.FoldsBody 1) (decl.methods.filter MethodDecl.hasBody) bodies ∧
            ∃ fields methods, page.FoldsBlocks decl options fields methods bodies := by
  intro page
  cases isContainer : decl.isContainer options with
  | false =>
    obtain ⟨fields, methods, bodies, blocks, foldsBody, apart⟩ :=
      TypeDecl.exists_foldsBlocks isContainer unit
    exact ⟨bodies, apart, foldsBody, fields, methods, blocks⟩
  | true =>
    obtain ⟨bodies, folds, foldsBody, apart⟩ := TypeDecl.exists_foldsBodies isContainer unit
    exact ⟨bodies, apart, folds, foldsBody⟩

end CilSketch
