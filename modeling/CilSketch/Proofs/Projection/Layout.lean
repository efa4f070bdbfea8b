import CilSketch.Proofs.Page.Layout
import CilSketch.Proofs.Projection.Lines
import CilSketch.Proofs.Projection.Source

/-!
Projected source is laid out in lines. A field is one line, a method is one line and the block of
its body, and the blocks of a type hold the lines of its members. Each line with something on it has
a reserved word, a brace or a punctuation mark, so an empty name leaves no line to its indentation.
-/

set_option autoImplicit false

namespace CilSketch

open Trace (InLine Lined)

namespace Trace.InLine

variable {rest : Trace}

theorem text (shown : String) (inLine : InLine rest) : InLine (.text shown :: rest) :=
  .cons rfl inLine

theorem reference (entity : Entity) (shown : String) (isDefinition : Bool)
    (inLine : InLine rest) : InLine (.referTo entity shown isDefinition :: rest) :=
  .cons rfl inLine

theorem foldStart (inLine : InLine rest) : InLine (.foldStart :: rest) :=
  .cons rfl inLine

theorem separatedBy {items : List Trace} (separator : String)
    (inLine : ∀ item ∈ items, InLine item) : InLine (separatedBy separator items) := by
  intro event member
  rcases mem_separatedBy member with rfl | ⟨item, found, inItem⟩
  · rfl
  · exact inLine item found event inItem

end Trace.InLine

namespace Trace.Lined

variable {front title inner rest : Trace}

/-- The line that a block opens on, with the beginning of the region of the block. -/
theorem titled (inLineFront : InLine front) (inLineTitle : InLine title)
    (visible : title.text ≠ "") :
    Lined (front ++ .foldStart :: title ++ [.lineBreak]) := by
  have words : InLine (front ++ .foldStart :: title) := inLineFront.append (.foldStart inLineTitle)
  have shown : (front ++ .foldStart :: title).text ≠ "" := by
    simp [String.append_eq_empty_iff, visible]
  exact .line words shown .nil

/-- The brace behind a block, on a line of its own, and the end of the region of the block. -/
theorem braced (linedInner : Lined inner) (lined : Lined rest) :
    Lined (.indent :: inner ++ closeBlock ++ rest) := by
  have mark : InLine [.text "\x7d"] := .text _ .nil
  have visible : Trace.text [.text "\x7d"] ≠ "" := by simp [Event.written]
  have ended : Lined (.foldEnd :: rest) := .mark rfl rfl lined
  have closing := Lined.line mark visible ended
  simpa [closeBlock, brace] using Lined.block linedInner closing

/-- A block that opens behind some words is laid out in lines if it has a title. -/
theorem foldedBlock (inLineFront : InLine front) (inLineTitle : InLine title)
    (visible : title.text ≠ "") (linedInner : Lined inner) (lined : Lined rest) :
    Lined (front ++ .foldedBlock title inner ++ rest) := by
  have opening := Lined.titled inLineFront inLineTitle visible
  simpa [Trace.foldedBlock, openBlock] using opening.append (.braced linedInner lined)

end Trace.Lined

theorem inLine_keyword (word : String) : InLine (keyword word) := by
  simp [InLine, keyword, Event.staysInLine]

theorem inLine_keywords (words : List String) : InLine (words.flatMap keyword) :=
  .flatMap inLine_keyword

theorem TypeRef.inLine_project (ref : TypeRef) : InLine ref.project := by
  simp [InLine, project, Event.referTo, Event.staysInLine]

theorem Literal.inLine_project (literal : Literal) : InLine literal.project := by
  unfold project
  split <;> simp [InLine, Event.staysInLine]

namespace FieldDecl

theorem inLine_projectLine (decl : FieldDecl) (options : Options) :
    InLine (decl.projectLine options) := by
  have name : InLine [.referTo (.field decl) decl.name true, .text ": "] :=
    .reference _ _ _ (.text _ .nil)
  have constant : InLine (decl.projectConstant options) := by
    unfold projectConstant
    split
    · exact .text _ (Literal.inLine_project _)
    · exact .nil
  have ending : InLine [.text ";"] := .text _ .nil
  have typed := ((inLine_keywords decl.keywords).append name).append decl.type.inLine_project
  exact (typed.append constant).append ending

theorem lined_project (decl : FieldDecl) (options : Options) : Lined (decl.project options) := by
  have shown : (decl.projectLine options).text ≠ "" := by
    rw [projectLine, Trace.text_append]
    simp [Event.written]
  exact .line (decl.inLine_projectLine options) shown .nil

end FieldDecl

namespace MethodDecl

theorem inLine_projectHead (decl : MethodDecl) : InLine decl.projectHead := by
  have name : InLine decl.projectName := by
    unfold projectName
    split
    · exact .cons rfl (.reference _ _ _ (.cons rfl .nil))
    · exact .reference _ _ _ .nil
  have parameters : InLine decl.projectParameters := by
    apply InLine.separatedBy
    intro item member
    obtain ⟨parameter, _, rfl⟩ := List.mem_map.mp member
    exact .text _ (.text _ parameter.type.inLine_project)
  exact ((inLine_keywords decl.keywords).append name).append (.text "(" parameters)

theorem inLine_projectTail (decl : MethodDecl) (mark : String) :
    InLine (decl.projectTail mark) := by
  have returned : InLine decl.projectReturn := by
    unfold projectReturn
    split
    · exact .nil
    · exact .text _ decl.returnType.inLine_project
  exact .text _ (returned.append (.text _ .nil))

theorem projectTail_visible (decl : MethodDecl) (mark : String) :
    (decl.projectTail mark).text ≠ "" := by
  simp [text_projectTail]

theorem lined_project (decl : MethodDecl) : Lined decl.project := by
  unfold project projectBody
  split
  · have block := Lined.foldedBlock decl.inLine_projectHead (decl.inLine_projectTail " \x7b")
      (decl.projectTail_visible _) .nil (.blank (.blank .nil))
    simpa using block
  · have words := decl.inLine_projectHead.append (decl.inLine_projectTail ";")
    have shown : (decl.projectHead ++ decl.projectTail ";").text ≠ "" := by
      simp [String.append_eq_empty_iff, projectTail_visible]
    simpa using Lined.line words shown .nil

end MethodDecl

namespace TypeDecl

theorem lined_projectNamespace (decl : TypeDecl) : Lined decl.projectNamespace := by
  unfold projectNamespace
  split
  · exact .nil
  · have words := (inLine_keyword "module").append
      (.text decl.namespaceName (.text ";" .nil))
    have lines := Lined.line words (by simp [text_keyword]) (.blank .nil)
    simpa using lines

theorem lined_projectFields (decl : TypeDecl) (options : Options) :
    Lined (decl.projectFields options) :=
  .flatMap fun field => field.lined_project options

theorem lined_projectMethods (decl : TypeDecl) : Lined decl.projectMethods :=
  .flatMap MethodDecl.lined_project

theorem inLine_projectHeader (decl : TypeDecl) : InLine decl.projectHeader := by
  have bases : InLine (projectBases decl.visibleBases) := by
    cases decl.visibleBases with
    | nil => exact .nil
    | cons base rest =>
      apply InLine.text
      apply InLine.separatedBy
      intro item member
      obtain ⟨ref, _, rfl⟩ := List.mem_map.mp member
      exact ref.inLine_project
  exact (inLine_keywords decl.keywords).append (.reference _ _ _ bases)

theorem inLine_projectTitle (decl : TypeDecl) : InLine decl.projectTitle :=
  (inLine_keyword "implement").append (.reference _ _ _ (.text _ .nil))

theorem projectTitle_visible (decl : TypeDecl) : decl.projectTitle.text ≠ "" := by
  simp [text_projectTitle]

/-- What comes before the block of the fields. -/
def projectFieldsFront (decl : TypeDecl) : Trace :=
  decl.projectNamespace ++ decl.projectHeader ++ [.text " "]

/-- What comes before the block of the methods. -/
def projectMethodsFront (decl : TypeDecl) (options : Options) : Trace :=
  decl.projectFieldsFront ++
    .foldedBlock [.text "\x7b"] (.lineBreak :: decl.projectFields options) ++ [.lineBreak]

theorem project_of_type {decl : TypeDecl} {options : Options}
    (isType : decl.isContainer options = false) :
    decl.project options =
      decl.projectMethodsFront options ++ .foldedBlock decl.projectTitle decl.projectMethods := by
  simp [project, isType, projectBlocks, projectMethodsFront, projectFieldsFront]

theorem inLine_projectHeader_blank (decl : TypeDecl) :
    InLine (decl.projectHeader ++ [.text " "]) :=
  decl.inLine_projectHeader.append (.text " " .nil)

/-- The title of the block of the fields is a brace behind the header. -/
theorem inLine_brace : InLine [.text "\x7b"] :=
  .text _ .nil

theorem brace_visible : Trace.text [.text "\x7b"] ≠ "" := by
  simp [Event.written]

theorem lined_projectFieldsTitle (decl : TypeDecl) :
    Lined (decl.projectFieldsFront ++ .foldStart :: [.text "\x7b"] ++ [.lineBreak]) := by
  have line := Lined.titled decl.inLine_projectHeader_blank inLine_brace brace_visible
  simpa [projectFieldsFront] using decl.lined_projectNamespace.append line

theorem lined_projectMethodsFront (decl : TypeDecl) (options : Options) :
    Lined (decl.projectMethodsFront options) := by
  have fields := Lined.blank (decl.lined_projectFields options)
  have block := Lined.foldedBlock decl.inLine_projectHeader_blank inLine_brace brace_visible
    fields (.blank .nil)
  simpa [projectMethodsFront, projectFieldsFront] using decl.lined_projectNamespace.append block

theorem lined_projectMethodsTitle (decl : TypeDecl) (options : Options) :
    Lined (decl.projectMethodsFront options ++ .foldStart :: decl.projectTitle ++
      [.lineBreak]) := by
  have line := Lined.titled .nil decl.inLine_projectTitle decl.projectTitle_visible
  simpa using (decl.lined_projectMethodsFront options).append line

theorem lined_project (decl : TypeDecl) (options : Options) : Lined (decl.project options) := by
  cases isContainer : decl.isContainer options with
  | false =>
    have methods := Lined.foldedBlock .nil decl.inLine_projectTitle decl.projectTitle_visible
      decl.lined_projectMethods .nil
    rw [project_of_type isContainer]
    simpa using (decl.lined_projectMethodsFront options).append methods
  | true =>
    rw [project, isContainer, if_pos rfl]
    exact decl.lined_projectNamespace.append
      ((decl.lined_projectFields options).append decl.lined_projectMethods)

end TypeDecl

/-- Where a trace stands in another one, it adds to the page what it adds to a blank page, with the
indentation of one level more than the page has. -/
structure Page.ShowsDeeper (page : Page) (front part : Trace) : Prop where
  alone : ((blank page.unit).play part).text =
    "\n".intercalate ((blank page.unit).addedLines part)
  within : (page.play (front ++ part)).text =
    (page.play front).text ++ "\n".intercalate
      (((blank page.unit).addedLines part).map (indentLine page.unit (page.level + 1)))

theorem Trace.Lined.showsDeeper {outer before part : Trace} (linedOuter : Lined outer)
    (linedBefore : Lined before) (lined : Lined part) {page : Page}
    (starts : page.atLineStart = true) :
    page.ShowsDeeper (outer ++ .indent :: before) part := by
  have outside := linedOuter.indentsUniformly starts
  have inside : ((page.play outer).step .indent).IndentsUniformly before :=
    linedBefore.indentsUniformly outside.atLineStart
  have host : page.play (outer ++ .indent :: before) =
      ((page.play outer).step .indent).play before := by
    rw [Page.play_append, Page.play_cons]
  have unit : (page.play (outer ++ .indent :: before)).unit = page.unit := page.unit_play _
  have level : (page.play (outer ++ .indent :: before)).level = page.level + 1 := by
    rw [host, inside.level_eq, Page.level_step, outside.level_eq]
    rfl
  have hostStarts : (page.play (outer ++ .indent :: before)).atLineStart = true := by
    rw [host]
    exact inside.atLineStart
  have lines := lined.addedLines_eq_map hostStarts (.blank page.unit) rfl unit.symm rfl
  rw [unit, level] at lines
  refine ⟨?_, ?_⟩
  · rw [Page.text_play_eq_addedLines]
    exact String.empty_append
  · rw [Page.play_append, Page.text_play_eq_addedLines, lines]

/-- Types, fields and methods are indented line by line. At the start of a line of any page, they
add what they add on level zero with the indentation of the page before each line that is not empty,
and they leave the page at the start of a line on the same level. In the block of a type, a member
is what it is by itself, one level deeper. -/
theorem projection_indents_uniformly (page : Page) (starts : page.atLineStart = true)
    (options : Options) :
    (∀ decl : TypeDecl, page.IndentsUniformly (decl.project options)) ∧
      (∀ decl : FieldDecl, page.IndentsUniformly (decl.project options)) ∧
      (∀ decl : MethodDecl, page.IndentsUniformly decl.project) ∧
      ∀ decl : TypeDecl, decl.isContainer options = false →
        (∀ earlier field later, decl.fields = earlier ++ field :: later →
          ∃ opening : Trace,
            let front := opening ++ earlier.flatMap fun field => field.project options
            front ++ field.project options <+: decl.project options ∧
              page.ShowsDeeper front (field.project options)) ∧
        ∀ earlier method later, decl.methods = earlier ++ method :: later →
          ∃ opening : Trace,
            let front := opening ++ earlier.flatMap MethodDecl.project
            front ++ method.project <+: decl.project options ∧
              page.ShowsDeeper front method.project := by
  refine ⟨?_, ?_, ?_, ?_⟩
  · intro decl
    exact (decl.lined_project options).indentsUniformly starts
  · intro decl
    exact (decl.lined_project options).indentsUniformly starts
  · intro decl
    exact decl.lined_project.indentsUniformly starts
  · intro decl isType
    have whole := TypeDecl.project_of_type isType
    constructor
    · intro earlier field later split
      have before : Lined (earlier.flatMap fun field => field.project options) :=
        .flatMap fun field => field.lined_project options
      refine ⟨decl.projectFieldsFront ++ .openBlock [.text "\x7b"] ++ [.lineBreak], ?_, ?_⟩
      · simp [whole, TypeDecl.projectMethodsFront, Trace.foldedBlock, TypeDecl.projectFields, split]
      · have deeper := decl.lined_projectFieldsTitle.showsDeeper (.blank before)
          (field.lined_project options) starts
        simpa [Trace.openBlock] using deeper
    · intro earlier method later split
      have before : Lined (earlier.flatMap MethodDecl.project) := .flatMap MethodDecl.lined_project
      refine ⟨decl.projectMethodsFront options ++ .openBlock decl.projectTitle, ?_, ?_⟩
      · simp [whole, Trace.foldedBlock, TypeDecl.projectMethods, split]
      · have deeper := (decl.lined_projectMethodsTitle options).showsDeeper before
          method.lined_project starts
        simpa [Trace.openBlock] using deeper

/-- A method with a body in which every name is empty. -/
def MethodDecl.emptyNames : MethodDecl where
  name := ""
  returnType := ⟨"", ""⟩
  body := some (.ofCode [])

/-- A type in which every name is empty. -/
def TypeDecl.emptyNames : TypeDecl where
  name := ""
  fields := [{ name := "", type := ⟨"", ""⟩ }]
  methods := [.emptyNames]

/-- Where every name is empty, each line of a member still has its words. -/
theorem emptyNames_indented :
    let page : Page := { unit := "  ", level := 1 }
    page.atLineStart = true ∧
      (page.play (TypeDecl.emptyNames.project {})).text =
        "  class  \x7b\n\n    let mut : ;\n  \x7d\n\n  implement  \x7b\n" ++
          "    func () ->  \x7b\n    \x7d\n\n\n  \x7d\n" ∧
      ∃ front : Trace,
        front ++ MethodDecl.emptyNames.project <+: TypeDecl.emptyNames.project {} ∧
          page.ShowsDeeper front MethodDecl.emptyNames.project := by
  intro page
  obtain ⟨types, -, -, members⟩ := projection_indents_uniformly page rfl {}
  obtain ⟨opening, inType, deeper⟩ := (members TypeDecl.emptyNames (by decide)).2 [] _ [] rfl
  exact ⟨rfl, (types TypeDecl.emptyNames).text_eq.trans (by decide +kernel), _, inType, deeper⟩

end CilSketch
