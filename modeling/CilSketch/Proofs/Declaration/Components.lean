import CilSketch.Projection.Journal
import CilSketch.Projection.Type
import Mathlib.Data.List.Induction

/-!
Declarations component by component. Whatever the order of the edits, each component comes from the
edits to it alone: the last value that replaced it, all modifiers that were added to it, or all that
was appended to it in order. An edit for one access, one modifier or bare code says itself what its
component gets. So edits of different components may change places.
-/

set_option autoImplicit false

namespace CilSketch

/-- What an edit is about. -/
inductive Component where
  | namespaceName | kind | access | modifiers | bases | fields | methods | freeFunctions
  | readOnly | constant
  | parameters | returnType | body
  deriving DecidableEq, Repr

/-- Edits of different components may change places, and so may two that add modifiers. -/
def Component.Exchangeable (a b : Component) : Prop :=
  a ≠ b ∨ a = .modifiers ∧ b = .modifiers

instance (a b : Component) : Decidable (a.Exchangeable b) :=
  inferInstanceAs (Decidable (a ≠ b ∨ a = .modifiers ∧ b = .modifiers))

/-- Two steps that can change places wherever they start can do so within any run. -/
theorem foldl_exchange {State Step : Type} {step : State → Step → State} {a b : Step}
    (commute : ∀ state, step (step state a) b = step (step state b) a) (front back : List Step)
    (start : State) :
    (front ++ a :: b :: back).foldl step start = (front ++ b :: a :: back).foldl step start := by
  rw [List.foldl_append, List.foldl_cons, List.foldl_cons, commute, List.foldl_append,
    List.foldl_cons, List.foldl_cons]

/-- A run ends where a summary of its steps says, if the summary keeps up with each step. -/
theorem foldl_eq_summary {State Step : Type} {step : State → Step → State}
    (summary : List Step → State)
    (keepsUp : ∀ done next, summary (done ++ [next]) = step (summary done) next)
    (steps : List Step) : steps.foldl step (summary []) = summary steps := by
  induction steps using List.reverseRecOn with
  | nil => rfl
  | append_singleton done next ih =>
    rw [keepsUp, ← ih, List.foldl_append, List.foldl_cons, List.foldl_nil]

namespace TypeModifiers

/-- The modifiers that at least one of them has. -/
def unionAll (all : List TypeModifiers) : TypeModifiers where
  isSealed := all.any isSealed
  isStatic := all.any isStatic
  isAbstract := all.any isAbstract

theorem unionAll_concat (all : List TypeModifiers) (last : TypeModifiers) :
    unionAll (all ++ [last]) = (unionAll all).union last := by
  simp [unionAll, union]

theorem union_right_comm (a b c : TypeModifiers) : (a.union b).union c = (a.union c).union b := by
  simp [union, Bool.or_right_comm]

end TypeModifiers

namespace MethodModifiers

/-- The modifiers that at least one of them has. -/
def unionAll (all : List MethodModifiers) : MethodModifiers where
  isAbstract := all.any isAbstract
  isStatic := all.any isStatic
  isOverride := all.any isOverride
  isOperator := all.any isOperator

theorem unionAll_concat (all : List MethodModifiers) (last : MethodModifiers) :
    unionAll (all ++ [last]) = (unionAll all).union last := by
  simp [unionAll, union]

theorem union_right_comm (a b c : MethodModifiers) : (a.union b).union c = (a.union c).union b := by
  simp [union, Bool.or_right_comm]

end MethodModifiers

namespace TypeEdit

def component : TypeEdit → Component
  | .inNamespace _ => .namespaceName
  | .kind _ => .kind
  | .access _ | .makePublic | .makeInternal => .access
  | .modify _ | .makeSealed | .makeStatic | .makeAbstract => .modifiers
  | .base _ => .bases
  | .field _ => .fields
  | .method _ => .methods
  | .freeFunctions _ => .freeFunctions

def namespaceName? : TypeEdit → Option String
  | .inNamespace name => some name
  | _ => none

def kind? : TypeEdit → Option TypeKind
  | .kind given => some given
  | _ => none

def access? : TypeEdit → Option Accessibility
  | .access given => some given
  | .makePublic => some .everywhere
  | .makeInternal => some .withinAssembly
  | _ => none

def modifiers? : TypeEdit → Option TypeModifiers
  | .modify given => some given
  | .makeSealed => some { isSealed := true }
  | .makeStatic => some { isStatic := true }
  | .makeAbstract => some { isAbstract := true }
  | _ => none

def base? : TypeEdit → Option TypeRef
  | .base ref => some ref
  | _ => none

def field? : TypeEdit → Option FieldDecl
  | .field decl => some decl
  | _ => none

def method? : TypeEdit → Option MethodDecl
  | .method decl => some decl
  | _ => none

def freeFunctions? : TypeEdit → Option Bool
  | .freeFunctions flag => some flag
  | _ => none

end TypeEdit

namespace TypeDecl

/-- The type that edits of a new one describe, each component on its own. -/
def ofEdits (name : String) (edits : List TypeEdit) : TypeDecl where
  name
  namespaceName := (edits.filterMap TypeEdit.namespaceName?).getLastD ""
  kind := (edits.filterMap TypeEdit.kind?).getLastD .referenceType
  access := (edits.filterMap TypeEdit.access?).getLastD .unstated
  modifiers := .unionAll (edits.filterMap TypeEdit.modifiers?)
  bases := edits.filterMap TypeEdit.base?
  fields := edits.filterMap TypeEdit.field?
  methods := edits.filterMap TypeEdit.method?
  freeFunctions := (edits.filterMap TypeEdit.freeFunctions?).getLastD (name == "FreeFunctions")

theorem ofEdits_concat (name : String) (edits : List TypeEdit) (step : TypeEdit) :
    ofEdits name (edits ++ [step]) = (ofEdits name edits).edit step := by
  cases step <;>
    simp only [ofEdits, edit, withAccess, withModifiers, List.filterMap_append,
      List.filterMap_cons, List.filterMap_nil, List.append_nil, List.getLastD_concat,
      TypeModifiers.unionAll_concat,
      TypeEdit.namespaceName?, TypeEdit.kind?, TypeEdit.access?, TypeEdit.modifiers?,
      TypeEdit.base?, TypeEdit.field?, TypeEdit.method?, TypeEdit.freeFunctions?]

theorem editAll_named (name : String) (edits : List TypeEdit) :
    (named name).editAll edits = ofEdits name edits :=
  foldl_eq_summary (ofEdits name) (ofEdits_concat name) edits

theorem edit_comm (decl : TypeDecl) {a b : TypeEdit}
    (exchangeable : a.component.Exchangeable b.component) :
    (decl.edit a).edit b = (decl.edit b).edit a := by
  cases a <;> cases b <;>
    simp_all [Component.Exchangeable, TypeEdit.component, edit, withAccess, withModifiers,
      TypeModifiers.union_right_comm]

end TypeDecl

namespace FieldEdit

/-- A constant makes its field read-only too, so it does not matter which of the two comes first. -/
def component : FieldEdit → Component
  | .access _ | .makePublic | .makePrivate => .access
  | .readOnly => .readOnly
  | .constant _ => .constant

def access? : FieldEdit → Option Accessibility
  | .access given => some given
  | .makePublic => some .everywhere
  | .makePrivate => some .withinType
  | _ => none

def constant? : FieldEdit → Option Constant
  | .constant value => some value
  | _ => none

def isReadOnly : FieldEdit → Bool
  | .readOnly | .constant _ => true
  | _ => false

end FieldEdit

namespace FieldDecl

/-- The field that edits of a new one describe, each component on its own. -/
def ofEdits (name : String) (type : TypeRef) (edits : List FieldEdit) : FieldDecl where
  name
  type
  access := (edits.filterMap FieldEdit.access?).getLastD .unstated
  readOnly := edits.any FieldEdit.isReadOnly
  constant := (edits.filterMap FieldEdit.constant?).getLast?

theorem ofEdits_concat (name : String) (type : TypeRef) (edits : List FieldEdit)
    (step : FieldEdit) :
    ofEdits name type (edits ++ [step]) = (ofEdits name type edits).edit step := by
  cases step <;>
    simp only [ofEdits, edit, withAccess, List.filterMap_append, List.filterMap_cons,
      List.filterMap_nil, List.append_nil, List.getLastD_concat, List.getLast?_concat,
      List.any_append, List.any_cons,
      List.any_nil, Bool.or_false, Bool.or_true, FieldEdit.access?, FieldEdit.constant?,
      FieldEdit.isReadOnly]

theorem editAll_named (name : String) (type : TypeRef) (edits : List FieldEdit) :
    (named name type).editAll edits = ofEdits name type edits :=
  foldl_eq_summary (ofEdits name type) (ofEdits_concat name type) edits

theorem readOnly_ofEdits_iff {name : String} {type : TypeRef} {edits : List FieldEdit} :
    (ofEdits name type edits).readOnly = true ↔
      .readOnly ∈ edits ∨ ∃ value, .constant value ∈ edits := by
  rw [ofEdits, List.any_eq_true]
  constructor
  · rintro ⟨step, present, locks⟩
    cases step with
    | access | makePublic | makePrivate => cases locks
    | readOnly => exact .inl present
    | constant value => exact .inr ⟨value, present⟩
  · rintro (present | ⟨value, present⟩)
    · exact ⟨.readOnly, present, rfl⟩
    · exact ⟨.constant value, present, rfl⟩

theorem readOnly_of_constant {name : String} {type : TypeRef} {edits : List FieldEdit}
    (stored : (ofEdits name type edits).constant.isSome = true) :
    (ofEdits name type edits).readOnly = true := by
  obtain ⟨value, last⟩ := Option.isSome_iff_exists.mp stored
  obtain ⟨step, present, given⟩ := List.mem_filterMap.mp (List.mem_of_getLast? last)
  cases step with
  | access | makePublic | makePrivate | readOnly => cases given
  | constant other => exact readOnly_ofEdits_iff.mpr (.inr ⟨other, present⟩)

theorem edit_comm (decl : FieldDecl) {a b : FieldEdit}
    (exchangeable : a.component.Exchangeable b.component) :
    (decl.edit a).edit b = (decl.edit b).edit a := by
  cases a <;> cases b <;>
    simp_all [Component.Exchangeable, FieldEdit.component, edit, withAccess]

end FieldDecl

namespace MethodEdit

def component : MethodEdit → Component
  | .access _ | .makePublic | .makePrivate | .makeProtected => .access
  | .modify _ | .makeStatic | .makeAbstract | .makeOverride => .modifiers
  | .parameter _ _ => .parameters
  | .returns _ => .returnType
  | .body _ | .code _ => .body

def access? : MethodEdit → Option Accessibility
  | .access given => some given
  | .makePublic => some .everywhere
  | .makePrivate => some .withinType
  | .makeProtected => some .withinFamily
  | _ => none

def modifiers? : MethodEdit → Option MethodModifiers
  | .modify given => some given
  | .makeStatic => some { isStatic := true }
  | .makeAbstract => some { isAbstract := true }
  | .makeOverride => some { isOverride := true }
  | _ => none

def parameter? : MethodEdit → Option ParameterDecl
  | .parameter name type => some ⟨name, type⟩
  | _ => none

def returnType? : MethodEdit → Option TypeRef
  | .returns type => some type
  | _ => none

/-- Code alone makes a body with a tiny header, which leaves room for eight values. -/
def body? : MethodEdit → Option Body
  | .body given => some given
  | .code given => some ⟨given, 8, false, false, 0⟩
  | _ => none

end MethodEdit

namespace MethodDecl

/-- The method that edits of a new one describe, each component on its own. -/
def ofEdits (name : String) (isConstructor : Bool) (edits : List MethodEdit) : MethodDecl where
  name
  access := (edits.filterMap MethodEdit.access?).getLastD .unstated
  modifiers := .unionAll (edits.filterMap MethodEdit.modifiers?)
  isConstructor
  parameters := edits.filterMap MethodEdit.parameter?
  returnType := (edits.filterMap MethodEdit.returnType?).getLastD .void
  body := (edits.filterMap MethodEdit.body?).getLast?

theorem ofEdits_concat (name : String) (isConstructor : Bool) (edits : List MethodEdit)
    (step : MethodEdit) :
    ofEdits name isConstructor (edits ++ [step]) =
      (ofEdits name isConstructor edits).edit step := by
  cases step <;>
    simp only [ofEdits, edit, withAccess, withModifiers, withBody, Body.ofCode, Body.tinyMaxStack,
      List.filterMap_append, List.filterMap_cons, List.filterMap_nil, List.append_nil,
      List.getLastD_concat, List.getLast?_concat, MethodModifiers.unionAll_concat,
      MethodEdit.access?, MethodEdit.modifiers?, MethodEdit.parameter?, MethodEdit.returnType?,
      MethodEdit.body?]

theorem editAll_named (name : String) (edits : List MethodEdit) :
    (named name).editAll edits = ofEdits name false edits :=
  foldl_eq_summary (ofEdits name false) (ofEdits_concat name false) edits

theorem editAll_constructor (edits : List MethodEdit) :
    constructor.editAll edits = ofEdits ".ctor" true edits :=
  foldl_eq_summary (ofEdits ".ctor" true) (ofEdits_concat ".ctor" true) edits

theorem edit_comm (decl : MethodDecl) {a b : MethodEdit}
    (exchangeable : a.component.Exchangeable b.component) :
    (decl.edit a).edit b = (decl.edit b).edit a := by
  cases a <;> cases b <;>
    simp_all [Component.Exchangeable, MethodEdit.component, edit, withAccess, withModifiers,
      withBody, MethodModifiers.union_right_comm]

end MethodDecl

/-- Source and journal do not tell the two types apart. -/
def TypeDecl.ProjectsAlike (a b : TypeDecl) : Prop :=
  ∀ options : Options,
    a.project options = b.project options ∧ a.journal options = b.journal options

theorem TypeDecl.ProjectsAlike.of_eq {a b : TypeDecl} (same : a = b) : a.ProjectsAlike b := by
  subst same
  exact fun _ => ⟨rfl, rfl⟩

/-- Edits of a new type, field, method or constructor, of whatever kind and in whatever order, act
on each component on its own. A field is read-only exactly if an edit says so or gives it a
constant. Neighbours that are about different components, or that both add modifiers, may change
places without a trace in the declaration or in what is projected from it. -/
theorem edits_act_componentwise :
    (∀ (name : String) (edits : List TypeEdit),
      (TypeDecl.named name).editAll edits = TypeDecl.ofEdits name edits) ∧
    (∀ (name : String) (type : TypeRef) (edits : List FieldEdit),
      let field := (FieldDecl.named name type).editAll edits
      field = FieldDecl.ofEdits name type edits ∧
        (field.readOnly = true ↔ .readOnly ∈ edits ∨ ∃ value, .constant value ∈ edits) ∧
        (field.constant.isSome = true → field.readOnly = true)) ∧
    (∀ (name : String) (edits : List MethodEdit),
      (MethodDecl.named name).editAll edits = MethodDecl.ofEdits name false edits) ∧
    (∀ edits : List MethodEdit,
      MethodDecl.constructor.editAll edits = MethodDecl.ofEdits ".ctor" true edits) ∧
    (∀ (start : TypeDecl) (front back : List TypeEdit) (a b : TypeEdit),
      a.component.Exchangeable b.component →
        let one := start.editAll (front ++ a :: b :: back)
        let other := start.editAll (front ++ b :: a :: back)
        one = other ∧ one.ProjectsAlike other) ∧
    (∀ (start : FieldDecl) (front back : List FieldEdit) (a b : FieldEdit),
      a.component.Exchangeable b.component →
        let one := start.editAll (front ++ a :: b :: back)
        let other := start.editAll (front ++ b :: a :: back)
        one = other ∧
          ∀ owner : TypeDecl, (owner.edit (.field one)).ProjectsAlike (owner.edit (.field other))) ∧
    ∀ (start : MethodDecl) (front back : List MethodEdit) (a b : MethodEdit),
      a.component.Exchangeable b.component →
        let one := start.editAll (front ++ a :: b :: back)
        let other := start.editAll (front ++ b :: a :: back)
        one = other ∧
          ∀ owner : TypeDecl,
            (owner.edit (.method one)).ProjectsAlike (owner.edit (.method other)) := by
  refine ⟨TypeDecl.editAll_named, ?_, MethodDecl.editAll_named, MethodDecl.editAll_constructor,
    ?_, ?_, ?_⟩
  · intro name type edits field
    have described : field = FieldDecl.ofEdits name type edits :=
      FieldDecl.editAll_named name type edits
    rw [described]
    exact ⟨rfl, FieldDecl.readOnly_ofEdits_iff, FieldDecl.readOnly_of_constant⟩
  · intro start front back a b exchangeable one other
    have same : one = other :=
      foldl_exchange (fun decl => decl.edit_comm exchangeable) front back start
    exact ⟨same, .of_eq same⟩
  · intro start front back a b exchangeable one other
    have same : one = other :=
      foldl_exchange (fun decl => decl.edit_comm exchangeable) front back start
    exact ⟨same, fun owner => .of_eq (by rw [same])⟩
  · intro start front back a b exchangeable one other
    have same : one = other :=
      foldl_exchange (fun decl => decl.edit_comm exchangeable) front back start
    exact ⟨same, fun owner => .of_eq (by rw [same])⟩

/-- A type whose modifiers change places with each other and are all kept, a field that is read-only
before or after it has a constant, and a constructor that has a body before or after a parameter. -/
theorem exchanged_edits_agree :
    let sealedFirst : List TypeEdit :=
      [.inNamespace "Geometry", .makeSealed, .makeAbstract, .makePublic, .freeFunctions false]
    let abstractFirst : List TypeEdit :=
      [.inNamespace "Geometry", .makeAbstract, .makeSealed, .makePublic, .freeFunctions false]
    let limit := FieldDecl.named "Max" (.inNamespace "System" "Int32")
    let size : ParameterDecl := ⟨"size", .inNamespace "System" "Int32"⟩
    (TypeDecl.named "FreeFunctions").editAll sealedFirst =
        (TypeDecl.named "FreeFunctions").editAll abstractFirst ∧
      ((TypeDecl.named "FreeFunctions").editAll sealedFirst).modifiers =
        { isSealed := true, isAbstract := true } ∧
      limit.editAll [.makePrivate, .readOnly, .constant (.ofInt32 8)] =
        limit.editAll [.makePrivate, .constant (.ofInt32 8), .readOnly] ∧
      (limit.editAll [.constant (.ofInt32 8)]).readOnly = true ∧
      MethodDecl.constructor.editAll [.code [0x2A], .parameter size.name size.type] =
        MethodDecl.constructor.editAll [.parameter size.name size.type, .code [0x2A]] := by
  intro sealedFirst abstractFirst limit size
  obtain ⟨types, fields, -, -, ofTypes, ofFields, ofMethods⟩ := edits_act_componentwise
  have lone := fields "Max" (.inNamespace "System" "Int32") [.constant (.ofInt32 8)]
  refine ⟨?_, ?_, ?_, lone.2.2 rfl, ?_⟩
  · exact (ofTypes (.named "FreeFunctions") [.inNamespace "Geometry"]
      [.makePublic, .freeFunctions false] .makeSealed .makeAbstract (by decide)).1
  · rw [types]
    rfl
  · exact (ofFields limit [.makePrivate] [] .readOnly (.constant (.ofInt32 8)) (by decide)).1
  · exact (ofMethods .constructor [] [] (.code [0x2A]) (.parameter size.name size.type)
      (by decide)).1

end CilSketch
