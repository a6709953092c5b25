/-
Building a schema from what the connector reports and what is declared.

Declarations are taken in order.  One that repeats a kind and intent, or is a second default of its
kind, or does not fit the classes, is left out and reported; the others are still built.

* `Schema.resolve`: one declared type on top of the classes;
* `Schema.build`: all of them, with the errors.

Main statements:
* `Schema.build_classes`: the classes are those of the connector, whatever is declared.

Design notes:
* A declaration counts as seen, and as the default of its kind, even if it is then left out.
* Each attribute of the class takes the refinement that was computed for its name; of attributes
  that repeat a name only the first takes it.
-/
import Reconciler.Log
import Reconciler.Schema

namespace Reconciler.Schema

/-! ### One type -/

/-- The refined attributes by name: every refinement is applied to the attribute of the class that
its name stands for, and the last one for an attribute stays. -/
def refineAttributes (id : TypeId) (c : ObjectClass) (refinements : List AttributeRefinement) :
    Except Misconfiguration (SortedMap ItemName AttributeDefinition) :=
  refinements.foldlM
    (fun acc r =>
      match r.name with
      | none => .error (.refinementWithoutName id)
      | some name =>
        match c.findAttribute? name with
        | none => .error (.refinementWithoutAttribute id name c.name)
        | some base => do return acc.insert base.name (← r.applyTo base))
    .empty

/-- The attributes of a class with refined ones in place; each refined one is used once. -/
def placeRefined (refined : SortedMap ItemName AttributeDefinition) :
    List AttributeDefinition → List AttributeDefinition
  | [] => []
  | base :: rest =>
    (refined.get? base.name).getD base :: placeRefined (refined.erase base.name) rest

/-- Whether all auxiliary classes exist. -/
def checkAuxiliary (s : Schema) (id : TypeId) (names : List ItemName) :
    Except Misconfiguration Unit :=
  match names.find? fun name => (s.findClass? name).isNone with
  | some name => .error (.typeWithUnknownAuxiliary id name)
  | none => .ok ()

/-- The capabilities for objects of a type: those of the resource with overrides, if there are
any. -/
def typeCapabilities (resource : CapabilitySet) (overrides : Settings) :
    Except Misconfiguration (Option CapabilitySet) :=
  if overrides.isEmpty then .ok none
  else do return some (← CapabilitySet.withOverrides resource overrides)

/-- A declared type on top of the classes of the schema. -/
def resolve (s : Schema) (resource : CapabilitySet) (d : TypeDeclaration) :
    Except Misconfiguration ObjectType :=
  match d.objectClass with
  | none => .error (.typeWithoutClass d.id)
  | some className =>
    match s.findClass? className with
    | none => .error (.typeWithUnknownClass d.id className)
    | some c => do
      let refined ← refineAttributes d.id c d.attributes
      s.checkAuxiliary d.id d.auxiliaryClasses
      let capabilities ← typeCapabilities resource d.capabilities
      return {
        id := d.id
        displayName := d.displayName
        isDefault := d.defaultForKind.getD false
        objectClass := c
        attributes := placeRefined refined c.attributes
        displayNameAttribute := d.displayNameAttribute
        associations := d.associations
        protectedPatterns := d.protectedPatterns
        auxiliaryClasses := d.auxiliaryClasses
        caching := d.caching
        capabilities := capabilities }

/-! ### All types -/

/-- A schema as far as it could be built, and what could not. -/
structure Built where
  schema : Schema
  errors : List Misconfiguration := []
deriving DecidableEq

/-- A schema while declarations are taken up. -/
structure Draft extends Built where
  seen : List TypeId := []
  defaults : List TypeId := []

namespace Draft

/-- Reports an error. -/
def report (b : Draft) (e : Misconfiguration) : Draft := { b with errors := b.errors ++ [e] }

/-- The declared default of the same kind, if this declaration asks to be the default too. -/
def rival? (b : Draft) (d : TypeDeclaration) : Option TypeId :=
  if d.defaultForKind = some true then b.defaults.find? fun id => id.kind == d.kind else none

/-- Notes the declaration as seen and, if it asks for that, as the default of its kind. -/
def register (b : Draft) (d : TypeDeclaration) : Draft :=
  { b with
    seen := d.id :: b.seen
    defaults := if d.defaultForKind = some true then d.id :: b.defaults else b.defaults }

/-- Takes up one declaration. -/
def declare (resource : CapabilitySet) (b : Draft) (d : TypeDeclaration) : Draft :=
  if b.seen.contains d.id then b.report (.duplicateType d.id)
  else
    match b.rival? d with
    | some first => { b with seen := d.id :: b.seen }.report (.twoDefaults first d.id)
    | none =>
      -- Seen from now on, even if it cannot be built.
      let b := b.register d
      match b.schema.resolve resource d with
      | .ok t => { b with schema := { b.schema with types := b.schema.types ++ [t] } }
      | .error e => b.report e

@[simp] theorem declare_classes (resource : CapabilitySet) (b : Draft) (d : TypeDeclaration) :
    (b.declare resource d).schema.classes = b.schema.classes := by
  unfold declare
  split
  · rfl
  · split
    · rfl
    · simp only
      split <;> rfl

end Draft

/-- The schema of a resource with these native classes, declarations and capabilities. -/
def build (native : NativeSchema) (declarations : List TypeDeclaration) (resource : CapabilitySet) :
    Built :=
  (declarations.foldl (Draft.declare resource) { schema := ofNative native }).toBuilt

theorem build_classes (native : NativeSchema) (declarations : List TypeDeclaration)
    (resource : CapabilitySet) :
    (build native declarations resource).schema.classes = (ofNative native).classes := by
  have : ∀ (ds : List TypeDeclaration) (b : Draft),
      (ds.foldl (Draft.declare resource) b).schema.classes = b.schema.classes := by
    intro ds
    induction ds with
    | nil => intro b; rfl
    | cons d rest ih => intro b; rw [List.foldl_cons, ih, Draft.declare_classes]
  exact this declarations _

/-- What is remarked when a schema was built. -/
def Built.remark (b : Built) : LogRecord where
  level := .debug
  text := s!"Built resource schema: {b.schema.classes.length} object classes, " ++
    s!"{b.schema.types.length} object types, {b.errors.length} errors"

end Reconciler.Schema
