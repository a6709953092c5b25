/-
Object types as administrators declare them.

A declaration names an object class and refines some of its attributes.  Declarations are inherited
from templates: those of one kind and intent are merged, the child's settings winning.

* `TypeDeclaration.mergedWith`: one declaration on top of another;
* `TypeDeclaration.merge`: lists of declarations, paired by kind and intent.

Main statements:
* `TypeDeclaration.mergedWith_id`: a merged declaration has the kind and intent of the child's.

Design notes:
* Refinements are paired by name; a refinement without a name never pairs.
* Associations, protected patterns and auxiliary classes are replaced as a whole unless the child
  has none.
-/
import Reconciler.Association
import Reconciler.Attribute.Refinement
import Reconciler.Caching
import Reconciler.Capability
import Reconciler.KeyedMerge
import Reconciler.Protection.Pattern

namespace Reconciler

/-- A declared object type. -/
structure TypeDeclaration where
  kind : ObjectKind
  intent : String
  objectClass : Option ItemName := none
  defaultForKind : Option Bool := none
  displayName : Option String := none
  displayNameAttribute : Option ItemName := none
  attributes : List AttributeRefinement := []
  associations : List Association := []
  protectedPatterns : List ProtectedPattern := []
  auxiliaryClasses : List ItemName := []
  caching : Option CachingPolicy := none
  /-- Overrides of capabilities for objects of the type. -/
  capabilities : Settings := .empty
deriving DecidableEq, Inhabited

namespace TypeDeclaration

/-- Kind and intent. -/
def id (d : TypeDeclaration) : TypeId := ⟨d.kind, d.intent⟩

/-- Whether a refinement belongs to another one: both refine an attribute of the same name. -/
def refinesSame (existing incoming : AttributeRefinement) : Bool :=
  existing.name.isSome && existing.name == incoming.name

/-- The overlay, unless it is empty. -/
def orElse {α : Type} (base top : List α) : List α := if top.isEmpty then base else top

/-- One declaration on top of another of the same kind and intent. -/
def mergedWith (base top : TypeDeclaration) : TypeDeclaration where
  kind := top.kind
  intent := top.intent
  objectClass := top.objectClass <|> base.objectClass
  defaultForKind := top.defaultForKind <|> base.defaultForKind
  displayName := top.displayName <|> base.displayName
  displayNameAttribute := top.displayNameAttribute <|> base.displayNameAttribute
  attributes :=
    KeyedMerge.merge refinesSame AttributeRefinement.mergedWith base.attributes top.attributes
  associations := orElse base.associations top.associations
  protectedPatterns := orElse base.protectedPatterns top.protectedPatterns
  auxiliaryClasses := orElse base.auxiliaryClasses top.auxiliaryClasses
  caching := top.caching <|> base.caching
  capabilities := base.capabilities.overlay top.capabilities

/-- Whether two declarations have one kind and intent. -/
def sameId (existing incoming : TypeDeclaration) : Bool := existing.id == incoming.id

/-- Declarations on top of others, paired by kind and intent. -/
def merge (base top : List TypeDeclaration) : List TypeDeclaration :=
  KeyedMerge.merge sameId mergedWith base top

@[simp] theorem mergedWith_id (base top : TypeDeclaration) : (base.mergedWith top).id = top.id :=
  rfl

instance : Codec TypeDeclaration where
  encode d := .record [
    ("kind", encode d.kind), ("intent", encode d.intent), ("objectClass", encode d.objectClass),
    ("defaultForKind", encode d.defaultForKind), ("displayName", encode d.displayName),
    ("displayNameAttribute", encode d.displayNameAttribute),
    ("attributes", encode d.attributes), ("associations", encode d.associations),
    ("protected", encode d.protectedPatterns),
    ("auxiliaryObjectClasses", encode d.auxiliaryClasses), ("caching", encode d.caching),
    ("capabilities", encode d.capabilities)]
  decode? j := do
    let row ← Row.of? ["kind", "intent", "objectClass", "defaultForKind", "displayName",
      "displayNameAttribute", "attributes", "associations", "protected", "auxiliaryObjectClasses",
      "caching", "capabilities"] j
    return {
      kind := ← row.required "kind"
      intent := ← row.required "intent"
      objectClass := ← row.defaulted "objectClass" none
      defaultForKind := ← row.defaulted "defaultForKind" none
      displayName := ← row.defaulted "displayName" none
      displayNameAttribute := ← row.defaulted "displayNameAttribute" none
      attributes := ← row.defaulted "attributes" []
      associations := ← row.defaulted "associations" []
      protectedPatterns := ← row.defaulted "protected" []
      auxiliaryClasses := ← row.defaulted "auxiliaryObjectClasses" []
      caching := ← row.defaulted "caching" none
      capabilities := ← row.defaulted "capabilities" .empty }

end TypeDeclaration

end Reconciler
