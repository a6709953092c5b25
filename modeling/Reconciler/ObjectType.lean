/-
Object types: an object class as refined for one kind and intent.

* `ObjectType`: the class, its refined attributes, and what the type adds;
* `ObjectType.findAttribute?`: an attribute of the type, or else of its class.
-/
import Reconciler.ObjectClass
import Reconciler.ObjectType.Declaration

namespace Reconciler

/-- A refined object class, known by kind and intent. -/
structure ObjectType where
  id : TypeId
  displayName : Option String := none
  isDefault : Bool := false
  objectClass : ObjectClass
  /-- The attributes of the class with the refinements applied. -/
  attributes : List AttributeDefinition := []
  displayNameAttribute : Option ItemName := none
  associations : List Association := []
  protectedPatterns : List ProtectedPattern := []
  auxiliaryClasses : List ItemName := []
  caching : Option CachingPolicy := none
  /-- Capabilities for objects of the type, if they differ from those of the resource. -/
  capabilities : Option CapabilitySet := none
deriving DecidableEq, Inhabited

namespace ObjectType

/-- The attribute of the type, or else that of its class. -/
def findAttribute? (t : ObjectType) (name : ItemName) : Option AttributeDefinition :=
  ItemName.find? AttributeDefinition.name t.attributes name <|> t.objectClass.findAttribute? name

/-- The first association whose name agrees with this one. -/
def findAssociation? (t : ObjectType) (name : ItemName) : Option Association :=
  t.associations.find? fun a => a.name.agrees name

/-- Reads a type of a class; only its kind and its intent must be there. -/
def ofJson? (objectClass : ObjectClass) (j : Json) : Option ObjectType := do
  let row ← Row.named? j
  return {
    id := ⟨← row.required "kind", ← row.required "intent"⟩
    displayName := ← row.optional "displayName"
    isDefault := ← row.orElse "defaultForKind" false
    objectClass := objectClass
    attributes := ← row.orElse "attributes" []
    displayNameAttribute := ← row.optional "displayNameAttribute"
    associations := ← row.orElse "associations" []
    protectedPatterns := ← row.orElse "protected" []
    auxiliaryClasses := ← row.orElse "auxiliaryObjectClasses" []
    caching := ← row.optional "caching"
    capabilities := ← row.optional "capabilities" }

/-- A type with all of its fields, for inspection; its class by name. -/
def toJson (t : ObjectType) : Json :=
  .record [
    ("id", .str t.id.toText), ("displayName", encode t.displayName),
    ("defaultForKind", encode t.isDefault), ("objectClass", encode t.objectClass.name),
    ("attributes", encode t.attributes), ("displayNameAttribute", encode t.displayNameAttribute),
    ("associations", encode t.associations), ("protected", encode t.protectedPatterns),
    ("auxiliaryObjectClasses", encode t.auxiliaryClasses), ("caching", encode t.caching),
    ("capabilities", encode t.capabilities)]

end ObjectType

end Reconciler
