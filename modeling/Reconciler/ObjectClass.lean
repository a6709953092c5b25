/-
Object classes with their attribute definitions.

* `ObjectClass.ofNative`: the class that a connector reports, as a definition;
* `ObjectClass.findAttribute?`, `isIdentifier`: look-ups by name.

Main statements:
* `ObjectClass.findAttribute?_isSome_iff`: an attribute is found when some name agrees.
-/
import Reconciler.Attribute.Definition
import Reconciler.Connector

namespace Reconciler

/-- An attribute that a connector reports, as a definition. -/
def AttributeDefinition.ofNative (n : NativeAttribute) : AttributeDefinition where
  name := n.name
  valueType := n.valueType
  minOccurs := n.minOccurs
  maxOccurs := n.maxOccurs
  matchingRule := n.matchingRule
  indexOnly := false
  cached := none
  native := { LayerProperties.default with
    canCreate := n.canCreate, canRead := n.canRead, canUpdate := n.canUpdate }
  overrides := .empty

/-- A class of resource objects. -/
structure ObjectClass where
  name : ItemName
  auxiliary : Bool := false
  attributes : List AttributeDefinition := []
  primaryIdentifiers : List ItemName := []
  secondaryIdentifiers : List ItemName := []
  displayNameAttribute : Option ItemName := none
  namingAttribute : Option ItemName := none
deriving DecidableEq, Inhabited

namespace ObjectClass

/-- The class that a connector reports, as a definition. -/
def ofNative (n : NativeClass) : ObjectClass where
  name := n.name
  auxiliary := n.auxiliary
  attributes := n.attributes.map AttributeDefinition.ofNative
  primaryIdentifiers := n.primaryIdentifiers
  secondaryIdentifiers := n.secondaryIdentifiers
  displayNameAttribute := n.displayNameAttribute
  namingAttribute := n.namingAttribute

/-- The attribute with exactly this name, or else the first whose name agrees with it. -/
def findAttribute? (c : ObjectClass) (name : ItemName) : Option AttributeDefinition :=
  ItemName.find? AttributeDefinition.name c.attributes name

/-- Whether the name agrees with that of a primary identifier. -/
def isPrimaryIdentifier (c : ObjectClass) (name : ItemName) : Bool :=
  c.primaryIdentifiers.any (·.agrees name)

/-- Whether the name agrees with that of an identifier. -/
def isIdentifier (c : ObjectClass) (name : ItemName) : Bool :=
  c.isPrimaryIdentifier name || c.secondaryIdentifiers.any (·.agrees name)

theorem findAttribute?_isSome_iff {c : ObjectClass} {name : ItemName} :
    (c.findAttribute? name).isSome ↔ ∃ a ∈ c.attributes, a.name.agrees name = true :=
  ItemName.find?_isSome_iff

/-- Reads a class; only its name must be there. -/
def ofJson? (j : Json) : Option ObjectClass := do
  let row ← Row.named? j
  return {
    name := ← row.required "name"
    auxiliary := ← row.orElse "auxiliary" false
    attributes := ← row.orElse "attributes" []
    primaryIdentifiers := ← row.orElse "primaryIdentifiers" []
    secondaryIdentifiers := ← row.orElse "secondaryIdentifiers" []
    displayNameAttribute := ← row.optional "displayNameAttribute"
    namingAttribute := ← row.optional "namingAttribute" }

/-- A class with all of its fields, for inspection. -/
def toJson (c : ObjectClass) : Json :=
  .record [
    ("name", encode c.name), ("auxiliary", encode c.auxiliary),
    ("attributes", encode c.attributes), ("primaryIdentifiers", encode c.primaryIdentifiers),
    ("secondaryIdentifiers", encode c.secondaryIdentifiers),
    ("displayNameAttribute", encode c.displayNameAttribute),
    ("namingAttribute", encode c.namingAttribute)]

end ObjectClass

end Reconciler
