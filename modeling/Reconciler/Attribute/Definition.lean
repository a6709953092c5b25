/-
Attribute definitions and what they look like at a layer.

A definition holds what the connector reported, the properties of the raw layer, and overrides for
other layers.  The raw layer shows the reported properties; the model layer applies the model
override to them; the presentation layer applies the presentation override to the model layer.

Main statements:
* `AttributeDefinition.propertiesAt`: the resolved properties;
* `AttributeDefinition.viewAt_name`, `viewAt_valueType`: what a view keeps of its definition.

Design notes:
* `maxOccurs = none` means that there is no bound.
-/
import Reconciler.Attribute.Layer
import Reconciler.Attribute.ValueType
import Reconciler.ItemName

namespace Reconciler

/-- The definition of one attribute of resource objects. -/
structure AttributeDefinition where
  name : ItemName
  valueType : ValueType
  minOccurs : UInt32
  maxOccurs : Option UInt32
  matchingRule : Option String
  /-- Kept only in the index of the repository, never as full values. -/
  indexOnly : Bool
  /-- Explicit choice for or against keeping values in shadows. -/
  cached : Option Bool
  /-- The properties that the connector reported. -/
  native : LayerProperties
  overrides : SortedMap Layer LayerOverride
deriving DecidableEq

/-- An attribute definition resolved for one layer. -/
structure AttributeView where
  name : ItemName
  layer : Layer
  valueType : ValueType
  minOccurs : UInt32
  maxOccurs : Option UInt32
  matchingRule : Option String
  indexOnly : Bool
  properties : LayerProperties
deriving DecidableEq

namespace AttributeDefinition

/-- An optional attribute with at most one text value and the default properties. -/
def new (name : ItemName) : AttributeDefinition where
  name := name
  valueType := .string
  minOccurs := 0
  maxOccurs := some 1
  matchingRule := none
  indexOnly := false
  cached := none
  native := .default
  overrides := .empty

instance : Inhabited AttributeDefinition := ⟨new default⟩

/-- Whether the attribute holds at most one value. -/
def isSingleValued (a : AttributeDefinition) : Bool := a.maxOccurs == some 1

/-- The override declared for a layer, the empty one if there is none. -/
def overrideAt (a : AttributeDefinition) (layer : Layer) : LayerOverride :=
  (a.overrides.get? layer).getD .empty

/-- The properties at a layer. -/
def propertiesAt (a : AttributeDefinition) : Layer → LayerProperties
  | .raw => a.native
  | .model => a.native.apply (a.overrideAt .model)
  | .presentation => (a.native.apply (a.overrideAt .model)).apply (a.overrideAt .presentation)

/-- The definition as seen at a layer. -/
def viewAt (a : AttributeDefinition) (layer : Layer) : AttributeView where
  name := a.name
  layer := layer
  valueType := a.valueType
  minOccurs := a.minOccurs
  maxOccurs := a.maxOccurs
  matchingRule := a.matchingRule
  indexOnly := a.indexOnly
  properties := a.propertiesAt layer

@[simp] theorem viewAt_name (a : AttributeDefinition) (layer : Layer) :
    (a.viewAt layer).name = a.name := rfl

@[simp] theorem viewAt_valueType (a : AttributeDefinition) (layer : Layer) :
    (a.viewAt layer).valueType = a.valueType := rfl

instance : Codec AttributeDefinition where
  encode a := .record [
    ("name", encode a.name), ("valueType", encode a.valueType),
    ("minOccurs", encode a.minOccurs), ("maxOccurs", encode a.maxOccurs),
    ("matchingRule", encode a.matchingRule), ("indexOnly", encode a.indexOnly),
    ("cached", encode a.cached), ("native", encode a.native), ("overrides", encode a.overrides)]
  decode? j := do
    let row ← Row.of? ["name", "valueType", "minOccurs", "maxOccurs", "matchingRule", "indexOnly",
      "cached", "native", "overrides"] j
    return {
      name := ← row.required "name"
      valueType := ← row.required "valueType"
      minOccurs := ← row.required "minOccurs"
      maxOccurs := ← row.optional "maxOccurs"
      matchingRule := ← row.optional "matchingRule"
      indexOnly := ← row.required "indexOnly"
      cached := ← row.optional "cached"
      native := ← row.required "native"
      overrides := ← row.defaulted "overrides" .empty }

end AttributeDefinition

namespace AttributeView

/-- A view with all of its fields, for inspection. -/
def toJson (v : AttributeView) : Json :=
  .record [
    ("name", encode v.name), ("layer", encode v.layer), ("valueType", encode v.valueType),
    ("minOccurs", encode v.minOccurs), ("maxOccurs", encode v.maxOccurs),
    ("matchingRule", encode v.matchingRule), ("indexOnly", encode v.indexOnly),
    ("ignored", encode v.properties.ignored), ("canCreate", encode v.properties.canCreate),
    ("canRead", encode v.properties.canRead), ("canUpdate", encode v.properties.canUpdate),
    ("displayName", encode v.properties.displayName),
    ("displayOrder", encode v.properties.displayOrder),
    ("hasOutboundMapping", encode v.properties.hasOutboundMapping)]

end AttributeView

end Reconciler
