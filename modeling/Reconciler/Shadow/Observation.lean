/-
Objects as just observed on a resource.

* `ObservedAttribute`: the values that were retrieved, and whether there are more;
* `Observation`: attributes, auxiliary classes and activation of one object.
-/
import Reconciler.Activation
import Reconciler.Protection.Pattern

namespace Reconciler

/-- Values of one attribute as retrieved. -/
structure ObservedAttribute where
  values : List Json
  /-- Whether only a part of the values was retrieved. -/
  incomplete : Bool := false
deriving DecidableEq, Inhabited

instance : Codec ObservedAttribute where
  encode a := .record [("values", encode a.values), ("incomplete", encode a.incomplete)]
  decode? j := do
    let row ← Row.of? ["values", "incomplete"] j
    return { values := ← row.required "values", incomplete := ← row.defaulted "incomplete" false }

/-- An object as just observed. -/
structure Observation where
  objectClass : ItemName
  attributes : SortedMap ItemName ObservedAttribute := .empty
  auxiliaryClasses : SortedSet ItemName := .empty
  activation : Activation := {}
  /-- Whether the object is in productive use, if that is known. -/
  production : Option Bool := none
deriving DecidableEq, Inhabited

namespace Observation

instance : Codec Observation where
  encode o := .record [
    ("objectClass", encode o.objectClass), ("attributes", encode o.attributes),
    ("auxiliaryObjectClasses", encode o.auxiliaryClasses), ("activation", encode o.activation),
    ("production", encode o.production)]
  decode? j := do
    let row ← Row.of? ["objectClass", "attributes", "auxiliaryObjectClasses", "activation",
      "production"] j
    return {
      objectClass := ← row.required "objectClass"
      attributes := ← row.defaulted "attributes" .empty
      auxiliaryClasses := ← row.defaulted "auxiliaryObjectClasses" .empty
      activation := ← row.defaulted "activation" {}
      production := ← row.optional "production" }

/-- The retrieved values by name. -/
def values (o : Observation) : AttributeValues := o.attributes.map fun _ a => a.values

end Observation

end Reconciler
