/-
Shadows: what the repository remembers about an object on a resource.

* `LifecycleState`: how far the creation or deletion of the object got;
* `CachingMetadata`: when a full copy of the object was taken;
* `Shadow`: names, attribute values and activation of one object.

Main statements:
* `Shadow.storedName_agrees`: an attribute is stored under a name that agrees with its own.

Design notes:
* Values of attributes are stored in the normal form of the attribute's matching rule.
* An attribute may be stored under a name that only agrees with the name of its definition;
  `Shadow.storedName` finds it.
-/
import Reconciler.Activation
import Reconciler.ObjectKind
import Reconciler.Protection.Pattern

namespace Reconciler

/-- How far the life of an object got. -/
inductive LifecycleState where
  /-- Planned only. -/
  | proposed
  /-- About to be created. -/
  | conceived
  /-- Being created, perhaps after a failed attempt. -/
  | gestating
  | live
  /-- Being deleted. -/
  | reaping
  /-- Deleted, but still remembered. -/
  | corpse
  /-- Known to be gone. -/
  | tombstone
deriving DecidableEq, Repr, Inhabited

namespace LifecycleState

/-- The name of a state. -/
def name : LifecycleState → String
  | proposed => "proposed"
  | conceived => "conceived"
  | gestating => "gestating"
  | live => "live"
  | reaping => "reaping"
  | corpse => "corpse"
  | tombstone => "tombstone"

instance : Named LifecycleState where
  all := [proposed, conceived, gestating, live, reaping, corpse, tombstone]
  name := name
  ofName?_name a := by cases a <;> decide

instance : Codec LifecycleState := Named.codec

/-- Whether the object is being created and not yet known to exist. -/
def isPreCreation : LifecycleState → Bool
  | conceived | gestating => true
  | _ => false

end LifecycleState

/-- When a full copy of an object was taken. -/
structure CachingMetadata where
  retrievedAt : Instant
deriving DecidableEq, Inhabited

instance : Codec CachingMetadata where
  encode m := .record [("retrievalTimestamp", encode m.retrievedAt)]
  decode? j := do
    let row ← Row.of? ["retrievalTimestamp"] j
    return { retrievedAt := ← row.required "retrievalTimestamp" }

/-- What is remembered about one object. -/
structure Shadow where
  oid : String
  resourceOid : String
  objectClass : ItemName
  kind : Option ObjectKind := none
  intent : Option String := none
  name : Option String := none
  attributes : AttributeValues := .empty
  auxiliaryClasses : SortedSet ItemName := .empty
  /-- Whether the object is known to exist on the resource. -/
  isPresent : Bool := true
  lifecycleState : LifecycleState := .live
  /-- Whether the object is in productive use, if that is known. -/
  production : Option Bool := none
  activation : Activation := {}
  cachingMetadata : Option CachingMetadata := none
deriving DecidableEq, Inhabited

namespace Shadow

instance : Codec Shadow where
  encode s := .record [
    ("oid", encode s.oid), ("resourceOid", encode s.resourceOid),
    ("objectClass", encode s.objectClass), ("kind", encode s.kind), ("intent", encode s.intent),
    ("name", encode s.name), ("attributes", encode s.attributes),
    ("auxiliaryObjectClasses", encode s.auxiliaryClasses), ("exists", encode s.isPresent),
    ("lifecycleState", encode s.lifecycleState), ("production", encode s.production),
    ("activation", encode s.activation), ("cachingMetadata", encode s.cachingMetadata)]
  decode? j := do
    let row ← Row.of? ["oid", "resourceOid", "objectClass", "kind", "intent", "name", "attributes",
      "auxiliaryObjectClasses", "exists", "lifecycleState", "production", "activation",
      "cachingMetadata"] j
    return {
      oid := ← row.required "oid"
      resourceOid := ← row.required "resourceOid"
      objectClass := ← row.required "objectClass"
      kind := ← row.optional "kind"
      intent := ← row.optional "intent"
      name := ← row.optional "name"
      attributes := ← row.defaulted "attributes" .empty
      auxiliaryClasses := ← row.defaulted "auxiliaryObjectClasses" .empty
      isPresent := ← row.defaulted "exists" false
      lifecycleState := ← row.required "lifecycleState"
      production := ← row.optional "production"
      activation := ← row.defaulted "activation" {}
      cachingMetadata := ← row.optional "cachingMetadata" }

/-- The stored values of an attribute: under exactly this name, or else under the first stored name
that agrees with it. -/
def valuesOf? (s : Shadow) (name : ItemName) : Option (List Json) :=
  (ItemName.find? Prod.fst s.attributes.entries name).map (·.2)

/-- The name under which an attribute is stored: this one if it is stored, or else the first stored
one that agrees with it, or else this one. -/
def storedName (s : Shadow) (name : ItemName) : ItemName :=
  (ItemName.find? id s.attributes.keys name).getD name

/-- The values stored under exactly this name; none if there are none. -/
def valuesAt (s : Shadow) (name : ItemName) : List Json := (s.attributes.get? name).getD []

theorem storedName_agrees (s : Shadow) (name : ItemName) :
    (s.storedName name).agrees name = true := by
  unfold storedName
  cases h : ItemName.find? id s.attributes.keys name with
  | none => exact ItemName.agrees_refl name
  | some found => exact (ItemName.mem_of_find? h).2

end Shadow

end Reconciler
