/-
Associations: how objects of one type refer to objects of another, as accounts do to groups.
-/
import Reconciler.ItemName
import Reconciler.ObjectKind

namespace Reconciler

/-- Which side holds the reference. -/
inductive AssociationDirection where
  /-- The subject holds it, as in a list of groups. -/
  | subjectToObject
  /-- The object holds it, as in a list of members. -/
  | objectToSubject
deriving DecidableEq, Repr, Inhabited

namespace AssociationDirection

/-- The name of a direction. -/
def name : AssociationDirection → String
  | subjectToObject => "subjectToObject"
  | objectToSubject => "objectToSubject"

instance : Named AssociationDirection where
  all := [subjectToObject, objectToSubject]
  name := name
  ofName?_name a := by cases a <;> decide

instance : Codec AssociationDirection := Named.codec

end AssociationDirection

/-- A relation between the objects of a type and those of some other types. -/
structure Association where
  name : ItemName
  targetKind : ObjectKind
  targetIntents : List String
  direction : AssociationDirection
  /-- The attribute that carries the reference. -/
  associationAttribute : ItemName
  /-- The attribute on the other side whose value is referred to. -/
  valueAttribute : ItemName
deriving DecidableEq, Repr, Inhabited

instance : Codec Association where
  encode a := .record [
    ("name", encode a.name), ("targetKind", encode a.targetKind),
    ("targetIntents", encode a.targetIntents), ("direction", encode a.direction),
    ("associationAttribute", encode a.associationAttribute),
    ("valueAttribute", encode a.valueAttribute)]
  decode? j := do
    let row ← Row.of? ["name", "targetKind", "targetIntents", "direction", "associationAttribute",
      "valueAttribute"] j
    return {
      name := ← row.required "name"
      targetKind := ← row.required "targetKind"
      targetIntents := ← row.required "targetIntents"
      direction := ← row.required "direction"
      associationAttribute := ← row.required "associationAttribute"
      valueAttribute := ← row.required "valueAttribute" }

end Reconciler
