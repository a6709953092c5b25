/-
The definition of an object: its class or its type, and the auxiliary classes it also has.

* `ObjectDefinition`: a class or a type;
* `DefinitionView`: all attributes of a definition as seen at one layer;
* `CompositeDefinition`: a definition with auxiliary classes, whose attributes come second.

Main statements:
* `ObjectDefinition.viewAt_attributes`: a view shows the attributes of its definition in order;
* `CompositeDefinition.findAttribute?_of_structural`: the structural definition comes first;
* `DefinitionView.visible_perm`: the visible attributes are those not ignored.
-/
import Reconciler.ObjectType
import Reconciler.Json.Text

namespace Reconciler

/-- All attributes of a definition as seen at one layer. -/
structure DefinitionView where
  objectClass : ItemName
  typeId : Option TypeId
  layer : Layer
  attributes : List AttributeView
deriving DecidableEq

namespace DefinitionView

/-- The first attribute whose name agrees with this one. -/
def findAttribute? (v : DefinitionView) (name : ItemName) : Option AttributeView :=
  v.attributes.find? fun a => a.name.agrees name

/-- The place of an attribute among others: its display order, the greatest number without one. -/
def placeOf (a : AttributeView) : Int := (a.properties.displayOrder.getD Int32.maxValue).toInt

/-- Whether one attribute is shown no later than another: by place, then by name. -/
def notAfter (a b : AttributeView) : Bool :=
  ((compare (placeOf a) (placeOf b)).then (compare a.name b.name)).isLE

/-- The attributes that are not ignored, in the order of their display. -/
def visible (v : DefinitionView) : List AttributeView :=
  (v.attributes.filter fun a => !a.properties.ignored).mergeSort notAfter

theorem visible_perm (v : DefinitionView) :
    v.visible.Perm (v.attributes.filter fun a => !a.properties.ignored) :=
  List.mergeSort_perm ..

end DefinitionView

/-- A bare object class or an object type. -/
inductive ObjectDefinition where
  | ofClass (objectClass : ObjectClass)
  | ofType (objectType : ObjectType)
deriving DecidableEq, Inhabited

namespace ObjectDefinition

/-- The class, also of a type. -/
def objectClass : ObjectDefinition → ObjectClass
  | ofClass c => c
  | ofType t => t.objectClass

/-- The key of the type, if it is one. -/
def typeId : ObjectDefinition → Option TypeId
  | ofClass _ => none
  | ofType t => some t.id

/-- The attributes, refined if it is a type. -/
def attributes : ObjectDefinition → List AttributeDefinition
  | ofClass c => c.attributes
  | ofType t => t.attributes

/-- The attribute that a name stands for. -/
def findAttribute? : ObjectDefinition → ItemName → Option AttributeDefinition
  | ofClass c, name => c.findAttribute? name
  | ofType t, name => t.findAttribute? name

/-- The attribute whose value is displayed: that of the type, or else that of its class. -/
def displayNameAttribute : ObjectDefinition → Option ItemName
  | ofClass c => c.displayNameAttribute
  | ofType t => t.displayNameAttribute <|> t.objectClass.displayNameAttribute

/-- The caching policy of a type. -/
def caching : ObjectDefinition → Option CachingPolicy
  | ofClass _ => none
  | ofType t => t.caching

/-- The protected patterns of a type. -/
def protectedPatterns : ObjectDefinition → List ProtectedPattern
  | ofClass _ => []
  | ofType t => t.protectedPatterns

/-- The auxiliary classes that every object of a type has. -/
def auxiliaryClasses : ObjectDefinition → List ItemName
  | ofClass _ => []
  | ofType t => t.auxiliaryClasses

/-- The definition as seen at a layer. -/
def viewAt (d : ObjectDefinition) (layer : Layer) : DefinitionView where
  objectClass := d.objectClass.name
  typeId := d.typeId
  layer := layer
  attributes := d.attributes.map (·.viewAt layer)

@[simp] theorem viewAt_attributes (d : ObjectDefinition) (layer : Layer) :
    (d.viewAt layer).attributes = d.attributes.map (·.viewAt layer) := rfl

end ObjectDefinition

/-- A definition together with auxiliary classes. -/
structure CompositeDefinition where
  structural : ObjectDefinition
  auxiliary : List ObjectClass := []
deriving DecidableEq, Inhabited

namespace CompositeDefinition

/-- The attribute that a name stands for; structural attributes come before auxiliary ones. -/
def findAttribute? (d : CompositeDefinition) (name : ItemName) : Option AttributeDefinition :=
  d.structural.findAttribute? name <|> d.auxiliary.findSome? (·.findAttribute? name)

/-- Whether the name agrees with that of an identifier of the structural class. -/
def isIdentifier (d : CompositeDefinition) (name : ItemName) : Bool :=
  d.structural.objectClass.isIdentifier name

theorem findAttribute?_of_structural {d : CompositeDefinition} {name : ItemName}
    {a : AttributeDefinition} (h : d.structural.findAttribute? name = some a) :
    d.findAttribute? name = some a := by
  simp [findAttribute?, h]

/-- Reads a definition given by its class, its type if there is one, and auxiliary classes; whether
they fit together is not checked. -/
def ofJson? (j : Json) : Option CompositeDefinition := do
  let row ← Row.named? j
  let c ← ObjectClass.ofJson? (← row.cell? "class")
  let type : Option Json ← row.optional "type"
  let auxiliary : List Json ← row.orElse "auxiliary" []
  return {
    structural := ← match type with
      | some t => (ObjectType.ofJson? c t).map .ofType
      | none => some (.ofClass c)
    auxiliary := ← auxiliary.mapM ObjectClass.ofJson? }

/-- The attributes that may give an object its name, best first. -/
def namingCandidates (d : CompositeDefinition) : List ItemName :=
  let c := d.structural.objectClass
  d.structural.displayNameAttribute.toList ++ c.namingAttribute.toList ++
    c.secondaryIdentifiers.take 1 ++ c.primaryIdentifiers.take 1

/-- A value as a name: text as it is, other values as compact JSON. -/
def nameOfValue : Json → String
  | .str s => s
  | v => v.compact

/-- The name of an object with these attributes: the first value of the first candidate that has
one. -/
def deriveName? (d : CompositeDefinition) (attributes : AttributeValues) : Option String :=
  d.namingCandidates.findSome? fun candidate => do
    let found ← attributes.entries.find? fun e => e.1.agrees candidate
    return nameOfValue (← found.2.head?)

end CompositeDefinition

end Reconciler
