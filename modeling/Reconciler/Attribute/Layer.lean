/-
Layers at which an attribute can be viewed, and its properties at a layer.

* `Layer`: what the connector reports, what provisioning works with, what people see;
* `LayerProperties`: the resolved properties of an attribute at one layer;
* `LayerOverride`: changes to some of them.

Main statements:
* `LayerProperties.apply_mergedWith`: applying two overrides one after the other is applying the
  second merged over the first;
* `LayerOverride.mergedWith_assoc`, `mergedWith_self`, and `empty` is neutral.
-/
import Reconciler.Json.Codec

namespace Reconciler

/-- A layer at which definitions are viewed. -/
inductive Layer where
  /-- As reported by the connector. -/
  | raw
  /-- As used by provisioning. -/
  | model
  /-- As shown to people. -/
  | presentation
deriving DecidableEq, Repr, Inhabited

namespace Layer

/-- Position of a layer, from the connector to people. -/
def rank : Layer → Nat
  | raw => 0
  | model => 1
  | presentation => 2

/-- The name of a layer. -/
def name : Layer → String
  | raw => "raw"
  | model => "model"
  | presentation => "presentation"

instance : Ord Layer := ⟨compareOn rank⟩

instance : Std.TransOrd Layer := inferInstanceAs (Std.TransCmp (compareOn rank))

instance : Std.LawfulEqOrd Layer where
  compare_self {a} := by cases a <;> decide
  eq_of_compare {a b} := by cases a <;> cases b <;> decide

instance : Named Layer where
  all := [raw, model, presentation]
  name := name
  ofName?_name a := by cases a <;> decide

instance : Codec Layer := Named.codec
instance : TextKey Layer := Named.textKey

end Layer

/-- Resolved properties of an attribute at one layer. -/
structure LayerProperties where
  ignored : Bool
  canCreate : Bool
  canRead : Bool
  canUpdate : Bool
  displayName : Option String
  displayOrder : Option Int32
  hasOutboundMapping : Bool
deriving DecidableEq, Repr

namespace LayerProperties

/-- Everything is allowed and nothing is said about the display. -/
def default : LayerProperties where
  ignored := false
  canCreate := true
  canRead := true
  canUpdate := true
  displayName := none
  displayOrder := none
  hasOutboundMapping := false

instance : Inhabited LayerProperties := ⟨default⟩

instance : Codec LayerProperties where
  encode p := .record [
    ("ignored", encode p.ignored), ("canCreate", encode p.canCreate),
    ("canRead", encode p.canRead), ("canUpdate", encode p.canUpdate),
    ("displayName", encode p.displayName), ("displayOrder", encode p.displayOrder),
    ("hasOutboundMapping", encode p.hasOutboundMapping)]
  decode? j := do
    let row ← Row.of? ["ignored", "canCreate", "canRead", "canUpdate", "displayName",
      "displayOrder", "hasOutboundMapping"] j
    return {
      ignored := ← row.required "ignored"
      canCreate := ← row.required "canCreate"
      canRead := ← row.required "canRead"
      canUpdate := ← row.required "canUpdate"
      displayName := ← row.optional "displayName"
      displayOrder := ← row.optional "displayOrder"
      hasOutboundMapping := ← row.required "hasOutboundMapping" }

end LayerProperties

/-- Changes to some of the properties at a layer; what is not set is inherited. -/
structure LayerOverride where
  ignored : Option Bool := none
  canCreate : Option Bool := none
  canRead : Option Bool := none
  canUpdate : Option Bool := none
  displayName : Option String := none
  displayOrder : Option Int32 := none
  hasOutboundMapping : Option Bool := none
deriving DecidableEq, Repr

namespace LayerOverride

/-- The override that changes nothing. -/
def empty : LayerOverride := {}

instance : Inhabited LayerOverride := ⟨empty⟩

/-- One override on top of another: what `top` sets wins. -/
def mergedWith (base top : LayerOverride) : LayerOverride where
  ignored := top.ignored <|> base.ignored
  canCreate := top.canCreate <|> base.canCreate
  canRead := top.canRead <|> base.canRead
  canUpdate := top.canUpdate <|> base.canUpdate
  displayName := top.displayName <|> base.displayName
  displayOrder := top.displayOrder <|> base.displayOrder
  hasOutboundMapping := top.hasOutboundMapping <|> base.hasOutboundMapping

instance : Codec LayerOverride where
  encode o := .record [
    ("ignored", encode o.ignored), ("canCreate", encode o.canCreate),
    ("canRead", encode o.canRead), ("canUpdate", encode o.canUpdate),
    ("displayName", encode o.displayName), ("displayOrder", encode o.displayOrder),
    ("hasOutboundMapping", encode o.hasOutboundMapping)]
  decode? j := do
    let row ← Row.of? ["ignored", "canCreate", "canRead", "canUpdate", "displayName",
      "displayOrder", "hasOutboundMapping"] j
    return {
      ignored := ← row.defaulted "ignored" none
      canCreate := ← row.defaulted "canCreate" none
      canRead := ← row.defaulted "canRead" none
      canUpdate := ← row.defaulted "canUpdate" none
      displayName := ← row.defaulted "displayName" none
      displayOrder := ← row.defaulted "displayOrder" none
      hasOutboundMapping := ← row.defaulted "hasOutboundMapping" none }

@[simp] theorem mergedWith_empty (o : LayerOverride) : o.mergedWith empty = o := by
  simp [mergedWith, empty]

@[simp] theorem empty_mergedWith (o : LayerOverride) : empty.mergedWith o = o := by
  simp [mergedWith, empty]

@[simp] theorem mergedWith_self (o : LayerOverride) : o.mergedWith o = o := by
  simp [mergedWith]

theorem mergedWith_assoc (a b c : LayerOverride) :
    (a.mergedWith b).mergedWith c = a.mergedWith (b.mergedWith c) := by
  simp [mergedWith, Option.or_assoc]

end LayerOverride

namespace LayerProperties

/-- The properties with an override applied. -/
def apply (p : LayerProperties) (o : LayerOverride) : LayerProperties where
  ignored := o.ignored.getD p.ignored
  canCreate := o.canCreate.getD p.canCreate
  canRead := o.canRead.getD p.canRead
  canUpdate := o.canUpdate.getD p.canUpdate
  displayName := o.displayName <|> p.displayName
  displayOrder := o.displayOrder <|> p.displayOrder
  hasOutboundMapping := o.hasOutboundMapping.getD p.hasOutboundMapping

@[simp] theorem apply_empty (p : LayerProperties) : p.apply .empty = p := by
  simp [apply, LayerOverride.empty]

theorem apply_mergedWith (p : LayerProperties) (a b : LayerOverride) :
    p.apply (a.mergedWith b) = (p.apply a).apply b := by
  obtain ⟨b1, b2, b3, b4, b5, b6, b7⟩ := b
  simp only [apply, LayerOverride.mergedWith, mk.injEq]
  exact ⟨by cases b1 <;> rfl, by cases b2 <;> rfl, by cases b3 <;> rfl, by cases b4 <;> rfl,
    by cases b5 <;> rfl, by cases b6 <;> rfl, by cases b7 <;> rfl⟩

end LayerProperties

end Reconciler
