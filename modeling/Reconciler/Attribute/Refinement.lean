/-
Refinements of attributes by administrators.

A refinement changes some of an attribute's settings and limits its properties at the model and the
presentation layer.  The raw layer belongs to the connector and must not be limited.

* `AttributeRefinement.mergedWith`: one refinement overlaid on another;
* `AttributeRefinement.applyTo`: the attribute as refined.

Main statements:
* `AttributeRefinement.applyTo_isOk_iff`: exactly when a refinement can be applied;
* `AttributeRefinement.applyTo_name`, `applyTo_native`: what it never changes.

Design notes:
* A bound that is set to "unbounded" differs from one that is not set: `maxOccurs` is an optional
  bound, which is itself optional.
-/
import Reconciler.Attribute.Definition
import Reconciler.Error.Cause

namespace Reconciler

/-- Changes to one attribute within an object type; what is not set stays as it is. -/
structure AttributeRefinement where
  name : Option ItemName := none
  displayName : Option String := none
  displayOrder : Option Int32 := none
  matchingRule : Option String := none
  cached : Option Bool := none
  indexOnly : Option Bool := none
  minOccurs : Option UInt32 := none
  /-- `some none` lifts the bound. -/
  maxOccurs : Option (Option UInt32) := none
  /-- Whether a mapping feeds the attribute. -/
  outbound : Option Bool := none
  limitations : SortedMap Layer LayerOverride := .empty
deriving DecidableEq

namespace AttributeRefinement

instance : Inhabited AttributeRefinement := ⟨{}⟩

/-- Limitations overlaid layer by layer. -/
def mergeLimitations (base top : SortedMap Layer LayerOverride) : SortedMap Layer LayerOverride :=
  top.entries.foldl
    (fun acc e =>
      acc.insert e.1 <|
        match acc.get? e.1 with
        | some existing => existing.mergedWith e.2
        | none => e.2)
    base

/-- One refinement on top of another: what `top` sets wins. -/
def mergedWith (base top : AttributeRefinement) : AttributeRefinement where
  name := top.name <|> base.name
  displayName := top.displayName <|> base.displayName
  displayOrder := top.displayOrder <|> base.displayOrder
  matchingRule := top.matchingRule <|> base.matchingRule
  cached := top.cached <|> base.cached
  indexOnly := top.indexOnly <|> base.indexOnly
  minOccurs := top.minOccurs <|> base.minOccurs
  maxOccurs := top.maxOccurs <|> base.maxOccurs
  outbound := top.outbound <|> base.outbound
  limitations := mergeLimitations base.limitations top.limitations

/-- The settings of the attribute itself, after the refinement. -/
def settle (r : AttributeRefinement) (base : AttributeDefinition) : AttributeDefinition :=
  { base with
    matchingRule := r.matchingRule <|> base.matchingRule
    cached := r.cached <|> base.cached
    indexOnly := r.indexOnly.getD base.indexOnly
    minOccurs := r.minOccurs.getD base.minOccurs
    maxOccurs := r.maxOccurs.getD base.maxOccurs }

/-- What the refinement declares for the model layer: its own display settings, and its limitation
on top of them. -/
def modelOverride (r : AttributeRefinement) : LayerOverride :=
  let declared : LayerOverride :=
    { displayName := r.displayName
      displayOrder := r.displayOrder
      hasOutboundMapping := r.outbound }
  match r.limitations.get? .model with
  | some limitation => declared.mergedWith limitation
  | none => declared

/-- Overrides with one more at a layer, on top of what is there. -/
def overlayAt (overrides : SortedMap Layer LayerOverride) (layer : Layer) (o : LayerOverride) :
    SortedMap Layer LayerOverride :=
  overrides.insert layer <|
    match overrides.get? layer with
    | some existing => existing.mergedWith o
    | none => o

/-- The overrides of the attribute, after the refinement. -/
def refineOverrides (r : AttributeRefinement) (overrides : SortedMap Layer LayerOverride) :
    SortedMap Layer LayerOverride :=
  let refined := overlayAt overrides .model r.modelOverride
  match r.limitations.get? .presentation with
  | some limitation => overlayAt refined .presentation limitation
  | none => refined

/-- The greatest number of values, if the least one exceeds it. -/
def excess? (a : AttributeDefinition) : Option UInt32 :=
  a.maxOccurs.filter fun greatest => decide (greatest < a.minOccurs)

/-- The attribute as refined. -/
def applyTo (r : AttributeRefinement) (base : AttributeDefinition) :
    Except Misconfiguration AttributeDefinition :=
  if r.limitations.contains .raw then .error (.rawLimitation base.name)
  else
    let settled := r.settle base
    match excess? settled with
    | some greatest => .error (.occursInverted base.name settled.minOccurs greatest)
    | none => .ok { settled with overrides := r.refineOverrides base.overrides }

/-! ### Laws -/

theorem applyTo_eq_ok_iff {r : AttributeRefinement} {base refined : AttributeDefinition} :
    r.applyTo base = .ok refined ↔
      r.limitations.contains .raw = false ∧ excess? (r.settle base) = none ∧
        refined = { r.settle base with overrides := r.refineOverrides base.overrides } := by
  unfold applyTo
  cases r.limitations.contains .raw
  · simp only [Bool.false_eq_true, if_false, true_and]
    cases excess? (r.settle base) <;> simp [eq_comm]
  · simp

/-- A refinement can be applied unless it limits the raw layer or leaves fewer values allowed than
are needed. -/
theorem applyTo_isOk_iff {r : AttributeRefinement} {base : AttributeDefinition} :
    (∃ refined, r.applyTo base = .ok refined) ↔
      r.limitations.contains .raw = false ∧
        ∀ greatest, r.maxOccurs.getD base.maxOccurs = some greatest →
          r.minOccurs.getD base.minOccurs ≤ greatest := by
  simp only [applyTo_eq_ok_iff, excess?, Option.filter_eq_none_iff, decide_eq_true_eq,
    UInt32.not_lt]
  constructor
  · rintro ⟨_, h, h', -⟩
    exact ⟨h, h'⟩
  · rintro ⟨h, h'⟩
    exact ⟨_, h, h', rfl⟩

theorem applyTo_name {r : AttributeRefinement} {base refined : AttributeDefinition}
    (h : r.applyTo base = .ok refined) : refined.name = base.name := by
  rw [(applyTo_eq_ok_iff.1 h).2.2]; rfl

theorem applyTo_valueType {r : AttributeRefinement} {base refined : AttributeDefinition}
    (h : r.applyTo base = .ok refined) : refined.valueType = base.valueType := by
  rw [(applyTo_eq_ok_iff.1 h).2.2]; rfl

theorem applyTo_native {r : AttributeRefinement} {base refined : AttributeDefinition}
    (h : r.applyTo base = .ok refined) : refined.native = base.native := by
  rw [(applyTo_eq_ok_iff.1 h).2.2]; rfl

/-! ### Written form -/

/-- The word for a lifted bound. -/
def unboundedWord : String := "unbounded"

/-- A bound is a number, or the word for no bound. -/
def encodeBound : Option (Option UInt32) → Json
  | none => .null
  | some none => .str unboundedWord
  | some (some n) => encode n

/-- Reads what `encodeBound` writes. -/
def decodeBound? : Json → Option (Option (Option UInt32))
  | .null => some none
  | .str s => if s = unboundedWord then some (some none) else none
  | j => (decode? j).map fun n => some (some n)

instance : Codec AttributeRefinement where
  encode r := .record [
    ("name", encode r.name), ("displayName", encode r.displayName),
    ("displayOrder", encode r.displayOrder), ("matchingRule", encode r.matchingRule),
    ("cached", encode r.cached), ("indexOnly", encode r.indexOnly),
    ("minOccurs", encode r.minOccurs), ("maxOccurs", encodeBound r.maxOccurs),
    ("outbound", encode r.outbound), ("limitations", encode r.limitations)]
  decode? j := do
    let row ← Row.of? ["name", "displayName", "displayOrder", "matchingRule", "cached",
      "indexOnly", "minOccurs", "maxOccurs", "outbound", "limitations"] j
    return {
      name := ← row.defaulted "name" none
      displayName := ← row.defaulted "displayName" none
      displayOrder := ← row.defaulted "displayOrder" none
      matchingRule := ← row.defaulted "matchingRule" none
      cached := ← row.defaulted "cached" none
      indexOnly := ← row.defaulted "indexOnly" none
      minOccurs := ← row.defaulted "minOccurs" none
      maxOccurs := ← ((row.cell? "maxOccurs").elim (some none) decodeBound?)
      outbound := ← row.defaulted "outbound" none
      limitations := ← row.defaulted "limitations" .empty }

end AttributeRefinement

end Reconciler
