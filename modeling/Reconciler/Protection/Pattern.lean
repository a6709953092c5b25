/-
Patterns that single out objects which must never be touched.

A pattern lists values that attributes must hold; an object is protected by a pattern when every
condition is met.  A pattern without conditions protects nothing.

* `ProtectedPattern.isMet`: conditions on values as they are;
* `isProtectedBy`: whether one of several patterns is met.

Main statements:
* `ProtectedPattern.isMet_iff`: what it takes to be protected.

Design notes:
* Values are compared as they are here; `Reconciler.Protection` compares them under matching rules.
-/
import Reconciler.ItemName

namespace Reconciler

/-- Values of attributes by name. -/
abbrev AttributeValues := SortedMap ItemName (List Json)

/-- The condition that an attribute holds a value. -/
structure AttributeCondition where
  item : ItemName
  value : Json
deriving DecidableEq, Inhabited

instance : Codec AttributeCondition where
  encode c := .record [("attribute", encode c.item), ("value", encode c.value)]
  decode? j := do
    let row ← Row.of? ["attribute", "value"] j
    return { item := ← row.required "attribute", value := ← row.required "value" }

/-- Conditions that must all be met. -/
structure ProtectedPattern where
  filter : List AttributeCondition := []
deriving DecidableEq, Inhabited

instance : Codec ProtectedPattern where
  encode p := .record [("filter", encode p.filter)]
  decode? j := do
    let row ← Row.of? ["filter"] j
    return { filter := ← row.defaulted "filter" [] }

namespace AttributeCondition

/-- Whether an attribute with an agreeing name has a value that passes a test. -/
def holdsUnder (c : AttributeCondition) (test : Json → Bool) (attributes : AttributeValues) :
    Bool :=
  attributes.entries.any fun e => e.1.agrees c.item && e.2.any test

/-- Whether an attribute with an agreeing name holds the value. -/
def holds (c : AttributeCondition) (attributes : AttributeValues) : Bool :=
  c.holdsUnder (·.same c.value) attributes

theorem holdsUnder_iff {c : AttributeCondition} {test : Json → Bool}
    {attributes : AttributeValues} :
    c.holdsUnder test attributes = true ↔
      ∃ e ∈ attributes.entries, e.1.agrees c.item = true ∧ ∃ v ∈ e.2, test v = true := by
  simp [holdsUnder]

end AttributeCondition

namespace ProtectedPattern

/-- Whether there are conditions and all of them hold. -/
def isMet (p : ProtectedPattern) (attributes : AttributeValues) : Bool :=
  !p.filter.isEmpty && p.filter.all (·.holds attributes)

theorem isMet_iff {p : ProtectedPattern} {attributes : AttributeValues} :
    p.isMet attributes = true ↔ p.filter ≠ [] ∧ ∀ c ∈ p.filter, c.holds attributes = true := by
  simp [isMet]

end ProtectedPattern

/-- Whether one of the patterns is met. -/
def isProtectedBy (patterns : List ProtectedPattern) (attributes : AttributeValues) : Bool :=
  patterns.any (·.isMet attributes)

end Reconciler
