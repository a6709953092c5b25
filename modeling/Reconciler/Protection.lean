/-
Protection of objects, with values compared under the matching rules of their attributes.

Shadows hold values in normal form, so a pattern must recognise a value by its normal form too.  A
condition on an attribute that the definition does not know compares values as they are.

* `ProtectedPattern.isMetUnder`: whether a pattern is met;
* `isProtectedUnder`: whether a pattern of the object's own definition is met.

Main statements:
* `ProtectedPattern.isMetUnder_nil`: a pattern without conditions is not met and looks up no rule.

Design notes:
* Conditions are taken in order; rules are looked up only as far as needed, so that a rule that
  cannot be found is an error only if no condition before it fails.
-/
import Reconciler.MatchingRule
import Reconciler.ObjectDefinition

namespace Reconciler

/-- Whether a condition holds, under the rule of its attribute. -/
def AttributeCondition.holdsWith (c : AttributeCondition) (attributes : AttributeValues)
    (definition : CompositeDefinition) (rules : RuleLookup) : Except SchemaViolation Bool :=
  match definition.findAttribute? c.item with
  | none => .ok (c.holds attributes)
  | some a => do
    let rule ← rules a.matchingRule a.valueType
    return c.holdsUnder (rule.isMatch · c.value) attributes

/-- Whether all of some conditions hold; the first that does not settles it. -/
def allHoldWith (attributes : AttributeValues) (definition : CompositeDefinition)
    (rules : RuleLookup) : List AttributeCondition → Except SchemaViolation Bool
  | [] => .ok true
  | c :: rest => do
    if ← c.holdsWith attributes definition rules then allHoldWith attributes definition rules rest
    else return false

/-- Whether a pattern has conditions and all of them hold. -/
def ProtectedPattern.isMetUnder (p : ProtectedPattern) (attributes : AttributeValues)
    (definition : CompositeDefinition) (rules : RuleLookup) : Except SchemaViolation Bool :=
  if p.filter.isEmpty then .ok false else allHoldWith attributes definition rules p.filter

/-- Whether one of some patterns is met; the first that is settles it. -/
def anyIsMetUnder (attributes : AttributeValues) (definition : CompositeDefinition)
    (rules : RuleLookup) : List ProtectedPattern → Except SchemaViolation Bool
  | [] => .ok false
  | p :: rest => do
    if ← p.isMetUnder attributes definition rules then return true
    else anyIsMetUnder attributes definition rules rest

/-- Whether an object is protected by a pattern of its definition. -/
def isProtectedUnder (attributes : AttributeValues) (definition : CompositeDefinition)
    (rules : RuleLookup) : Except SchemaViolation Bool :=
  anyIsMetUnder attributes definition rules definition.structural.protectedPatterns

theorem ProtectedPattern.isMetUnder_nil (attributes : AttributeValues)
    (definition : CompositeDefinition) (rules : RuleLookup) :
    (⟨[]⟩ : ProtectedPattern).isMetUnder attributes definition rules = .ok false := rfl

end Reconciler
