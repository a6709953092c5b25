/-
Protection of objects whose values are in normal form.

A shadow stores the values of known attributes in normal form.  Patterns are written for values as
they are; they must recognise an object by what its shadow stores all the same.

* `CompositeDefinition.normalised`: attributes as a shadow stores them.

Main statements:
* `ReconcileContext.get?_normalised_of_delta`: this is how observed values are first stored;
* `MatchingRule.any_isMatch_normalForms`: normal forms are recognised like the values;
* `AttributeCondition.holdsUnder_normalised`: so a condition holds of both or of neither;
* `ProtectedPattern.isMetUnder_normalised`: what is protected as it is stays protected, and what is
  stored is protected just like what was observed;
* `isProtectedUnder_normalised`: the same of all patterns of a definition.

Design notes:
* A name without a scope agrees with names of several attributes, which may go by different rules;
  where all names have one, the rule of a condition is that of the values it is compared with.
* A rule that is not found leaves values as they are.  The conditions that they would be compared
  with fail in any case, since they lack the same rule.
* What is stored is the normal form, and a rule may have its own say in which values match.  Only
  rules that compare by normal forms can be expected to recognise what is stored, and only such that
  respect sameness what counts as equal.
-/
import Reconciler.Proofs.Protection.Comparing
import Reconciler.Proofs.Shadow.Attributes

namespace Reconciler

variable {rule : MatchingRule} {attributes : AttributeValues} {d : CompositeDefinition}
variable {rules : RuleLookup} {c : AttributeCondition} {p : ProtectedPattern}

/-! ### Values in normal form -/

/-- The attributes as a shadow stores them: known ones in normal form, others as they are. -/
def CompositeDefinition.normalised (d : CompositeDefinition) (rules : RuleLookup)
    (attributes : AttributeValues) : AttributeValues :=
  attributes.map fun name values =>
    match d.ruleUnder rules name with
    | .ok (some rule) => rule.normalForms values
    | _ => values

theorem CompositeDefinition.get?_normalised {name : ItemName} {a : AttributeDefinition}
    {values : List Json} (hfound : d.findAttribute? name = some a)
    (hrule : rules a.matchingRule a.valueType = .ok rule)
    (hvalues : attributes.get? name = some values) :
    (d.normalised rules attributes).get? name = some (rule.normalForms values) := by
  have hunder : d.ruleUnder rules name = .ok (some rule) :=
    ruleUnder_eq_ok_some_iff.2 ⟨a, hfound, hrule⟩
  refine SortedMap.mem_entries_iff.1
    (List.mem_map.2 ⟨(name, values), SortedMap.mem_entries_iff.2 hvalues, ?_⟩)
  dsimp only
  rw [hunder]

/-- A kept attribute that was observed as a whole is stored like this, where nothing was stored of
it before. -/
theorem ReconcileContext.get?_normalised_of_delta {ctx : ReconcileContext} {retention : Retention}
    {s : Shadow} {o : Observation} {known : Option Delta} {lifecycle : LifecycleState}
    {changes : Delta} {name : ItemName} {a : AttributeDefinition} {observed : ObservedAttribute}
    (h : Unambiguous ctx.definition s o) (hr : ctx.strategy.retention = .ok retention)
    (hd : ctx.delta s o known lifecycle = .ok changes)
    (hobserved : o.attributes.get? name = some observed)
    (hfound : ctx.definition.findAttribute? name = some a)
    (hkept : ctx.isPersisted retention a = true) (hcomplete : observed.incomplete = false)
    (hnone : s.valuesAt (s.storedName a.name) = []) :
    (ctx.definition.normalised ctx.rules o.values).get? name =
      some ((changes.appliedTo s).valuesAt (s.storedName a.name)) := by
  have hp : (a, observed) ∈ ctx.persisted retention o :=
    mem_persisted_iff.2 ⟨name, hobserved, hfound, hkept⟩
  have hown := attributeDelta_eq_ofItem h hr hd hp
  rw [attributeDelta_of_complete hcomplete] at hown
  obtain ⟨rule, hrule⟩ := ruleOf_of_completeDelta hown
  have hvalues : o.values.get? name = some observed.values := by
    rw [Observation.values, SortedMap.get?_map, hobserved]
    rfl
  rw [Delta.valuesAt_appliedTo, hnone, modified_completeDelta_of_nil hrule hnone hown]
  exact CompositeDefinition.get?_normalised hfound hrule hvalues

/-! ### Conditions on stored values -/

/-- Normal forms are recognised like the values that they come from. -/
theorem MatchingRule.any_isMatch_normalForms (h : rule.Idempotent) (hforms : rule.ComparesForms)
    (values : List Json) (w : Json) :
    (rule.normalForms values).any (rule.isMatch · w) = values.any (rule.isMatch · w) := by
  have hany (values : List Json) :
      values.any (rule.isMatch · w) = true ↔ rule.form w ∈ values.map rule.form := by
    simp only [List.any_eq_true, hforms.isMatch_iff, List.mem_map]
  rw [Bool.eq_iff_iff, hany, hany, h.mem_form_normalForms_iff]

/-- Names with scopes agree only if they are one name. -/
theorem ItemName.eq_of_agrees {a b : ItemName} (ha : a.scope.isSome) (hb : b.scope.isSome)
    (h : a.agrees b = true) : a = b := by
  obtain ⟨hlocal, hscope | hscope | hscope⟩ := ItemName.agrees_iff.1 h
  · obtain ⟨s, l⟩ := a
    obtain ⟨t, m⟩ := b
    cases hscope
    cases hlocal
    rfl
  · rw [hscope] at ha
    cases ha
  · rw [hscope] at hb
    cases hb

/-- A condition holds of stored values just when it holds of the values. -/
theorem AttributeCondition.holdsUnder_normalised (hc : c.item.scope.isSome)
    (hattributes : ∀ name ∈ attributes.keys, name.scope.isSome) (hrules : rules.Idempotent)
    (hforms : rules.ComparesForms) {rule : Option MatchingRule}
    (hrule : d.ruleUnder rules c.item = .ok rule) :
    c.holdsUnder (c.accepts rule) (d.normalised rules attributes) =
      c.holdsUnder (c.accepts rule) attributes := by
  have hsame (values : List Json) :
      (match d.ruleUnder rules c.item with
        | .ok (some rule) => rule.normalForms values
        | _ => values).any (c.accepts rule) = values.any (c.accepts rule) := by
    rw [hrule]
    cases rule with
    | none => rfl
    | some rule =>
      obtain ⟨a, -, hfound⟩ := CompositeDefinition.ruleUnder_eq_ok_some_iff.1 hrule
      exact MatchingRule.any_isMatch_normalForms (hrules _ _ _ hfound) (hforms _ _ _ hfound)
        values c.value
  rw [Bool.eq_iff_iff, holdsUnder, holdsUnder, CompositeDefinition.normalised, SortedMap.map,
    List.any_map]
  simp only [List.any_eq_true, Function.comp_apply, Bool.and_eq_true]
  refine exists_congr fun e => and_congr_right fun he => and_congr_right fun hagrees => ?_
  -- The values stand under the name of the condition itself.
  have hname : e.1 = c.item :=
    ItemName.eq_of_agrees (hattributes _ (List.mem_map_of_mem he)) hc hagrees
  rw [hname, ← List.any_eq_true, ← List.any_eq_true, hsame]

theorem AttributeCondition.holdsWith_normalised (hc : c.item.scope.isSome)
    (hattributes : ∀ name ∈ attributes.keys, name.scope.isSome) (hrules : rules.Idempotent)
    (hforms : rules.ComparesForms) :
    c.holdsWith (d.normalised rules attributes) d rules = c.holdsWith attributes d rules := by
  rw [holdsWith_eq_map, holdsWith_eq_map]
  cases hrule : d.ruleUnder rules c.item with
  | error e => rfl
  | ok rule => exact congrArg Except.ok (holdsUnder_normalised hc hattributes hrules hforms hrule)

/-- A condition that holds of values as they are does not fail under a rule that respects sameness
and compares by normal forms. -/
theorem AttributeCondition.holdsWith_ne_ok_false (hsame : rules.RespectsSameness)
    (hforms : rules.ComparesForms) (h : c.holds attributes = true) :
    c.holdsWith attributes d rules ≠ .ok false := by
  intro hfalse
  obtain ⟨rule, hrule, hunder⟩ := holdsWith_eq_ok_iff.1 hfalse
  obtain ⟨e, he, hagrees, v, hv, heq⟩ := holdsUnder_iff.1 h
  have haccepts : c.accepts rule v = true := by
    cases rule with
    | none => exact heq
    | some rule =>
      obtain ⟨a, -, hfound⟩ := CompositeDefinition.ruleUnder_eq_ok_some_iff.1 hrule
      exact accepts_some_of_same (hsame _ _ _ hfound) (hforms _ _ _ hfound) heq
  have htrue : c.holdsUnder (c.accepts rule) attributes = true :=
    holdsUnder_iff.2 ⟨e, he, hagrees, v, hv, haccepts⟩
  rw [htrue] at hunder
  cases hunder

/-! ### Patterns -/

/-- **Protection survives normalisation**, where values match if they have the same normal form.  A
pattern that is met by values as they are is not denied under rules that respect sameness.  Where
all names have scopes and the rules are idempotent, the attributes as a shadow stores them get the
same answer as the attributes themselves. -/
theorem ProtectedPattern.isMetUnder_normalised (p : ProtectedPattern) (attributes : AttributeValues)
    (d : CompositeDefinition) (rules : RuleLookup) (hforms : rules.ComparesForms) :
    (rules.RespectsSameness → p.isMet attributes = true →
      p.isMetUnder attributes d rules ≠ .ok false) ∧
    ((∀ c ∈ p.filter, c.item.scope.isSome) → (∀ name ∈ attributes.keys, name.scope.isSome) →
      rules.Idempotent →
        p.isMetUnder (d.normalised rules attributes) d rules =
          p.isMetUnder attributes d rules) := by
  refine ⟨fun hsame h hfalse => ?_, fun hconditions hattributes hrules => ?_⟩
  · obtain ⟨hsome, hall⟩ := isMet_iff.1 h
    obtain ⟨c, hc, hfails⟩ := exists_of_isMetUnder_eq_ok_false hsome hfalse
    exact AttributeCondition.holdsWith_ne_ok_false hsame hforms (hall c hc) hfails
  · exact isMetUnder_congr fun c hc =>
      AttributeCondition.holdsWith_normalised (hconditions c hc) hattributes hrules hforms

namespace ProtectedPattern

/-- Accounts whose groups are compared without the blanks around them. -/
def sampleDefinition : CompositeDefinition where
  structural := .ofClass
    { name := .qualified "ri" "account"
      attributes := [{ AttributeDefinition.new (.qualified "ri" "groups") with
        maxOccurs := none, matchingRule := some "trimmed" }] }

/-- The rule for groups, and the default one for all else. -/
def sampleRules : RuleLookup := fun name _ =>
  .ok (if name = some "trimmed" then .textual "trimmed" Text.trim else .default)

theorem sampleRules_idempotent : sampleRules.Idempotent := by
  refine RuleLookup.of_ok fun name _ => ?_
  split
  · exact MatchingRule.idempotent_textual _ Text.trim_trim
  · exact MatchingRule.idempotent_default

theorem sampleRules_respectsSameness : sampleRules.RespectsSameness := by
  refine RuleLookup.of_ok fun name _ => ?_
  split
  · exact MatchingRule.respectsSameness_textual _ _
  · exact MatchingRule.respectsSameness_default

theorem sampleRules_comparesForms : sampleRules.ComparesForms := by
  refine RuleLookup.of_ok fun name _ => ?_
  split
  · exact MatchingRule.comparesForms_textual _ _
  · exact MatchingRule.comparesForms_default

/-- A group, and a note that the definition does not know. -/
def samplePattern : ProtectedPattern :=
  ⟨[⟨.qualified "ri" "groups", .str " admins"⟩, ⟨.qualified "ri" "note", .str "keep "⟩]⟩

def sampleAttributes : AttributeValues :=
  .ofList [(.qualified "ri" "groups", [.str "staff", .str " admins", .str "admins "]),
    (.qualified "ri" "note", [.str "keep "])]

/-- What is stored is not met as it is, but still under the rules. -/
theorem isMetUnder_normalised_sample :
    let stored := sampleDefinition.normalised sampleRules sampleAttributes
    samplePattern.isMet sampleAttributes = true ∧
      samplePattern.isMetUnder sampleAttributes sampleDefinition sampleRules ≠ .ok false ∧
      stored.get? (.qualified "ri" "groups") = some [.str "staff", .str "admins"] ∧
      samplePattern.isMet stored = false ∧
      samplePattern.isMetUnder stored sampleDefinition sampleRules = .ok true := by
  obtain ⟨hmet, hsame⟩ := isMetUnder_normalised samplePattern sampleAttributes sampleDefinition
    sampleRules sampleRules_comparesForms
  exact ⟨by decide +kernel, hmet sampleRules_respectsSameness (by decide +kernel),
    by decide +kernel, by decide +kernel,
    (hsame (by decide +kernel) (by decide +kernel) sampleRules_idempotent).trans rfl⟩

/-- Tells both zeros apart, for all attributes. -/
def zeroRules : RuleLookup := fun _ _ => .ok .zeroSigns

/-- Lets no values match. -/
def refusingRules : RuleLookup := fun _ _ =>
  .ok { MatchingRule.default with isMatch := fun _ _ => false }

/-- Stores texts without the blanks around them, and compares values as they are all the same. -/
def literalRules : RuleLookup := fun _ _ =>
  .ok { MatchingRule.textual "literal" Text.trim with isMatch := Json.same }

theorem zeroRules_idempotent : zeroRules.Idempotent :=
  RuleLookup.of_ok fun _ _ => MatchingRule.zeroSigns_idempotent

theorem refusingRules_idempotent : refusingRules.Idempotent :=
  RuleLookup.of_ok fun _ _ => MatchingRule.idempotent_default

theorem literalRules_idempotent : literalRules.Idempotent :=
  RuleLookup.of_ok fun _ _ => MatchingRule.idempotent_textual "literal" Text.trim_trim

/-- The positive zero is a group, and the negative one is stored. -/
def zeroPattern : ProtectedPattern := ⟨[⟨.qualified "ri" "groups", .float .zero⟩]⟩

def zeroAttributes : AttributeValues :=
  .ofList [(.qualified "ri" "groups", [.float Binary64.zero.neg])]

/-- **A rule may deny what values as they are protect**, by telling both zeros apart or by letting
no values match.  And what a shadow stores need not be recognised, by a rule that compares values as
they are. -/
theorem denied_under_rules :
    (zeroRules.Idempotent ∧ zeroPattern.isMet zeroAttributes = true ∧
      zeroPattern.isMetUnder zeroAttributes sampleDefinition zeroRules = .ok false) ∧
    (refusingRules.Idempotent ∧ samplePattern.isMet sampleAttributes = true ∧
      samplePattern.isMetUnder sampleAttributes sampleDefinition refusingRules = .ok false) ∧
    literalRules.Idempotent ∧
      (∀ c ∈ samplePattern.filter, c.item.scope.isSome) ∧
      (∀ name ∈ sampleAttributes.keys, name.scope.isSome) ∧
      samplePattern.isMetUnder sampleAttributes sampleDefinition literalRules = .ok true ∧
      samplePattern.isMetUnder (sampleDefinition.normalised literalRules sampleAttributes)
        sampleDefinition literalRules = .ok false :=
  ⟨⟨zeroRules_idempotent, rfl, rfl⟩, ⟨refusingRules_idempotent, by decide +kernel, rfl⟩,
    literalRules_idempotent, by decide +kernel, by decide +kernel, rfl, rfl⟩

end ProtectedPattern

/-- An object is protected by its definition just when its shadow is. -/
theorem isProtectedUnder_normalised
    (hconditions : ∀ p ∈ d.structural.protectedPatterns, ∀ c ∈ p.filter, c.item.scope.isSome)
    (hattributes : ∀ name ∈ attributes.keys, name.scope.isSome) (hrules : rules.Idempotent)
    (hforms : rules.ComparesForms) :
    isProtectedUnder (d.normalised rules attributes) d rules =
      isProtectedUnder attributes d rules :=
  anyIsMetUnder_congr fun p hp c hc =>
    AttributeCondition.holdsWith_normalised (hconditions p hp c hc) hattributes hrules hforms

end Reconciler
