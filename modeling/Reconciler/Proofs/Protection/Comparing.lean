/-
What the answers about protection say of single conditions.

Conditions are taken in order and an answer ends with the first condition that settles it, so that a
rule which cannot be found is an error in some answers and does not matter in others.  What can be
told of single conditions from an answer, and the other way round, does not depend on the order.

* `CompositeDefinition.ruleUnder`: the rule that values under a name are compared by;
* `AttributeCondition.accepts`: whether a value meets a condition, under a rule or as it is;
* `CompositeDefinition.FindsRules`: no condition of some patterns lacks its rule.

Main statements:
* `AttributeCondition.holdsWith_eq_map`: a condition compares by the rule under its name;
* `ProtectedPattern.isMetUnder_eq_ok_true_iff`, `exists_of_isMetUnder_eq_ok_false`: what a pattern
  answers;
* `anyIsMetUnder_eq_ok_false_iff`, `exists_of_anyIsMetUnder_eq_ok_true`: what several answer;
* `exists_anyIsMetUnder_of_findsRules`: where all rules are found, there is an answer.
-/
import Reconciler.Proofs.Matching.Forms
import Reconciler.Proofs.Results
import Reconciler.Protection

namespace Reconciler

variable {attributes others : AttributeValues} {d d' : CompositeDefinition} {rules : RuleLookup}
variable {c : AttributeCondition} {cs : List AttributeCondition}
variable {p : ProtectedPattern} {ps : List ProtectedPattern}

/-! ### One condition -/

/-- The rule that values under a name are compared by: that of the attribute which the name stands
for, and none where the name is not known. -/
def CompositeDefinition.ruleUnder (d : CompositeDefinition) (rules : RuleLookup) (name : ItemName) :
    Except SchemaViolation (Option MatchingRule) :=
  match d.findAttribute? name with
  | none => .ok none
  | some a => (rules a.matchingRule a.valueType).map some

theorem CompositeDefinition.ruleUnder_eq_ok_some_iff {name : ItemName} {rule : MatchingRule} :
    d.ruleUnder rules name = .ok (some rule) ↔
      ∃ a, d.findAttribute? name = some a ∧ rules a.matchingRule a.valueType = .ok rule := by
  unfold ruleUnder
  cases d.findAttribute? name with
  | none => simp
  | some a =>
    dsimp only
    cases hrule : rules a.matchingRule a.valueType <;> simp [Except.map, hrule]

namespace AttributeCondition

/-- Whether a value meets a condition, under a rule or as it is. -/
def accepts (c : AttributeCondition) : Option MatchingRule → Json → Bool
  | some rule, v => rule.isMatch v c.value
  | none, v => v.same c.value

theorem holdsWith_eq_map :
    c.holdsWith attributes d rules =
      (d.ruleUnder rules c.item).map fun rule => c.holdsUnder (c.accepts rule) attributes := by
  unfold holdsWith CompositeDefinition.ruleUnder
  cases d.findAttribute? c.item with
  | none => rfl
  | some a =>
    dsimp only
    cases rules a.matchingRule a.valueType <;> rfl

theorem holdsWith_eq_ok_iff {b : Bool} :
    c.holdsWith attributes d rules = .ok b ↔
      ∃ rule, d.ruleUnder rules c.item = .ok rule ∧
        c.holdsUnder (c.accepts rule) attributes = b := by
  rw [holdsWith_eq_map]
  cases d.ruleUnder rules c.item <;> simp [Except.map]

/-- A value that meets a condition as it is meets it under a rule that respects sameness and
compares by normal forms. -/
theorem accepts_some_of_same {rule : MatchingRule} (hsame : rule.RespectsSameness)
    (hforms : rule.ComparesForms) {v : Json} (h : v.same c.value = true) :
    c.accepts (some rule) v = true :=
  hforms.isMatch_iff.2 (hsame.form_congr (Json.same_iff.1 h))

end AttributeCondition

/-! ### Conditions of a pattern -/

theorem allHoldWith_eq_ok_true_iff :
    allHoldWith attributes d rules cs = .ok true ↔
      ∀ c ∈ cs, c.holdsWith attributes d rules = .ok true := by
  induction cs with
  | nil => exact iff_of_true rfl (List.forall_mem_nil _)
  | cons c rest ih =>
    rw [allHoldWith, Except.bind_eq_ok_iff, List.forall_mem_cons, ← ih]
    constructor
    · rintro ⟨holds, hc, hrest⟩
      cases holds with
      | true => exact ⟨hc, hrest⟩
      | false => cases hrest
    · rintro ⟨hc, hrest⟩
      exact ⟨true, hc, hrest⟩

theorem exists_of_allHoldWith_eq_ok_false (h : allHoldWith attributes d rules cs = .ok false) :
    ∃ c ∈ cs, c.holdsWith attributes d rules = .ok false := by
  induction cs with
  | nil => cases h
  | cons c rest ih =>
    obtain ⟨holds, hc, hrest⟩ := Except.bind_eq_ok_iff.1 h
    cases holds with
    | true =>
      obtain ⟨c', hmem, hc'⟩ := ih hrest
      exact ⟨c', List.mem_cons_of_mem _ hmem, hc'⟩
    | false => exact ⟨c, List.mem_cons_self, hc⟩

theorem allHoldWith_congr
    (h : ∀ c ∈ cs, c.holdsWith attributes d rules = c.holdsWith others d' rules) :
    allHoldWith attributes d rules cs = allHoldWith others d' rules cs := by
  induction cs with
  | nil => rfl
  | cons c rest ih =>
    obtain ⟨hc, hrest⟩ := List.forall_mem_cons.1 h
    rw [allHoldWith, allHoldWith, hc, ih hrest]

namespace ProtectedPattern

theorem isMetUnder_eq_ok_true_iff :
    p.isMetUnder attributes d rules = .ok true ↔
      p.filter ≠ [] ∧ ∀ c ∈ p.filter, c.holdsWith attributes d rules = .ok true := by
  unfold isMetUnder
  split
  · next hempty => simp [List.isEmpty_iff.1 hempty]
  · next hsome =>
    rw [allHoldWith_eq_ok_true_iff]
    exact (and_iff_right (mt List.isEmpty_iff.2 hsome)).symm

theorem exists_of_isMetUnder_eq_ok_false (hsome : p.filter ≠ [])
    (h : p.isMetUnder attributes d rules = .ok false) :
    ∃ c ∈ p.filter, c.holdsWith attributes d rules = .ok false := by
  rw [isMetUnder, if_neg (by simpa using hsome)] at h
  exact exists_of_allHoldWith_eq_ok_false h

theorem isMetUnder_congr
    (h : ∀ c ∈ p.filter, c.holdsWith attributes d rules = c.holdsWith others d' rules) :
    p.isMetUnder attributes d rules = p.isMetUnder others d' rules := by
  rw [isMetUnder, isMetUnder, allHoldWith_congr h]

end ProtectedPattern

/-! ### Several patterns -/

theorem anyIsMetUnder_eq_ok_false_iff :
    anyIsMetUnder attributes d rules ps = .ok false ↔
      ∀ p ∈ ps, p.isMetUnder attributes d rules = .ok false := by
  induction ps with
  | nil => exact iff_of_true rfl (List.forall_mem_nil _)
  | cons p rest ih =>
    rw [anyIsMetUnder, Except.bind_eq_ok_iff, List.forall_mem_cons, ← ih]
    constructor
    · rintro ⟨met, hp, hrest⟩
      cases met with
      | true => cases hrest
      | false => exact ⟨hp, hrest⟩
    · rintro ⟨hp, hrest⟩
      exact ⟨false, hp, hrest⟩

theorem exists_of_anyIsMetUnder_eq_ok_true (h : anyIsMetUnder attributes d rules ps = .ok true) :
    ∃ p ∈ ps, p.isMetUnder attributes d rules = .ok true := by
  induction ps with
  | nil => cases h
  | cons p rest ih =>
    obtain ⟨met, hp, hrest⟩ := Except.bind_eq_ok_iff.1 h
    cases met with
    | true => exact ⟨p, List.mem_cons_self, hp⟩
    | false =>
      obtain ⟨p', hmem, hp'⟩ := ih hrest
      exact ⟨p', List.mem_cons_of_mem _ hmem, hp'⟩

theorem anyIsMetUnder_congr
    (h : ∀ p ∈ ps, ∀ c ∈ p.filter,
      c.holdsWith attributes d rules = c.holdsWith others d' rules) :
    anyIsMetUnder attributes d rules ps = anyIsMetUnder others d' rules ps := by
  induction ps with
  | nil => rfl
  | cons p rest ih =>
    obtain ⟨hp, hrest⟩ := List.forall_mem_cons.1 h
    rw [anyIsMetUnder, anyIsMetUnder, ProtectedPattern.isMetUnder_congr hp, ih hrest]

/-! ### Where all rules are found -/

/-- The rule of every condition is found, where its attribute is known. -/
def CompositeDefinition.FindsRules (d : CompositeDefinition) (rules : RuleLookup)
    (ps : List ProtectedPattern) : Prop :=
  ∀ p ∈ ps, ∀ c ∈ p.filter, ∃ rule, d.ruleUnder rules c.item = .ok rule

/-- All rules are found where no look-up fails. -/
theorem CompositeDefinition.findsRules_of_total
    (h : ∀ name valueType, ∃ rule, rules name valueType = .ok rule) : d.FindsRules rules ps := by
  intro p _ c _
  unfold ruleUnder
  cases d.findAttribute? c.item with
  | none => exact ⟨none, rfl⟩
  | some a =>
    obtain ⟨rule, hrule⟩ := h a.matchingRule a.valueType
    exact ⟨some rule, congrArg (Except.map some) hrule⟩

theorem exists_allHoldWith (h : ∀ c ∈ cs, ∃ rule, d.ruleUnder rules c.item = .ok rule) :
    ∃ b, allHoldWith attributes d rules cs = .ok b := by
  induction cs with
  | nil => exact ⟨true, rfl⟩
  | cons c rest ih =>
    obtain ⟨⟨rule, hrule⟩, hrest⟩ := List.forall_mem_cons.1 h
    have hc : c.holdsWith attributes d rules = .ok (c.holdsUnder (c.accepts rule) attributes) :=
      AttributeCondition.holdsWith_eq_ok_iff.2 ⟨rule, hrule, rfl⟩
    rw [allHoldWith, hc]
    cases c.holdsUnder (c.accepts rule) attributes with
    | true => exact ih hrest
    | false => exact ⟨false, rfl⟩

theorem exists_anyIsMetUnder_of_findsRules (h : d.FindsRules rules ps) :
    ∃ b, anyIsMetUnder attributes d rules ps = .ok b := by
  induction ps with
  | nil => exact ⟨false, rfl⟩
  | cons p rest ih =>
    obtain ⟨hp, hrest⟩ := List.forall_mem_cons.1 h
    have hmet : ∃ b, p.isMetUnder attributes d rules = .ok b := by
      unfold ProtectedPattern.isMetUnder
      split
      · exact ⟨false, rfl⟩
      · exact exists_allHoldWith hp
    obtain ⟨met, hmet⟩ := hmet
    rw [anyIsMetUnder, hmet]
    cases met with
    | true => exact ⟨true, rfl⟩
    | false => exact ih hrest

end Reconciler
