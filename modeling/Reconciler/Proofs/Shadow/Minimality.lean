/-
Reconciling modifies attributes only where the shadow and the observation disagree.

* `AttributeDefinition.Agrees`: stored and observed values of an attribute agree;
* `ReconcileContext.Settled`: the shadow agrees with the observation on all attributes.

Main statements:
* `ReconcileContext.attributesDelta_eq_attributeChanges`: the attribute modifications of a delta are
  those that the attributes call for;
* `ReconcileContext.attributeChanges_eq_nil_iff`: a delta has no attribute modification just when
  the shadow is settled.

Design notes:
* Names may be taken for one another, and rules need not be idempotent: each observed attribute is
  compared with whatever is stored under its stored name.
* Of an attribute that was observed in part, only the first known modification under an agreeing
  name counts, as it does for the delta.
-/
import Reconciler.Proofs.Shadow.Convergence

namespace Reconciler

/-! ### Agreeing values -/

namespace AttributeDefinition

variable {a : AttributeDefinition} {rule : MatchingRule} {stored observed : List Json}

/-- The stored and the observed values agree: there are none of both, or there are some of both and
they stand for each other, the first ones if the attribute is single-valued and all of them
otherwise. -/
def Agrees (a : AttributeDefinition) (rule : MatchingRule) (stored observed : List Json) : Prop :=
  stored = [] ∧ observed = [] ∨ stored ≠ [] ∧ observed ≠ [] ∧ a.InLine rule stored observed

/-- Values are in line with values, and none with none. -/
theorem agrees_iff_inLine : a.Agrees rule stored observed ↔ a.InLine rule stored observed := by
  constructor
  · rintro (⟨rfl, rfl⟩ | ⟨-, -, h⟩)
    · exact inLine_of_forms rfl fun f => Iff.rfl
    · exact h
  · intro h
    by_cases hs : stored = []
    · subst hs
      exact .inl ⟨rfl, h.eq_nil⟩
    · refine .inr ⟨hs, fun ho => hs ?_, h⟩
      subst ho
      exact h.symm.eq_nil

end AttributeDefinition

namespace ReconcileContext

variable {ctx : ReconcileContext} {retention : Retention} {s : Shadow} {known : Option Delta}
variable {o : Observation} {lifecycle : LifecycleState} {d part : Delta}
variable {p : AttributeDefinition × ObservedAttribute}

/-- The shadow agrees with the observation: it stores values of attributes that were observed only,
those of attributes that were observed in full agree, and nothing is known to have changed about
the others. -/
structure Settled (ctx : ReconcileContext) (retention : Retention) (s : Shadow)
    (known : Option Delta) (o : Observation) : Prop where
  stored : ∀ name, s.valuesAt name ≠ [] →
    ∃ p ∈ ctx.persisted retention o, name = s.storedName p.1.name
  complete : ∀ p ∈ ctx.persisted retention o, p.2.incomplete = false →
    ∃ rule, ctx.ruleOf p.1 = .ok rule ∧
      p.1.Agrees rule (s.valuesAt (s.storedName p.1.name)) p.2.values
  incomplete : ∀ p ∈ ctx.persisted retention o, p.2.incomplete = true →
    ∀ changes, known = some changes →
      ∀ m, changes.findAgreeing? p.1.name = some m → m.isEmpty = true

/-! ### One attribute -/

/-- What was reported stays empty, or not, in normal form. -/
theorem isEmpty_normalizedDelta (rule : MatchingRule) (name : ItemName) (m : ItemDelta) :
    (normalizedDelta rule name m).isEmpty = m.isEmpty := by
  rw [Bool.eq_iff_iff]
  simp [ItemDelta.isEmpty, normalizedDelta, MatchingRule.normalForms_eq_nil_iff]

/-- An attribute that was observed in full is left alone just when its values agree. -/
theorem completeDelta_eq_nil_iff_agrees {a : AttributeDefinition} {name : ItemName}
    {values : List Json} (hd : ctx.completeDelta s a name values = .ok part) :
    part = [] ↔ ∃ rule, ctx.ruleOf a = .ok rule ∧ a.Agrees rule (s.valuesAt name) values := by
  obtain ⟨rule, hrule⟩ := ruleOf_of_completeDelta hd
  have hline : part = [] ↔ a.InLine rule (s.valuesAt name) values := by
    rw [← completeDelta_eq_nil_iff hrule, hd, Except.ok.injEq]
  rw [hline, ← AttributeDefinition.agrees_iff_inLine]
  constructor
  · exact fun h => ⟨rule, hrule, h⟩
  · rintro ⟨rule', hrule', h⟩
    obtain rfl : rule = rule' := Except.ok.inj (hrule.symm.trans hrule')
    exact h

/-- One that was observed in part is left alone just when nothing is known to have changed. -/
theorem incompleteDelta_eq_nil_iff {a : AttributeDefinition} {name : ItemName}
    (hd : ctx.incompleteDelta known a name = .ok part) :
    part = [] ↔ ∀ changes, known = some changes →
      ∀ m, changes.findAgreeing? a.name = some m → m.isEmpty = true := by
  have hreported : (known >>= fun changes => changes.findAgreeing? a.name) = none ∧ part = [] ∨
      ∃ changes m rule, known = some changes ∧ changes.findAgreeing? a.name = some m ∧
        part = Delta.push [] (normalizedDelta rule name m) := by
    unfold incompleteDelta at hd
    split at hd
    · next hnone => exact .inl ⟨hnone, (Except.ok.inj hd).symm⟩
    · next m hm =>
      obtain ⟨changes, hknown, hm⟩ := Option.bind_eq_some_iff.1 hm
      cases hrule : ctx.ruleOf a with
      | error e => rw [hrule] at hd; cases hd
      | ok rule =>
        rw [hrule] at hd
        exact .inr ⟨changes, m, rule, hknown, hm, (Except.ok.inj hd).symm⟩
  rcases hreported with ⟨hnone, rfl⟩ | ⟨changes, m, rule, hknown, hm, rfl⟩
  · refine ⟨fun _ changes hknown m hm => ?_, fun _ => rfl⟩
    rw [hknown, Option.bind_eq_bind, Option.bind_some, hm] at hnone
    cases hnone
  · rw [Delta.push_nil_eq_nil_iff, isEmpty_normalizedDelta]
    constructor
    · intro hempty changes' hknown' m' hm'
      obtain rfl : changes = changes' := Option.some.inj (hknown.symm.trans hknown')
      rwa [Option.some.inj (hm'.symm.trans hm)]
    · exact fun h => h changes hknown m hm

/-- An observed attribute is left alone just when it calls for nothing. -/
theorem attributeDelta_eq_nil_iff (hd : ctx.attributeDelta s known p.1 p.2 = .ok part) :
    part = [] ↔
      (p.2.incomplete = false → ∃ rule, ctx.ruleOf p.1 = .ok rule ∧
        p.1.Agrees rule (s.valuesAt (s.storedName p.1.name)) p.2.values) ∧
      (p.2.incomplete = true → ∀ changes, known = some changes →
        ∀ m, changes.findAgreeing? p.1.name = some m → m.isEmpty = true) := by
  cases hi : p.2.incomplete with
  | true =>
    rw [attributeDelta_of_incomplete hi] at hd
    simpa using incompleteDelta_eq_nil_iff hd
  | false =>
    rw [attributeDelta_of_complete hi] at hd
    simpa using completeDelta_eq_nil_iff_agrees hd

/-! ### All attributes -/

/-- The attribute modifications of a delta are those that the attributes call for. -/
theorem attributesDelta_eq_attributeChanges (hr : ctx.strategy.retention = .ok retention)
    (hd : ctx.delta s o known lifecycle = .ok d) :
    ctx.attributesDelta retention s known o = .ok d.attributeChanges := by
  obtain ⟨changes, hchanges, rfl⟩ := (delta_eq_ok_iff_attributesDelta hr).1 hd
  have hall : changes.attributeChanges = changes := by
    refine List.filter_eq_self.2 fun m hm => ?_
    obtain ⟨name, hname⟩ := mem_attributesDelta_path hchanges hm
    rw [hname]
  have hnone : (ctx.itemsDelta retention s known o lifecycle).attributeChanges = [] := by
    refine List.filter_eq_nil_iff.2 fun m hm => ?_
    split
    · next name hname => exact absurd hname (path_ne_of_mem_itemsDelta hm)
    · exact Bool.false_ne_true
  rw [hchanges, Delta.attributeChanges, List.filter_append]
  exact congrArg Except.ok ((congrArg₂ _ hall hnone).trans (List.append_nil _)).symm

theorem staleDelta_eq_nil_iff :
    ctx.staleDelta retention s o = [] ↔
      ∀ name, s.valuesAt name ≠ [] → ∃ p ∈ ctx.persisted retention o,
        name = s.storedName p.1.name := by
  rw [List.eq_nil_iff_forall_not_mem]
  constructor
  · intro h name hne
    by_contra hno
    refine h _ (mem_staleDelta_iff.2 ⟨name, fun hhandled => hno ?_, hne, rfl⟩)
    obtain ⟨p, hp, e⟩ := mem_handledNames_iff.1 hhandled
    exact ⟨p, hp, e.symm⟩
  · intro h m hm
    obtain ⟨name, hno, hne, -⟩ := mem_staleDelta_iff.1 hm
    obtain ⟨p, hp, rfl⟩ := h name hne
    exact hno (mem_handledNames_iff.2 ⟨p, hp, rfl⟩)

/-- **A delta has no attribute modification just when the shadow is settled**, however attributes
are named and compared. -/
theorem attributeChanges_eq_nil_iff (hr : ctx.strategy.retention = .ok retention)
    (hd : ctx.delta s o known lifecycle = .ok d) :
    d.attributeChanges = [] ↔ ctx.Settled retention s known o := by
  obtain ⟨parts, hparts, hchanges⟩ :=
    attributesDelta_eq_ok_iff.1 (attributesDelta_eq_attributeChanges hr hd)
  rw [hchanges, List.append_eq_nil_iff, List.flatten_eq_nil_iff, staleDelta_eq_nil_iff]
  constructor
  · rintro ⟨hnone, hstored⟩
    have heach : ∀ p ∈ ctx.persisted retention o, ctx.attributeDelta s known p.1 p.2 = .ok [] := by
      intro p hp
      obtain ⟨part, hpart, h⟩ := (List.exists_of_forall₂ hparts).1 p hp
      rwa [hnone part hpart] at h
    refine ⟨hstored, fun p hp => ?_, fun p hp => ?_⟩
    · exact ((attributeDelta_eq_nil_iff (heach p hp)).1 rfl).1
    · exact ((attributeDelta_eq_nil_iff (heach p hp)).1 rfl).2
  · intro h
    refine ⟨fun part hpart => ?_, h.stored⟩
    obtain ⟨p, hp, hd⟩ := (List.exists_of_forall₂ hparts).2 part hpart
    exact (attributeDelta_eq_nil_iff hd).2 ⟨h.complete p hp, h.incomplete p hp⟩

/-- The observed groups, in another order, not all in normal form and one of them twice. -/
def settledShadow : Shadow :=
  { sampleShadow with
    attributes := .ofList [(.unqualified "groups", [.str " a ", .str "c", .str "a"]),
      (.unqualified "old", []), (.qualified "ri" "uid", [.str "u"])] }

/-- The one shadow is settled, and the other has groups that were not observed. -/
theorem attributeChanges_eq_nil_iff_sample :
    sampleContext.Settled .readable settledShadow none sampleObservation ∧
      ¬sampleContext.Settled .readable sampleShadow none sampleObservation := by
  obtain ⟨d, hd⟩ : ∃ d, sampleContext.delta settledShadow sampleObservation none .live = .ok d :=
    ⟨_, rfl⟩
  obtain ⟨e, he⟩ : ∃ e, sampleContext.delta sampleShadow sampleObservation none .live = .ok e :=
    ⟨_, rfl⟩
  have hnone : d.attributeChanges = [] := by
    cases hd
    decide +kernel
  have hsome : e.attributeChanges ≠ [] := by
    cases he
    decide +kernel
  exact ⟨(attributeChanges_eq_nil_iff rfl hd).1 hnone,
    fun h => hsome ((attributeChanges_eq_nil_iff rfl he).2 h)⟩

end ReconcileContext

end Reconciler
