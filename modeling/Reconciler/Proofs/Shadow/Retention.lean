/-
What a shadow may hold after it was reconciled.

Main statements:
* `ReconcileContext.isPersisted_iff`: which attributes a strategy lets shadows keep;
* `ReconcileContext.retained_of_valuesAt_appliedTo`: a reconciled shadow holds values only of
  attributes that were observed and may be kept.

Design notes:
* Names may be taken for one another here.  Whatever a modification writes, it writes under a name
  that agrees with the name of the definition that asked for it.
-/
import Reconciler.Proofs.Shadow.Attributes
import Reconciler.Proofs.Shadow.Convergence

namespace Reconciler.ReconcileContext

variable {ctx : ReconcileContext} {retention : Retention} {s : Shadow} {known : Option Delta}
variable {o : Observation} {lifecycle : LifecycleState} {d : Delta} {a : AttributeDefinition}

/-- Identifiers are kept under every strategy, and what may be read and cached under one only. -/
theorem isPersisted_iff (hr : ctx.strategy.retention = .ok retention) :
    ctx.isPersisted retention a = true ↔
      ctx.definition.isIdentifier a.name = true ∨
        ctx.strategy = .passive ∧ (a.propertiesAt .model).canRead = true ∧
          a.cached ≠ some false := by
  cases hs : ctx.strategy with
  | none =>
    rw [hs] at hr
    cases hr
    simp [isPersisted]
  | passive =>
    rw [hs] at hr
    cases hr
    simp [isPersisted]
  | other name =>
    rw [hs] at hr
    cases hr

/-- A delta is computed only under a strategy that can be followed. -/
theorem exists_retention_of_delta (hd : ctx.delta s o known lifecycle = .ok d) :
    ∃ retention, ctx.strategy.retention = .ok retention := by
  cases hr : ctx.strategy.retention with
  | ok retention => exact ⟨retention, rfl⟩
  | error e =>
    unfold delta at hd
    rw [hr] at hd
    cases hd

/-- A reconciled shadow holds values only under names that agree with the name of an observed
attribute whose values may be kept: it is an identifier of the structural class or, under the
passive strategy only, may be read at the model layer and is not declared uncached. -/
theorem retained_of_valuesAt_appliedTo (hd : ctx.delta s o known lifecycle = .ok d)
    {name : ItemName} (hvalues : (d.appliedTo s).valuesAt name ≠ []) :
    ∃ observed ∈ o.attributes.keys, ∃ a,
      ctx.definition.findAttribute? observed = some a ∧ name.agrees a.name = true ∧
        (ctx.definition.isIdentifier a.name = true ∨
          ctx.strategy = .passive ∧ (a.propertiesAt .model).canRead = true ∧
            a.cached ≠ some false) := by
  obtain ⟨retention, hr⟩ := exists_retention_of_delta hd
  -- All names that no kept attribute is stored under have been emptied.
  have hhandled : name ∈ ctx.handledNames retention s o := by
    by_cases hno : name ∈ ctx.handledNames retention s o
    · exact hno
    · exact absurd (valuesAt_appliedTo_of_not_handled hr hd hno) hvalues
  obtain ⟨p, hp, rfl⟩ := mem_handledNames_iff.1 hhandled
  obtain ⟨observed, hobserved, hfound, hkept⟩ := mem_persisted_iff.1 hp
  have hkey : observed ∈ o.attributes.keys := by
    rw [SortedMap.mem_keys_iff, hobserved]
    rfl
  exact ⟨observed, hkey, p.1, hfound, s.storedName_agrees p.1.name, (isPersisted_iff hr).1 hkept⟩

/-- The strategy keeps identifiers only from now on: the groups that were cached are gone. -/
theorem retained_of_valuesAt_appliedTo_sample : ∃ d,
    ({ sampleContext with strategy := .none } : ReconcileContext).delta sampleShadow
        sampleObservation none .live = .ok d ∧
      (d.appliedTo sampleShadow).valuesAt (.unqualified "groups") = [] ∧
      (d.appliedTo sampleShadow).valuesAt (.qualified "ri" "uid") ≠ [] ∧
      ∃ observed ∈ sampleObservation.attributes.keys, ∃ a,
        sampleContext.definition.findAttribute? observed = some a ∧
          (ItemName.qualified "ri" "uid").agrees a.name = true ∧
          (sampleContext.definition.isIdentifier a.name = true ∨
            CachingStrategy.none = .passive ∧ (a.propertiesAt .model).canRead = true ∧
              a.cached ≠ some false) := by
  let ctx : ReconcileContext := { sampleContext with strategy := .none }
  obtain ⟨d, hd⟩ : ∃ d, ctx.delta sampleShadow sampleObservation none .live = .ok d := ⟨_, rfl⟩
  have hgone : (d.appliedTo sampleShadow).valuesAt (.unqualified "groups") = [] := by
    cases hd
    decide +kernel
  have hvalues : (d.appliedTo sampleShadow).valuesAt (.qualified "ri" "uid") ≠ [] := by
    cases hd
    decide +kernel
  exact ⟨d, hd, hgone, hvalues, retained_of_valuesAt_appliedTo hd hvalues⟩

end Reconciler.ReconcileContext
