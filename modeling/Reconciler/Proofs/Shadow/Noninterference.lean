/-
What a shadow must not keep has no influence on its delta.

Observed attributes are skipped if the definition does not know them or if the strategy does not
keep them.  Whether they are present, with which values, in full or in part, makes no difference.

* `ReconcileContext.keepsName`: whether what is observed under a name is kept;
* `ReconcileContext.AlikeWhereKept`: observations that may only differ in skipped attributes.

Main statements:
* `SortedMap.filter_eq_filter`: maps that are alike where a predicate holds are equal once filtered;
* `ReconcileContext.persisted_eq_of_alikeWhereKept`: such observations have the same kept
  attributes;
* `ReconcileContext.map_withoutName_delta`: the name is the only item that skipped attributes reach;
* `ReconcileContext.delta_eq_of_alikeWhereKept`: observations that also name the object alike have
  the same delta, or the same error;
* `ReconcileContext.remarks_eq_of_alikeWhereKept`: and the same is remarked on them.

Design notes:
* A name is derived from whatever was observed first under a name that agrees with a candidate, and
  that may be a skipped attribute.  So that both derive the same name is a condition of its own.
* Nothing is asked of definitions, stored attributes and rules: names may be taken for one another,
  and rules may be missing.
-/
import Reconciler.Proofs.Shadow.Reports

namespace Reconciler

/-- Maps are equal after a filter if they have the same entries that pass it. -/
theorem SortedMap.filter_eq_filter {κ ν : Type} [Ord κ] [Std.TransOrd κ] [Std.LawfulEqOrd κ]
    [DecidableEq κ] {m n : SortedMap κ ν} {p : κ → ν → Bool}
    (h : ∀ key value, p key value = true → (m.get? key = some value ↔ n.get? key = some value)) :
    m.filter p = n.filter p := by
  refine SortedMap.ext_get? fun key => Option.ext fun value => ?_
  rw [← SortedMap.mem_entries_iff, ← SortedMap.mem_entries_iff]
  simp only [SortedMap.filter, List.mem_filter, SortedMap.mem_entries_iff]
  exact and_congr_left (h key value)

namespace Delta

/-- The modifications of all items but the name. -/
def withoutName (d : Delta) : Delta := d.filter fun m => m.path != .name

theorem withoutName_append (d e : Delta) :
    withoutName (d ++ e) = withoutName d ++ withoutName e :=
  List.filter_append ..

end Delta

namespace ReconcileContext

variable {ctx : ReconcileContext} {retention : Retention} {s : Shadow} {known : Option Delta}
variable {o o' : Observation} {lifecycle : LifecycleState}

/-- Whether what is observed under the name is kept: the definition knows the attribute, and the
strategy keeps its values. -/
def keepsName (ctx : ReconcileContext) (retention : Retention) (name : ItemName) : Bool :=
  (ctx.definition.findAttribute? name).any (ctx.isPersisted retention)

/-- The observations are alike but for attributes that are not kept. -/
structure AlikeWhereKept (ctx : ReconcileContext) (o o' : Observation) : Prop where
  kept : ∀ retention, ctx.strategy.retention = .ok retention → ∀ name,
    ctx.keepsName retention name = true → o.attributes.get? name = o'.attributes.get? name
  auxiliaryClasses : o.auxiliaryClasses = o'.auxiliaryClasses
  activation : o.activation = o'.activation
  production : o.production = o'.production

/-! ### Kept attributes -/

theorem isSome_keeps? {e : ItemName × ObservedAttribute} :
    (ctx.keeps? retention e).isSome = ctx.keepsName retention e.1 := by
  unfold keeps? keepsName
  cases ctx.definition.findAttribute? e.1 with
  | none => rfl
  | some a => cases h : ctx.isPersisted retention a <;> simp [h]

/-- Only attributes that are kept are looked at. -/
theorem persisted_eq_of_filter (ctx : ReconcileContext) (retention : Retention) (o : Observation) :
    ctx.persisted retention o =
      (o.attributes.filter fun name _ => ctx.keepsName retention name).entries.filterMap
        (ctx.keeps? retention) := by
  rw [persisted_eq]
  show _ = (o.attributes.entries.filter fun e => ctx.keepsName retention e.1).filterMap _
  rw [List.filterMap_filter]
  refine List.filterMap_congr fun e _ => ?_
  rw [← isSome_keeps?]
  cases ctx.keeps? retention e <;> rfl

theorem persisted_eq_of_alikeWhereKept (h : ctx.AlikeWhereKept o o')
    (hr : ctx.strategy.retention = .ok retention) :
    ctx.persisted retention o = ctx.persisted retention o' := by
  have hsame : (o.attributes.filter fun name _ => ctx.keepsName retention name) =
      o'.attributes.filter fun name _ => ctx.keepsName retention name :=
    SortedMap.filter_eq_filter fun name _ hname => by rw [h.kept retention hr name hname]
  rw [persisted_eq_of_filter, persisted_eq_of_filter, hsame]

/-! ### What is done with them -/

/-- The attributes that are not kept do not count for other attributes either: not for errors, and
not for what is stale. -/
theorem attributesDelta_eq_of_alikeWhereKept (h : ctx.AlikeWhereKept o o')
    (hr : ctx.strategy.retention = .ok retention) :
    ctx.attributesDelta retention s known o = ctx.attributesDelta retention s known o' := by
  have hhandled : ctx.handledNames retention s o = ctx.handledNames retention s o' := by
    rw [handledNames, handledNames, persisted_eq_of_alikeWhereKept h hr]
  have hstale : ctx.staleDelta retention s o = ctx.staleDelta retention s o' := by
    rw [staleDelta, staleDelta, hhandled]
  rw [attributesDelta, attributesDelta, persisted_eq_of_alikeWhereKept h hr, hstale]

theorem isLacking_eq_of_alikeWhereKept (h : ctx.AlikeWhereKept o o')
    (hr : ctx.strategy.retention = .ok retention) :
    ctx.isLacking retention known o = ctx.isLacking retention known o' := by
  rw [isLacking, isLacking, persisted_eq_of_alikeWhereKept h hr]

/-- Of all other items, the name alone may differ. -/
theorem exists_itemsDelta_eq (h : ctx.AlikeWhereKept o o')
    (hr : ctx.strategy.retention = .ok retention) (s : Shadow) (known : Option Delta)
    (lifecycle : LifecycleState) :
    ∃ rest, ctx.itemsDelta retention s known o lifecycle = ctx.nameDelta s o ++ rest ∧
      ctx.itemsDelta retention s known o' lifecycle = ctx.nameDelta s o' ++ rest := by
  have hcache : ctx.cacheDelta retention s known o = ctx.cacheDelta retention s known o' := by
    unfold cacheDelta activationDelta stampDelta
    rw [h.activation, isLacking_eq_of_alikeWhereKept h hr]
  refine ⟨auxiliaryDelta s o ++ presenceDelta s lifecycle ++ productionDelta s o ++
    ctx.cacheDelta retention s known o, ?_, ?_⟩
  · simp only [itemsDelta, List.append_assoc]
  · simp only [itemsDelta, List.append_assoc, auxiliaryDelta, productionDelta, h.auxiliaryClasses,
      h.production, hcache]

theorem withoutName_nameDelta (ctx : ReconcileContext) (s : Shadow) (o : Observation) :
    Delta.withoutName (ctx.nameDelta s o) = [] := by
  refine List.filter_eq_nil_iff.2 fun m hm => ?_
  unfold nameDelta at hm
  split at hm
  · simp at hm
  · split at hm
    · simp at hm
    · rw [List.mem_singleton.1 hm]
      simp

/-- What is not kept reaches no item but the name: whatever name the observations derive, the same
is modified besides, or both fail with the same error. -/
theorem map_withoutName_delta (h : ctx.AlikeWhereKept o o') :
    (ctx.delta s o known lifecycle).map Delta.withoutName =
      (ctx.delta s o' known lifecycle).map Delta.withoutName := by
  unfold delta
  cases hr : ctx.strategy.retention with
  | error e => rfl
  | ok retention =>
    dsimp only
    rw [attributesDelta_eq_of_alikeWhereKept h hr]
    cases ctx.attributesDelta retention s known o' with
    | error e => rfl
    | ok changes =>
      obtain ⟨rest, ho, ho'⟩ := exists_itemsDelta_eq h hr s known lifecycle
      dsimp only
      rw [ho, ho']
      simp only [Except.map, Delta.withoutName_append, withoutName_nameDelta]

/-- The same holds of the whole delta where the stored name is to be modified alike. -/
theorem delta_eq_of_nameDelta (h : ctx.AlikeWhereKept o o')
    (hname : ctx.nameDelta s o = ctx.nameDelta s o') :
    ctx.delta s o known lifecycle = ctx.delta s o' known lifecycle := by
  unfold delta
  cases hr : ctx.strategy.retention with
  | error e => rfl
  | ok retention =>
    dsimp only
    rw [attributesDelta_eq_of_alikeWhereKept h hr]
    cases ctx.attributesDelta retention s known o' with
    | error e => rfl
    | ok changes =>
      obtain ⟨rest, ho, ho'⟩ := exists_itemsDelta_eq h hr s known lifecycle
      dsimp only
      rw [ho, ho', hname]

theorem nameDelta_eq_of_deriveName?
    (hname : ctx.definition.deriveName? o.values = ctx.definition.deriveName? o'.values) :
    ctx.nameDelta s o = ctx.nameDelta s o' := by
  rw [nameDelta, nameDelta, hname]

/-- **What must not be kept does not influence the delta.**  Observations that differ only in
attributes that the definition does not know or that are not kept, and that derive the same name,
have the same delta or fail with the same error. -/
theorem delta_eq_of_alikeWhereKept (h : ctx.AlikeWhereKept o o')
    (hname : ctx.definition.deriveName? o.values = ctx.definition.deriveName? o'.values)
    (s : Shadow) (known : Option Delta) (lifecycle : LifecycleState) :
    ctx.delta s o known lifecycle = ctx.delta s o' known lifecycle :=
  delta_eq_of_nameDelta h (nameDelta_eq_of_deriveName? hname)

/-- The context of `sampleContext`, in which accounts also have a password that is never kept. -/
def guardedContext : ReconcileContext :=
  { sampleContext with
    definition :=
      { structural := .ofClass
          { name := .qualified "ri" "account"
            attributes := [.new (.qualified "ri" "uid"),
              { AttributeDefinition.new (.qualified "ri" "groups") with
                maxOccurs := none, matchingRule := some "trimmed" },
              { AttributeDefinition.new (.qualified "ri" "password") with cached := some false }]
            primaryIdentifiers := [.qualified "ri" "uid"] } } }

/-- As `sampleObservation`, with a password and with an attribute that no definition knows. -/
def guardedObservation (password : ObservedAttribute) (unknown : List Json) : Observation :=
  { sampleObservation with
    attributes := (sampleObservation.attributes.insert (.qualified "ri" "password") password).insert
      (.unqualified "mail") { values := unknown } }

/-- Neither the password, nor that it was observed in part, nor an unknown attribute shows in the
delta, which is not empty. -/
theorem delta_eq_of_alikeWhereKept_sample :
    ∃ d, guardedContext.delta sampleShadow sampleObservation none .live = .ok d ∧ d ≠ [] ∧
      guardedContext.delta sampleShadow
        (guardedObservation { values := [.str "old"], incomplete := true } [.str "u@x"]) none
          .live = .ok d := by
  obtain ⟨d, hd⟩ : ∃ d, guardedContext.delta sampleShadow sampleObservation none .live = .ok d :=
    ⟨_, rfl⟩
  have halike : guardedContext.AlikeWhereKept sampleObservation
      (guardedObservation { values := [.str "old"], incomplete := true } [.str "u@x"]) := by
    refine ⟨fun retention hr name hname => ?_, rfl, rfl, rfl⟩
    obtain rfl : Retention.readable = retention := Except.ok.inj hr
    -- Both of the names that were added are skipped.
    simp only [guardedObservation, SortedMap.get?_insert]
    split
    · next he =>
      subst he
      exact absurd hname (by decide +kernel)
    · split
      · next he =>
        subst he
        exact absurd hname (by decide +kernel)
      · rfl
  refine ⟨d, hd, ?_, ?_⟩
  · cases hd
    decide +kernel
  · rw [← hd]
    exact (delta_eq_of_alikeWhereKept halike (by decide +kernel) sampleShadow none .live).symm

/-! ### Remarks -/

/-- Nor is anything remarked on attributes that are not kept. -/
theorem remarks_eq_of_alikeWhereKept (h : ctx.AlikeWhereKept o o')
    (hname : ctx.definition.deriveName? o.values = ctx.definition.deriveName? o'.values)
    (s : Shadow) (known : Option Delta) (lifecycle : LifecycleState) :
    ctx.remarks s o known lifecycle = ctx.remarks s o' known lifecycle := by
  unfold remarks
  cases hr : ctx.strategy.retention with
  | error e => rfl
  | ok retention =>
    have hattributes : ctx.attributeRemarks retention s known o =
        ctx.attributeRemarks retention s known o' := by
      rw [attributeRemarks, attributeRemarks, persisted_eq_of_alikeWhereKept h hr]
    have hstamp : ctx.stampRemarks retention s known o = ctx.stampRemarks retention s known o' := by
      rw [stampRemarks, stampRemarks, isLacking_eq_of_alikeWhereKept h hr]
    dsimp only
    rw [hattributes, hstamp, delta_eq_of_nameDelta h (nameDelta_eq_of_deriveName? hname)]

end ReconcileContext

end Reconciler
