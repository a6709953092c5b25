/-
Reconciling a shadow brings it in line with what was observed, for good.

* `ReconcileContext.Aligned`: what the attributes of a shadow are after it was reconciled.

Main statements:
* `ReconcileContext.aligned_appliedTo`: the delta of a reconciliation aligns the shadow that it is
  applied to;
* `ReconcileContext.delta_appliedTo`: to reconcile that shadow again leads to no modification, but
  for the time of the copy where this is kept;
* `ReconcileContext.zero_lost`, `zero_comes_back`: neither need be so by a rule that tells both
  zeros apart, idempotent as it may be.

Design notes:
* A name that attributes are stored under may be new after the first round, since attributes without
  values are not stored; `Unambiguous` makes the second round find what the first one wrote.
* Two normal forms count as one if they only differ in the signs of zeros, as values do everywhere.
  Rules are asked to take such values for one too, since a value that is to go takes along whatever
  is the same.
-/
import Reconciler.Proofs.Shadow.Attributes

namespace Reconciler.ReconcileContext

variable {ctx : ReconcileContext} {retention : Retention} {s : Shadow} {known : Option Delta}
variable {o : Observation} {lifecycle : LifecycleState} {d : Delta}
variable {p : AttributeDefinition × ObservedAttribute}

/-- The attributes of the shadow `t` are in line with the observation, where `s` was the shadow
before: complete ones stand for the observed values, incomplete ones of which nothing is known are
as they were, and there are no others. -/
structure Aligned (ctx : ReconcileContext) (retention : Retention) (s t : Shadow)
    (known : Option Delta) (o : Observation) : Prop where
  complete : ∀ p ∈ ctx.persisted retention o, p.2.incomplete = false →
    ∃ rule, ctx.ruleOf p.1 = .ok rule ∧
      p.1.InLine rule (t.valuesAt (s.storedName p.1.name)) p.2.values
  incomplete : ∀ p ∈ ctx.persisted retention o, p.2.incomplete = true →
    (∀ changes, known = some changes → changes.findAgreeing? p.1.name = none) →
      t.valuesAt (s.storedName p.1.name) = s.valuesAt (s.storedName p.1.name)
  others : ∀ name, (∀ p ∈ ctx.persisted retention o, name ≠ s.storedName p.1.name) →
    t.valuesAt name = []

/-! ### Attributes after the first round -/

/-- An attribute all of whose values were observed ends up in line. -/
theorem inLine_appliedTo (hrules : ctx.rules.Idempotent) (hsame : ctx.rules.RespectsSameness)
    (h : Unambiguous ctx.definition s o) (hr : ctx.strategy.retention = .ok retention)
    (hd : ctx.delta s o known lifecycle = .ok d)
    (hp : p ∈ ctx.persisted retention o) (hcomplete : p.2.incomplete = false) :
    ∃ rule, ctx.ruleOf p.1 = .ok rule ∧
      p.1.InLine rule ((d.appliedTo s).valuesAt (s.storedName p.1.name)) p.2.values := by
  have hown := attributeDelta_eq_ofItem h hr hd hp
  rw [attributeDelta_of_complete hcomplete] at hown
  obtain ⟨rule, hrule⟩ := ruleOf_of_completeDelta hown
  refine ⟨rule, hrule, ?_⟩
  rw [Delta.valuesAt_appliedTo]
  exact inLine_modified hrule (hrules _ _ _ hrule) (hsame _ _ _ hrule) hown

/-- An attribute that was observed in part and of which nothing is known calls for nothing. -/
theorem ofItem_of_unreported (h : Unambiguous ctx.definition s o)
    (hr : ctx.strategy.retention = .ok retention) (hd : ctx.delta s o known lifecycle = .ok d)
    (hp : p ∈ ctx.persisted retention o) (hincomplete : p.2.incomplete = true)
    (hknown : ∀ changes, known = some changes → changes.findAgreeing? p.1.name = none) :
    d.ofItem (.attributeValues (s.storedName p.1.name)) = [] := by
  have hnone : (known >>= fun changes => changes.findAgreeing? p.1.name) = none := by
    cases hk : known with
    | none => rfl
    | some changes => exact hknown changes hk
  have hown := attributeDelta_eq_ofItem h hr hd hp
  rw [attributeDelta_of_incomplete hincomplete, incompleteDelta, hnone] at hown
  exact (Except.ok.inj hown).symm

/-- Hence it stays as it is. -/
theorem valuesAt_appliedTo_of_unreported (h : Unambiguous ctx.definition s o)
    (hr : ctx.strategy.retention = .ok retention) (hd : ctx.delta s o known lifecycle = .ok d)
    (hp : p ∈ ctx.persisted retention o) (hincomplete : p.2.incomplete = true)
    (hknown : ∀ changes, known = some changes → changes.findAgreeing? p.1.name = none) :
    (d.appliedTo s).valuesAt (s.storedName p.1.name) = s.valuesAt (s.storedName p.1.name) := by
  rw [Delta.valuesAt_appliedTo, ofItem_of_unreported h hr hd hp hincomplete hknown]
  rfl

/-- **Reconciling aligns the shadow with the observation**, by rules that are idempotent and respect
sameness. -/
theorem aligned_appliedTo (hrules : ctx.rules.Idempotent) (hsame : ctx.rules.RespectsSameness)
    (h : Unambiguous ctx.definition s o) (hr : ctx.strategy.retention = .ok retention)
    (hd : ctx.delta s o known lifecycle = .ok d) :
    ctx.Aligned retention s (d.appliedTo s) known o where
  complete _ hp hcomplete := inLine_appliedTo hrules hsame h hr hd hp hcomplete
  incomplete _ hp hincomplete hknown :=
    valuesAt_appliedTo_of_unreported h hr hd hp hincomplete hknown
  others _ hname := by
    refine valuesAt_appliedTo_of_not_handled hr hd fun hm => ?_
    obtain ⟨p, hp, e⟩ := mem_handledNames_iff.1 hm
    exact hname p hp e.symm

/-- Accounts with one text that names them and groups that blanks do not tell apart. -/
def sampleContext : ReconcileContext where
  strategy := .passive
  definition :=
    { structural := .ofClass
        { name := .qualified "ri" "account"
          attributes := [.new (.qualified "ri" "uid"),
            { AttributeDefinition.new (.qualified "ri" "groups") with
              maxOccurs := none, matchingRule := some "trimmed" }]
          primaryIdentifiers := [.qualified "ri" "uid"] } }
  rules name _ := .ok (if name = some "trimmed" then .textual "trimmed" Text.trim else .default)
  now := .epoch

theorem sampleContext_idempotent : sampleContext.rules.Idempotent := by
  refine RuleLookup.of_ok fun name _ => ?_
  split
  · exact MatchingRule.idempotent_textual _ Text.trim_trim
  · exact MatchingRule.idempotent_default

theorem sampleContext_respectsSameness : sampleContext.rules.RespectsSameness := by
  refine RuleLookup.of_ok fun name _ => ?_
  split
  · exact MatchingRule.respectsSameness_textual _ _
  · exact MatchingRule.respectsSameness_default

/-- Groups are stored under a name of their own, not all in normal form, next to what is stale. -/
def sampleShadow : Shadow where
  oid := "shadow"
  resourceOid := "resource"
  objectClass := .qualified "ri" "account"
  attributes := .ofList [(.unqualified "groups", [.str " a ", .str "b", .str "a"]),
    (.unqualified "old", [.int 1])]

def sampleObservation : Observation where
  objectClass := .qualified "ri" "account"
  attributes := .ofList [(.qualified "ri" "uid", { values := [.str "u"] }),
    (.qualified "ri" "groups", { values := [.str "c ", .str " a", .str "c"] })]
  auxiliaryClasses := .ofList [.qualified "ri" "posix"]
  activation := { validTo := some .epoch }

theorem sample_unambiguous :
    Unambiguous sampleContext.definition sampleShadow sampleObservation where
  defined := by decide +kernel
  stored := by decide +kernel
  observed := by decide +kernel

theorem aligned_appliedTo_sample : ∃ d,
    sampleContext.delta sampleShadow sampleObservation none .live = .ok d ∧
      sampleContext.Aligned .readable sampleShadow (d.appliedTo sampleShadow) none
        sampleObservation :=
  ⟨_, rfl, aligned_appliedTo sampleContext_idempotent sampleContext_respectsSameness
    sample_unambiguous rfl rfl⟩

/-- The same accounts, all of whose values are compared by a rule that tells both zeros apart. -/
def zeroContext : ReconcileContext :=
  { sampleContext with rules := fun _ _ => .ok .zeroSigns }

theorem zeroContext_idempotent : zeroContext.rules.Idempotent :=
  RuleLookup.of_ok fun _ _ => MatchingRule.zeroSigns_idempotent

/-- Some values are stored of groups. -/
def storingGroups (values : List Json) : Shadow :=
  { sampleShadow with attributes := .ofList [(.unqualified "groups", values)] }

/-- Some values were observed of groups. -/
def observingGroups (values : List Json) : Observation where
  objectClass := .qualified "ri" "account"
  attributes := .ofList [(.qualified "ri" "groups", { values := values })]

theorem groups_unambiguous (stored values : List Json) :
    Unambiguous zeroContext.definition (storingGroups stored) (observingGroups values) where
  defined := by decide +kernel
  stored := by
    show ItemName.OneToOne _ [.unqualified "groups"]
    decide +kernel
  observed := by
    show ItemName.OneToOne _ [.qualified "ri" "groups"]
    decide +kernel

/-- Both zeros are stored, and the positive one was observed. -/
def zerosStored : Shadow := storingGroups [.float Binary64.zero.neg, .float .zero]

def zeroObserved : Observation := observingGroups [.float .zero]

/-- The copy was made at the beginning of time. -/
def copiedAtEpoch : ItemDelta where
  path := .cachingMetadata
  replace := some [encode ({ retrievedAt := .epoch } : CachingMetadata)]

/-- The negative zero was not observed. -/
def zerosDelta : Delta :=
  [{ path := .attributeValues (.unqualified "groups"), delete := [.float Binary64.zero.neg] },
    copiedAtEpoch]

theorem delta_zeros : zeroContext.delta zerosStored zeroObserved none .live = .ok zerosDelta := by
  decide +kernel

/-- **A zero that was observed is lost** by a rule that tells both zeros apart: the negative one is
to go, and both go with it. -/
theorem zero_lost :
    zeroContext.rules.Idempotent ∧
      Unambiguous zeroContext.definition zerosStored zeroObserved ∧
      zeroContext.strategy.retention = .ok .readable ∧
      zeroContext.delta zerosStored zeroObserved none .live = .ok zerosDelta ∧
      (zerosDelta.appliedTo zerosStored).valuesAt (.unqualified "groups") = [] ∧
      ¬ zeroContext.Aligned .readable zerosStored (zerosDelta.appliedTo zerosStored) none
        zeroObserved := by
  have hnone : (zerosDelta.appliedTo zerosStored).valuesAt (.unqualified "groups") = [] := by
    decide +kernel
  refine ⟨zeroContext_idempotent, groups_unambiguous _ _, rfl, delta_zeros, hnone,
    fun haligned => ?_⟩
  obtain ⟨p, hp, hcomplete, hname, hvalues⟩ :
      ∃ p ∈ zeroContext.persisted .readable zeroObserved, p.2.incomplete = false ∧
        zerosStored.storedName p.1.name = .unqualified "groups" ∧ p.2.values ≠ [] := by
    decide +kernel
  obtain ⟨rule, -, hline⟩ := haligned.complete p hp hcomplete
  rw [hname, hnone] at hline
  exact hvalues hline.eq_nil

/-! ### The second round -/

/-- Attributes all of whose values were observed are in line already. -/
theorem attributeDelta_appliedTo (hrules : ctx.rules.Idempotent)
    (hsame : ctx.rules.RespectsSameness) (h : Unambiguous ctx.definition s o)
    (hr : ctx.strategy.retention = .ok retention) (hd : ctx.delta s o known lifecycle = .ok d)
    (hp : p ∈ ctx.persisted retention o) (hcomplete : p.2.incomplete = false)
    (known' : Option Delta) :
    ctx.attributeDelta (d.appliedTo s) known' p.1 p.2 = .ok [] := by
  obtain ⟨rule, hrule, hline⟩ := inLine_appliedTo hrules hsame h hr hd hp hcomplete
  rw [attributeDelta_of_complete hcomplete, completeDelta_eq_nil_iff hrule,
    h.valuesAt_storedName (namesLike_appliedTo hr hd) (name_mem_of_mem_persisted hp)]
  exact hline

/-- No attribute is stale a second time. -/
theorem staleDelta_appliedTo (h : Unambiguous ctx.definition s o)
    (hr : ctx.strategy.retention = .ok retention) (hd : ctx.delta s o known lifecycle = .ok d) :
    ctx.staleDelta retention (d.appliedTo s) o = [] := by
  refine List.eq_nil_iff_forall_not_mem.2 fun m hm => ?_
  obtain ⟨name, hno, hne, -⟩ := mem_staleDelta_iff.1 hm
  -- Names that were handled in the first round are handled in the second.
  by_cases hhandled : name ∈ ctx.handledNames retention s o
  · obtain ⟨p, hp, rfl⟩ := mem_handledNames_iff.1 hhandled
    -- What is stored there is found under the same name again.
    have hkey : s.storedName p.1.name ∈ (d.appliedTo s).attributes.keys := by
      by_cases hk : s.storedName p.1.name ∈ (d.appliedTo s).attributes.keys
      · exact hk
      · exact absurd (Shadow.valuesAt_eq_nil hk) hne
    have hname := h.storedName_eq_of_mem (namesLike_appliedTo hr hd)
      (name_mem_of_mem_persisted hp) hkey
    exact hno (mem_handledNames_iff.2 ⟨p, hp, hname⟩)
  · exact hne (valuesAt_appliedTo_of_not_handled hr hd hhandled)

/-- **To reconcile with the same observation again**, at whatever time and whatever is known by
then, leads to no modification, but for the time of the copy where this is kept, by rules that are
idempotent and respect sameness. -/
theorem delta_appliedTo (hrules : ctx.rules.Idempotent) (hsame : ctx.rules.RespectsSameness)
    (h : Unambiguous ctx.definition s o)
    (hcomplete : ∀ e ∈ o.attributes.entries, e.2.incomplete = false)
    (hclasses : ∀ n ∈ o.auxiliaryClasses.toList, n.WellFormed)
    (htimes : o.activation.ReadsBack) (hr : ctx.strategy.retention = .ok retention)
    (hd : ctx.delta s o known lifecycle = .ok d) (later : Instant) (known' : Option Delta) :
    { ctx with now := later }.delta (d.appliedTo s) o known' lifecycle =
      match retention with
      | .identifiersOnly => .ok []
      | .readable =>
        let metadata : CachingMetadata := { retrievedAt := later }
        .ok [{ path := .cachingMetadata, replace := some [encode metadata] }] := by
  have hkept : ∀ p ∈ ctx.persisted retention o, p.2.incomplete = false := by
    intro p hp
    obtain ⟨name, hname, -⟩ := mem_persisted_iff.1 hp
    exact hcomplete _ (SortedMap.mem_entries_iff.2 hname)
  -- Every attribute that is kept calls for nothing any more.
  have hparts : List.Forall₂
      (fun p part => ctx.attributeDelta (d.appliedTo s) known' p.1 p.2 = .ok part)
      (ctx.persisted retention o) ((ctx.persisted retention o).map fun _ => []) := by
    rw [List.forall₂_map_right_iff, List.forall₂_same]
    exact fun p hp => attributeDelta_appliedTo hrules hsame h hr hd hp (hkept p hp) known'
  have hitems := itemsDelta_appliedTo hclasses htimes hkept
    (fun path hpath => ofItem_delta_of_ne hr hd hpath) later known'
  have hstale := staleDelta_appliedTo h hr hd
  have hsecond : { ctx with now := later }.delta (d.appliedTo s) o known' lifecycle =
      .ok (List.flatten ((ctx.persisted retention o).map fun _ => []) ++
        ctx.staleDelta retention (d.appliedTo s) o ++
        { ctx with now := later }.itemsDelta retention (d.appliedTo s) known' o lifecycle) :=
    (@delta_eq_ok_iff { ctx with now := later } _ _ _ _ _ _ hr).2 ⟨_, hparts, rfl⟩
  rw [hsecond, hstale, hitems]
  cases retention <;> simp

theorem delta_appliedTo_sample : ∃ d,
    sampleContext.delta sampleShadow sampleObservation none .live = .ok d ∧
      sampleContext.delta (d.appliedTo sampleShadow) sampleObservation none .live =
        .ok [{
          path := .cachingMetadata
          replace := some [encode ({ retrievedAt := .epoch } : CachingMetadata)] }] :=
  ⟨_, rfl, delta_appliedTo sampleContext_idempotent sampleContext_respectsSameness
    sample_unambiguous (by decide +kernel) (by decide +kernel) (by decide +kernel) rfl rfl .epoch
    none⟩

/-- **The zero that was lost comes back**, when the same is observed again. -/
theorem zero_comes_back :
    zeroContext.rules.Idempotent ∧
      Unambiguous zeroContext.definition zerosStored zeroObserved ∧
      (∀ e ∈ zeroObserved.attributes.entries, e.2.incomplete = false) ∧
      (∀ n ∈ zeroObserved.auxiliaryClasses.toList, n.WellFormed) ∧
      zeroObserved.activation.ReadsBack ∧
      zeroContext.strategy.retention = .ok .readable ∧
      zeroContext.delta zerosStored zeroObserved none .live = .ok zerosDelta ∧
      zeroContext.delta (zerosDelta.appliedTo zerosStored) zeroObserved none .live =
        .ok [{ path := .attributeValues (.qualified "ri" "groups"), add := [.float .zero] },
          copiedAtEpoch] :=
  ⟨zeroContext_idempotent, groups_unambiguous _ _, by decide +kernel, by decide +kernel,
    by decide +kernel, rfl, delta_zeros, by decide +kernel⟩

end Reconciler.ReconcileContext
