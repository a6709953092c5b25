/-
Shadows that are reconciled round after round.

* `MatchingRule.Normal`: values that are distinct and their own normal forms;
* `ReconcileContext.Normalised`: all values that a shadow stores of known attributes are normal;
* `ReconcileContext.Round`: what one reconciliation goes by, and `after` a list of them;
* `ReconcileContext.WellKept`: what rounds go on from.

Main statements:
* `MatchingRule.Normal.modified`: modifications by normal values keep values normal;
* `Unambiguous.stored_of_namesLike`: stored names pair up with those of the definition for good;
* `ReconcileContext.normalised_appliedTo`: reconciling keeps a shadow normalised;
* `ReconcileContext.normalised_after`: so does every round of a run, whatever is observed and
  reported in them.

Design notes:
* Stored names are those of earlier observations, so that they only pair up with the names of the
  definition, and the rule of a stored attribute is found by any name that agrees with its own.
* What is reported of an attribute may be of any name and any value.
-/
import Mathlib.Data.List.Find
import Reconciler.Proofs.Shadow.Convergence
import Reconciler.Proofs.Shadow.Retention

namespace Reconciler

/-! ### Normal values -/

/-- The values are distinct and their own normal forms. -/
structure MatchingRule.Normal (rule : MatchingRule) (values : List Json) : Prop where
  distinct : values.Pairwise fun v w => v.same w = false
  normal : ∀ v ∈ values, (rule.normalize v).same v = true

namespace MatchingRule

variable {rule : MatchingRule} {values others : List Json} {v : Json}

theorem normal_nil (rule : MatchingRule) : rule.Normal [] := ⟨.nil, List.forall_mem_nil _⟩

theorem normal_normalForms (hi : rule.Idempotent) (values : List Json) :
    rule.Normal (rule.normalForms values) where
  distinct := normalForms_nodup rule values
  normal v hv := by
    obtain ⟨w, -, rfl⟩ := exists_of_mem_normalForms hv
    exact hi w

theorem Normal.sublist (h : rule.Normal values) (hs : others.Sublist values) :
    rule.Normal others where
  distinct := h.distinct.sublist hs
  normal v hv := h.normal v (hs.subset hv)

theorem Normal.addValue (h : rule.Normal values) (hv : (rule.normalize v).same v = true) :
    rule.Normal (ItemDelta.addValue values v) := by
  unfold ItemDelta.addValue
  split
  · exact h
  · next hnew =>
    refine ⟨List.pairwise_append.2 ⟨h.distinct, List.pairwise_singleton _ _, fun w hw x hx => ?_⟩,
      List.forall_mem_append.2 ⟨h.normal, List.forall_mem_singleton.2 hv⟩⟩
    -- A value that is added differs from all that are there.
    cases List.mem_singleton.1 hx
    rw [Bool.eq_false_iff]
    exact fun hsame => hnew (Json.isIn_iff.2 ⟨w, hw, Json.same_symm hsame⟩)

theorem Normal.foldl_addValue (h : rule.Normal values)
    (hothers : ∀ v ∈ others, (rule.normalize v).same v = true) :
    rule.Normal (others.foldl ItemDelta.addValue values) := by
  induction others generalizing values with
  | nil => exact h
  | cons v others ih =>
    obtain ⟨hv, hothers⟩ := List.forall_mem_cons.1 hothers
    exact ih (h.addValue hv) hothers

/-- A modification that adds and writes normal values only keeps values normal, whatever it
deletes. -/
theorem Normal.modified (h : rule.Normal values) {m : ItemDelta}
    (hadd : ∀ v ∈ m.add, (rule.normalize v).same v = true)
    (hreplace : ∀ written, m.replace = some written → rule.Normal written) :
    rule.Normal (m.modified values) := by
  unfold ItemDelta.modified
  cases hm : m.replace with
  | some written => exact hreplace written hm
  | none => exact (h.sublist List.filter_sublist).foldl_addValue hadd

end MatchingRule

/-! ### Finding attributes by name -/

/-- Where just one name agrees with another, both find the same. -/
theorem ItemName.find?_eq_of_agrees {α : Type} {nameOf : α → ItemName} {items : List α}
    {name n : ItemName} (h : ∀ a ∈ items, (nameOf a).agrees name = true ↔ nameOf a = n) :
    ItemName.find? nameOf items name = items.find? fun a => nameOf a == n := by
  have hagrees : (items.find? fun a => (nameOf a).agrees name) =
      items.find? fun a => nameOf a == n := by
    refine List.find?_congr fun a ha => ?_
    rw [Bool.eq_iff_iff, h a ha, beq_iff_eq]
  unfold find?
  cases hexact : items.find? fun a => nameOf a == name with
  | none => exact hagrees
  | some a =>
    -- An item with exactly this name has the one that agrees.
    have ha : nameOf a = name := by simpa using List.find?_some hexact
    have hn : nameOf a = n := by
      rw [← h a (List.mem_of_find?_eq_some hexact), ha]
      exact agrees_refl name
    show some a = _
    rw [← hexact, ← hn, ← ha]

theorem ItemName.find?_congr {α : Type} {nameOf : α → ItemName} {items : List α}
    {name other n : ItemName} (h : ∀ a ∈ items, (nameOf a).agrees name = true ↔ nameOf a = n)
    (h' : ∀ a ∈ items, (nameOf a).agrees other = true ↔ nameOf a = n) :
    ItemName.find? nameOf items name = ItemName.find? nameOf items other :=
  (find?_eq_of_agrees h).trans (find?_eq_of_agrees h').symm

theorem ObjectDefinition.findAttribute?_congr {d : ObjectDefinition} {name other n : ItemName}
    (h : ∀ a ∈ d.knownAttributes, a.name.agrees name = true ↔ a.name = n)
    (h' : ∀ a ∈ d.knownAttributes, a.name.agrees other = true ↔ a.name = n) :
    d.findAttribute? name = d.findAttribute? other := by
  cases d with
  | ofClass c => exact ItemName.find?_congr h h'
  | ofType t =>
    obtain ⟨hown, hclass⟩ := List.forall_mem_append.1 h
    obtain ⟨hown', hclass'⟩ := List.forall_mem_append.1 h'
    show (ItemName.find? _ _ _ <|> ItemName.find? _ _ _) =
      (ItemName.find? _ _ _ <|> ItemName.find? _ _ _)
    rw [ItemName.find?_congr hown hown', ItemName.find?_congr hclass hclass']

/-- Names that agree with just one and the same name of a definition stand for one attribute. -/
theorem CompositeDefinition.findAttribute?_congr {d : CompositeDefinition}
    {name other n : ItemName} (h : ∀ m ∈ d.attributeNames, m.agrees name = true ↔ m = n)
    (h' : ∀ m ∈ d.attributeNames, m.agrees other = true ↔ m = n) :
    d.findAttribute? name = d.findAttribute? other := by
  have hall := List.forall_mem_append.1 (List.forall_mem_map.1 h)
  have hall' := List.forall_mem_append.1 (List.forall_mem_map.1 h')
  have hauxiliary : (d.auxiliary.findSome? (·.findAttribute? name)) =
      d.auxiliary.findSome? (·.findAttribute? other) := by
    rw [← List.head?_filterMap, ← List.head?_filterMap]
    refine congrArg List.head? (List.filterMap_congr fun c hc => ?_)
    have hown : ∀ a ∈ c.attributes, a ∈ d.auxiliary.flatMap ObjectClass.attributes :=
      fun a ha => List.mem_flatMap.2 ⟨c, hc, ha⟩
    exact (ObjectDefinition.ofClass c).findAttribute?_congr (fun a ha => hall.2 a (hown a ha))
      fun a ha => hall'.2 a (hown a ha)
  unfold findAttribute?
  rw [ObjectDefinition.findAttribute?_congr hall.1 hall'.1, hauxiliary]

/-! ### Stored names -/

namespace Unambiguous

variable {d : CompositeDefinition} {s t : Shadow} {o : Observation} {name n : ItemName}

/-- Stored names still pair up with those of the definition in a shadow that names attributes
alike. -/
theorem stored_of_namesLike (h : Unambiguous d s o) (ht : NamesLike d s t) :
    ItemName.OneToOne d.attributeNames t.attributes.keys := by
  constructor
  · intro n hn m hm m' hm' ha ha'
    rw [h.eq_storedName_of_namesLike ht hn hm ha, h.eq_storedName_of_namesLike ht hn hm' ha']
  · intro m hm n hn n' hn' ha ha'
    rcases ht m hm with hs | ⟨first, hfirst, rfl⟩
    · exact h.stored.2 m hs n hn n' hn' ha ha'
    · rcases s.storedName_mem_or first with hs | ⟨hs, -⟩
      · exact h.stored.2 _ hs n hn n' hn' ha ha'
      · rw [hs] at ha ha'
        exact (h.defined first hfirst n hn ha).symm.trans (h.defined first hfirst n' hn' ha')

/-- A name that an attribute is stored under agrees with no name of the definition but its own. -/
theorem agrees_storedName_iff (h : Unambiguous d s o) (hn : n ∈ d.attributeNames) {m : ItemName}
    (hm : m ∈ d.attributeNames) : m.agrees (s.storedName n) = true ↔ m = n := by
  have hown : (s.storedName n).agrees n = true := s.storedName_agrees n
  constructor
  · intro ha
    rw [ItemName.agrees_comm] at ha
    rcases s.storedName_mem_or n with hs | ⟨hs, -⟩
    · exact h.stored.2 _ hs m hm n hn ha hown
    · rw [hs] at ha
      exact (h.defined n hn m hm ha).symm
  · rintro rfl
    rwa [ItemName.agrees_comm]

theorem agrees_observed_iff (h : Unambiguous d s o) (hname : name ∈ o.attributes.keys)
    (hn : n ∈ d.attributeNames) (hown : n.agrees name = true) {m : ItemName}
    (hm : m ∈ d.attributeNames) : m.agrees name = true ↔ m = n := by
  constructor
  · intro ha
    rw [ItemName.agrees_comm] at ha hown
    exact h.observed.2 name hname m hm n hn ha hown
  · rintro rfl
    exact hown

/-- What is stored of an observed attribute is found to be of that attribute. -/
theorem findAttribute?_storedName (h : Unambiguous d s o) (hname : name ∈ o.attributes.keys)
    {a : AttributeDefinition} (ha : d.findAttribute? name = some a) :
    d.findAttribute? (s.storedName a.name) = some a := by
  obtain ⟨hn, hown⟩ := CompositeDefinition.mem_of_findAttribute? ha
  rw [← ha]
  exact CompositeDefinition.findAttribute?_congr (fun m hm => h.agrees_storedName_iff hn hm)
    fun m hm => h.agrees_observed_iff hname hn hown hm

end Unambiguous

/-! ### One round -/

namespace ReconcileContext

variable {ctx : ReconcileContext} {retention : Retention} {s : Shadow} {known : Option Delta}
variable {o : Observation} {lifecycle : LifecycleState} {d : Delta} {a : AttributeDefinition}
variable {name : ItemName} {rule : MatchingRule} {values : List Json}

/-- All values that are stored of attributes of the definition are normal under their rules. -/
def Normalised (ctx : ReconcileContext) (s : Shadow) : Prop :=
  ∀ name a rule, ctx.definition.findAttribute? name = some a → ctx.ruleOf a = .ok rule →
    rule.Normal (s.valuesAt name)

theorem normal_singleDelta (hi : rule.Idempotent) {stored : List Json} (h : rule.Normal stored) :
    rule.Normal
      (Delta.modified (singleDelta rule name stored (rule.normalForms values)) stored) := by
  rcases singleDelta_eq_nil_or rule name stored (rule.normalForms values) with hd | hd
  · rw [hd]
    exact h
  · rw [hd]
    exact (MatchingRule.normal_normalForms hi values).sublist (List.take_sublist _ _)

theorem normal_multiDelta (hi : rule.Idempotent) {stored : List Json} (h : rule.Normal stored) :
    rule.Normal ((multiDelta rule name stored (rule.normalForms values)).modified stored) := by
  refine h.modified (fun v hv => ?_) nofun
  exact (MatchingRule.normal_normalForms hi values).normal v (List.mem_filter.1 hv).1

theorem normal_normalizedDelta (hi : rule.Idempotent) {stored : List Json}
    (h : rule.Normal stored) (m : ItemDelta) :
    rule.Normal ((normalizedDelta rule name m).modified stored) := by
  refine h.modified (MatchingRule.normal_normalForms hi m.add).normal fun written hw => ?_
  obtain ⟨reported, -, rfl⟩ := Option.map_eq_some_iff.1 hw
  exact MatchingRule.normal_normalForms hi reported

/-- The modifications of an attribute all of whose values were observed keep values normal. -/
theorem normal_completeDelta (hr : ctx.ruleOf a = .ok rule) (hi : rule.Idempotent)
    (h : rule.Normal (s.valuesAt name)) (hd : ctx.completeDelta s a name values = .ok d) :
    rule.Normal (d.modified (s.valuesAt name)) := by
  by_cases hnone : s.valuesAt name = []
  · rw [hnone, modified_completeDelta_of_nil hr hnone hd]
    exact MatchingRule.normal_normalForms hi values
  · rw [completeDelta_of_ruleOf hr, if_neg (by rwa [List.isEmpty_iff])] at hd
    cases hd
    split
    · exact normal_singleDelta hi h
    · rw [Delta.modified_push_nil]
      exact normal_multiDelta hi h

/-- So do those of an attribute some of whose values were observed, whatever is reported. -/
theorem normal_incompleteDelta (hr : ctx.ruleOf a = .ok rule) (hi : rule.Idempotent)
    (h : rule.Normal values) (hd : ctx.incompleteDelta known a name = .ok d) :
    rule.Normal (d.modified values) := by
  unfold incompleteDelta at hd
  split at hd
  · cases hd
    exact h
  · next m _ =>
    rw [hr] at hd
    cases hd
    rw [Delta.modified_push_nil]
    exact normal_normalizedDelta hi h m

/-- Reconciling keeps a shadow normalised. -/
theorem normalised_appliedTo (hrules : ctx.rules.Idempotent) (h : Unambiguous ctx.definition s o)
    (hd : ctx.delta s o known lifecycle = .ok d) (hs : ctx.Normalised s) :
    ctx.Normalised (d.appliedTo s) := by
  obtain ⟨retention, hr⟩ := exists_retention_of_delta hd
  intro name a rule ha hrule
  by_cases hhandled : name ∈ ctx.handledNames retention s o
  · obtain ⟨p, hp, rfl⟩ := mem_handledNames_iff.1 hhandled
    -- What is stored there is of the attribute that was observed, and only that modifies it.
    obtain ⟨observed, hobserved, hfound, -⟩ := mem_persisted_iff.1 hp
    have hkey : observed ∈ o.attributes.keys := by
      rw [SortedMap.mem_keys_iff, hobserved]
      rfl
    rw [h.findAttribute?_storedName hkey hfound] at ha
    cases ha
    have hbefore : rule.Normal (s.valuesAt (s.storedName p.1.name)) :=
      hs _ _ _ (h.findAttribute?_storedName hkey hfound) hrule
    have hi : rule.Idempotent := hrules _ _ _ hrule
    have hown := attributeDelta_eq_ofItem h hr hd hp
    rw [Delta.valuesAt_appliedTo]
    unfold attributeDelta at hown
    dsimp only at hown
    split at hown
    · exact normal_incompleteDelta hrule hi hbefore hown
    · exact normal_completeDelta hrule hi hbefore hown
  · rw [valuesAt_appliedTo_of_not_handled hr hd hhandled]
    exact MatchingRule.normal_nil rule

/-! ### Many rounds -/

/-- What one reconciliation goes by, besides the definition and its rules. -/
structure Round where
  strategy : CachingStrategy
  now : Instant
  largeValueSetThreshold : Nat
  observation : Observation
  known : Option Delta
  lifecycle : LifecycleState

/-- Reconciling in one round, by the same definition and rules. -/
def during (ctx : ReconcileContext) (r : Round) : ReconcileContext :=
  { ctx with
    strategy := r.strategy, now := r.now, largeValueSetThreshold := r.largeValueSetThreshold }

/-- The shadow after one round; if no delta can be told, it stays as it is. -/
def carryOut (ctx : ReconcileContext) (s : Shadow) (r : Round) : Shadow :=
  match (ctx.during r).delta s r.observation r.known r.lifecycle with
  | .ok d => d.appliedTo s
  | .error _ => s

/-- The shadow after some rounds. -/
def after (ctx : ReconcileContext) (s : Shadow) (rounds : List Round) : Shadow :=
  rounds.foldl ctx.carryOut s

/-- What rounds go on from: stored names pair up with those of the definition, and all values of
its attributes are normal. -/
structure WellKept (ctx : ReconcileContext) (s : Shadow) : Prop where
  stored : ItemName.OneToOne ctx.definition.attributeNames s.attributes.keys
  normalised : ctx.Normalised s

theorem WellKept.carryOut (hrules : ctx.rules.Idempotent)
    (hdefined : ∀ n ∈ ctx.definition.attributeNames, ∀ n' ∈ ctx.definition.attributeNames,
      n.agrees n' → n = n')
    (hs : ctx.WellKept s) {r : Round}
    (hobserved : ItemName.OneToOne ctx.definition.attributeNames r.observation.attributes.keys) :
    ctx.WellKept (ctx.carryOut s r) := by
  have h : Unambiguous (ctx.during r).definition s r.observation := ⟨hdefined, hs.stored, hobserved⟩
  unfold ReconcileContext.carryOut
  split
  · next d hd =>
    obtain ⟨retention, hr⟩ := exists_retention_of_delta hd
    have hround : (ctx.during r).Normalised (d.appliedTo s) :=
      normalised_appliedTo hrules h hd hs.normalised
    exact ⟨h.stored_of_namesLike (namesLike_appliedTo hr hd), hround⟩
  · exact hs

theorem WellKept.after (hrules : ctx.rules.Idempotent)
    (hdefined : ∀ n ∈ ctx.definition.attributeNames, ∀ n' ∈ ctx.definition.attributeNames,
      n.agrees n' → n = n')
    (hs : ctx.WellKept s) {rounds : List Round}
    (hobserved : ∀ r ∈ rounds,
      ItemName.OneToOne ctx.definition.attributeNames r.observation.attributes.keys) :
    ctx.WellKept (ctx.after s rounds) := by
  induction rounds generalizing s with
  | nil => exact hs
  | cons r rounds ih =>
    obtain ⟨hr, hrounds⟩ := List.forall_mem_cons.1 hobserved
    exact ih (hs.carryOut hrules hdefined hr) hrounds

/-- A shadow all of whose values are distinct and normal has no others after any round of any run,
whatever is observed in the rounds, whatever is reported of attributes that were observed in part,
and under whichever strategies they are carried out. -/
theorem normalised_after (hrules : ctx.rules.Idempotent)
    (hdefined : ∀ n ∈ ctx.definition.attributeNames, ∀ n' ∈ ctx.definition.attributeNames,
      n.agrees n' → n = n')
    (hstored : ItemName.OneToOne ctx.definition.attributeNames s.attributes.keys)
    (hs : ctx.Normalised s) {rounds : List Round}
    (hobserved : ∀ r ∈ rounds,
      ItemName.OneToOne ctx.definition.attributeNames r.observation.attributes.keys)
    {earlier : List Round} (he : earlier <+: rounds) :
    ctx.Normalised (ctx.after s earlier) :=
  (WellKept.after hrules hdefined ⟨hstored, hs⟩ fun r hr =>
    hobserved r (he.subset hr)).normalised

/-- Groups in normal form. -/
def normalShadow : Shadow :=
  { sampleShadow with
    attributes := .ofList [(.unqualified "groups", [.str "a", .str "b"]),
      (.unqualified "old", [.int 1])] }

/-- First groups are observed with blanks around them and twice, then only some are, while a change
of others is reported. -/
def sampleRounds : List Round :=
  [{ strategy := .passive, now := .epoch, largeValueSetThreshold := 100
     observation := sampleObservation, known := none, lifecycle := .live },
   { strategy := .passive, now := .epoch, largeValueSetThreshold := 100
     observation := { sampleObservation with
       attributes := .ofList [(.unqualified "groups", { values := [], incomplete := true })] }
     known := some [{
       path := .attributeValues (.unqualified "groups")
       add := [.str " d", .str "d "], delete := [.str "a "] }]
     lifecycle := .live }]

theorem normalShadow_normalised : sampleContext.Normalised normalShadow := by
  intro name a rule ha hrule
  by_cases hk : name ∈ normalShadow.attributes.keys
  · have hkeys : normalShadow.attributes.keys = [.unqualified "groups", .unqualified "old"] := by
      decide +kernel
    rw [hkeys, List.mem_pair] at hk
    rcases hk with rfl | rfl
    · have hgroups : sampleContext.definition.findAttribute? (.unqualified "groups") =
          some { AttributeDefinition.new (.qualified "ri" "groups") with
            maxOccurs := none, matchingRule := some "trimmed" } := by decide +kernel
      cases hgroups.symm.trans ha
      cases hrule
      exact ⟨by decide +kernel, by decide +kernel⟩
    · have hold : sampleContext.definition.findAttribute? (.unqualified "old") = none := by
        decide +kernel
      cases hold.symm.trans ha
  · rw [Shadow.valuesAt_eq_nil hk]
    exact MatchingRule.normal_nil rule

theorem normalised_after_sample :
    (sampleContext.after normalShadow sampleRounds).valuesAt (.unqualified "groups") =
        [.str "c", .str "d"] ∧
      sampleContext.Normalised (sampleContext.after normalShadow sampleRounds) := by
  refine ⟨by decide +kernel, ?_⟩
  exact normalised_after sampleContext_idempotent (by decide +kernel) (by decide +kernel)
    normalShadow_normalised (by decide +kernel) (List.prefix_refl _)

end ReconcileContext

end Reconciler
