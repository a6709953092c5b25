/-
When a shadow cannot be reconciled.

* `ReconcileContext.NeedsRule`: the values of an observed attribute are compared, or reported ones
  are brought into normal form;
* `ReconcileContext.Consults`: an observed attribute is kept and its rule is needed;
* `ReconcileContext.withRules`: the context with other rules.

Main statements:
* `ReconcileContext.delta_eq_error_iff`: under a strategy that can be followed, the first kept
  attribute whose rule is needed and cannot be found decides on the error;
* `ReconcileContext.delta_withRules`: which rules all other attributes have makes no difference;
* `ReconcileContext.delta_fails_iff`: there is an error just when the strategy cannot be followed or
  the rule of an attribute is consulted and cannot be found.

Design notes:
* Names may be taken for one another here, and several observed names may stand for one attribute.
-/
import Reconciler.Proofs.Results
import Reconciler.Proofs.Shadow.Reports
import Reconciler.Proofs.Shadow.Retention

namespace Reconciler

namespace ReconcileContext

variable {ctx : ReconcileContext} {retention : Retention} {s : Shadow} {known : Option Delta}
variable {o : Observation} {lifecycle : LifecycleState} {a : AttributeDefinition}
variable {p : AttributeDefinition × ObservedAttribute} {v : SchemaViolation}

/-! ### Attributes whose rules are needed -/

/-- The rule of an observed attribute is needed if all its values were observed or some change of it
was reported. -/
def NeedsRule (known : Option Delta) (a : AttributeDefinition) (observed : ObservedAttribute) :
    Prop :=
  observed.incomplete = false ∨
    ∃ changes, known = some changes ∧
      ∃ m ∈ changes, ∃ n, m.path = .attributeValues n ∧ n.agrees a.name = true

/-- The rule of an attribute is looked up: the attribute was observed under some name, it is kept,
and its rule is needed. -/
def Consults (ctx : ReconcileContext) (known : Option Delta) (o : Observation)
    (a : AttributeDefinition) : Prop :=
  ∃ name observed retention, o.attributes.get? name = some observed ∧
    ctx.definition.findAttribute? name = some a ∧ ctx.strategy.retention = .ok retention ∧
      ctx.isPersisted retention a = true ∧ NeedsRule known a observed

theorem consults_iff (hr : ctx.strategy.retention = .ok retention) :
    ctx.Consults known o a ↔
      ∃ observed, (a, observed) ∈ ctx.persisted retention o ∧ NeedsRule known a observed := by
  simp only [mem_persisted_iff]
  constructor
  · rintro ⟨name, observed, retention', ho, hf, hr', hk, hneeds⟩
    rw [hr] at hr'
    cases hr'
    exact ⟨observed, ⟨name, ho, hf, hk⟩, hneeds⟩
  · rintro ⟨observed, ⟨name, ho, hf, hk⟩, hneeds⟩
    exact ⟨name, observed, retention, ho, hf, hr, hk, hneeds⟩

/-- An attribute whose rule is not needed keeps its values. -/
theorem attributeDelta_of_not_needsRule (h : ¬NeedsRule known p.1 p.2) :
    ctx.attributeDelta s known p.1 p.2 = .ok [] := by
  obtain ⟨hincomplete, hunreported⟩ := not_or.1 h
  rw [attributeDelta_of_incomplete (by simpa using hincomplete)]
  cases known with
  | none => rfl
  | some changes =>
    have hnone : changes.ofAgreeing p.1.name = [] := List.eq_nil_iff_forall_not_mem.2 fun m hm =>
      hunreported ⟨changes, rfl, m, Delta.mem_ofAgreeing_iff.1 hm⟩
    exact incompleteDelta_of_unreported hnone

theorem completeDelta_eq_error_iff {name : ItemName} {values : List Json} :
    ctx.completeDelta s a name values = .error v ↔ ctx.ruleOf a = .error v := by
  cases hr : ctx.ruleOf a with
  | error e => simp [completeDelta, hr, bind, Except.bind]
  | ok rule => simp [completeDelta_of_ruleOf hr]

theorem incompleteDelta_eq_error_iff {name : ItemName} :
    ctx.incompleteDelta known a name = .error v ↔
      (∃ changes, known = some changes ∧ ∃ m, m ∈ changes.ofAgreeing a.name) ∧
        ctx.ruleOf a = .error v := by
  cases known with
  | none =>
    constructor
    · intro h
      cases h
    · rintro ⟨⟨changes, h, -⟩, -⟩
      cases h
  | some changes =>
    simp only [Option.some.injEq, exists_eq_left']
    cases hreports : changes.ofAgreeing a.name with
    | nil => simp [incompleteDelta_of_unreported hreports]
    | cons m later =>
      rw [incompleteDelta_of_reported hreports]
      cases ctx.ruleOf a <;> simp [Except.map]

/-- An attribute fails for want of its rule, and only if that is needed. -/
theorem attributeDelta_eq_error_iff :
    ctx.attributeDelta s known p.1 p.2 = .error v ↔
      NeedsRule known p.1 p.2 ∧ ctx.ruleOf p.1 = .error v := by
  unfold NeedsRule
  cases hi : p.2.incomplete with
  | false =>
    rw [attributeDelta_of_complete hi, completeDelta_eq_error_iff]
    simp
  | true =>
    rw [attributeDelta_of_incomplete hi, incompleteDelta_eq_error_iff]
    simp [Delta.mem_ofAgreeing_iff]

theorem exists_attributeDelta_iff :
    (∃ d, ctx.attributeDelta s known p.1 p.2 = .ok d) ↔
      (NeedsRule known p.1 p.2 → ∃ rule, ctx.ruleOf p.1 = .ok rule) := by
  cases hd : ctx.attributeDelta s known p.1 p.2 with
  | ok d =>
    refine ⟨fun _ hneeds => ?_, fun _ => ⟨d, rfl⟩⟩
    cases hr : ctx.ruleOf p.1 with
    | ok rule => exact ⟨rule, rfl⟩
    | error v =>
      rw [attributeDelta_eq_error_iff.2 ⟨hneeds, hr⟩] at hd
      cases hd
  | error v =>
    obtain ⟨hneeds, hr⟩ := attributeDelta_eq_error_iff.1 hd
    simp [hneeds, hr]

/-! ### The whole delta -/

theorem delta_eq_error_iff_mapM (hr : ctx.strategy.retention = .ok retention)
    {e : ProvisioningError} :
    ctx.delta s o known lifecycle = .error e ↔
      ∃ v, ((ctx.persisted retention o).mapM fun p => ctx.attributeDelta s known p.1 p.2) =
          .error v ∧ e = .schemaViolation v := by
  rw [delta, hr]
  dsimp only
  unfold attributesDelta
  cases (ctx.persisted retention o).mapM fun p => ctx.attributeDelta s known p.1 p.2 with
  | error v => simp [bind, Except.bind, eq_comm]
  | ok parts => simp [bind, Except.bind, pure, Except.pure]

/-- The first kept attribute whose rule is needed and cannot be found decides on the error. -/
theorem delta_eq_error_iff (hr : ctx.strategy.retention = .ok retention) {e : ProvisioningError} :
    ctx.delta s o known lifecycle = .error e ↔
      ∃ earlier p later v, ctx.persisted retention o = earlier ++ p :: later ∧
        (∀ q ∈ earlier, NeedsRule known q.1 q.2 → ∃ rule, ctx.ruleOf q.1 = .ok rule) ∧
        NeedsRule known p.1 p.2 ∧ ctx.ruleOf p.1 = .error v ∧ e = .schemaViolation v := by
  rw [delta_eq_error_iff_mapM hr]
  constructor
  · rintro ⟨v, hv, rfl⟩
    obtain ⟨earlier, p, later, hlist, hearlier, hp⟩ := List.mapM_eq_error_iff.1 hv
    obtain ⟨hneeds, hrule⟩ := attributeDelta_eq_error_iff.1 hp
    exact ⟨earlier, p, later, v, hlist,
      fun q hq => exists_attributeDelta_iff.1 (hearlier q hq), hneeds, hrule, rfl⟩
  · rintro ⟨earlier, p, later, v, hlist, hearlier, hneeds, hrule, rfl⟩
    refine ⟨v, List.mapM_eq_error_iff.2 ⟨earlier, p, later, hlist, fun q hq => ?_, ?_⟩, rfl⟩
    · exact exists_attributeDelta_iff.2 (hearlier q hq)
    · exact attributeDelta_eq_error_iff.2 ⟨hneeds, hrule⟩

theorem exists_error_delta_iff (hr : ctx.strategy.retention = .ok retention) :
    (∃ e, ctx.delta s o known lifecycle = .error e) ↔
      ∃ a v, ctx.Consults known o a ∧ ctx.ruleOf a = .error v := by
  simp only [consults_iff hr]
  constructor
  · rintro ⟨e, he⟩
    obtain ⟨earlier, p, later, v, hlist, -, hneeds, hrule, -⟩ := (delta_eq_error_iff hr).1 he
    exact ⟨p.1, v, ⟨p.2, by simp [hlist], hneeds⟩, hrule⟩
  · rintro ⟨a, v, ⟨observed, hp, hneeds⟩, hrule⟩
    cases hd : ctx.delta s o known lifecycle with
    | error e => exact ⟨e, rfl⟩
    | ok d =>
      -- All attributes would have their modifications, and this one has none.
      obtain ⟨parts, hparts, -⟩ := (delta_eq_ok_iff hr).1 hd
      obtain ⟨part, -, hpart⟩ := (List.exists_of_forall₂ hparts).1 _ hp
      rw [attributeDelta_eq_error_iff.2 ⟨hneeds, hrule⟩] at hpart
      cases hpart

/-! ### Other rules -/

/-- The context in which rules are looked up elsewhere. -/
def withRules (ctx : ReconcileContext) (rules : RuleLookup) : ReconcileContext :=
  { ctx with rules := rules }

theorem attributeDelta_withRules {rules : RuleLookup}
    (h : NeedsRule known p.1 p.2 → (ctx.withRules rules).ruleOf p.1 = ctx.ruleOf p.1) :
    (ctx.withRules rules).attributeDelta s known p.1 p.2 = ctx.attributeDelta s known p.1 p.2 := by
  by_cases hneeds : NeedsRule known p.1 p.2
  · unfold attributeDelta completeDelta incompleteDelta
    rw [h hneeds]
    rfl
  · rw [attributeDelta_of_not_needsRule hneeds, attributeDelta_of_not_needsRule hneeds]

/-- Rules are looked up of no attributes but those that were observed and kept and need them. -/
theorem delta_withRules {rules : RuleLookup}
    (h : ∀ a, ctx.Consults known o a → (ctx.withRules rules).ruleOf a = ctx.ruleOf a) :
    (ctx.withRules rules).delta s o known lifecycle = ctx.delta s o known lifecycle := by
  cases hr : ctx.strategy.retention with
  | error e =>
    have hr' : (ctx.withRules rules).strategy.retention = .error e := hr
    rw [delta, delta, hr, hr']
  | ok retention =>
    have hr' : (ctx.withRules rules).strategy.retention = .ok retention := hr
    have hparts : ((ctx.withRules rules).persisted retention o).mapM
        (fun p => (ctx.withRules rules).attributeDelta s known p.1 p.2) =
          (ctx.persisted retention o).mapM fun p => ctx.attributeDelta s known p.1 p.2 :=
      List.mapM_congr_of_mem fun p hp => attributeDelta_withRules fun hneeds =>
        h p.1 ((consults_iff hr).2 ⟨p.2, hp, hneeds⟩)
    have hattributes : (ctx.withRules rules).attributesDelta retention s known o =
        ctx.attributesDelta retention s known o := by
      rw [attributesDelta, hparts]
      rfl
    rw [delta, delta, hr, hr']
    dsimp only
    rw [hattributes]
    rfl

theorem exists_other_of_retention {e : Misconfiguration}
    (h : ctx.strategy.retention = .error e) : ∃ name, ctx.strategy = .other name := by
  cases hs : ctx.strategy with
  | other name => exact ⟨name, rfl⟩
  | none =>
    rw [hs] at h
    cases h
  | passive =>
    rw [hs] at h
    cases h

/-- **When a shadow cannot be reconciled.**  There is an error just when the strategy cannot be
followed or the rule of an observed attribute that is kept and needs it cannot be found.  The rules
of all other attributes make no difference at all. -/
theorem delta_fails_iff (ctx : ReconcileContext) (s : Shadow) (o : Observation)
    (known : Option Delta) (lifecycle : LifecycleState) :
    ((∃ e, ctx.delta s o known lifecycle = .error e) ↔
      (∃ name, ctx.strategy = .other name) ∨
        ∃ a v, ctx.Consults known o a ∧ ctx.ruleOf a = .error v) ∧
    ∀ rules, (∀ a, ctx.Consults known o a → (ctx.withRules rules).ruleOf a = ctx.ruleOf a) →
      (ctx.withRules rules).delta s o known lifecycle = ctx.delta s o known lifecycle := by
  refine ⟨?_, fun rules h => delta_withRules h⟩
  cases hr : ctx.strategy.retention with
  | error e =>
    obtain ⟨name, hname⟩ := exists_other_of_retention hr
    exact iff_of_true ⟨_, ctx.delta_other s known hname o lifecycle⟩ (.inl ⟨name, hname⟩)
  | ok retention =>
    have hknown : ¬∃ name, ctx.strategy = .other name := by
      rintro ⟨name, hname⟩
      rw [hname] at hr
      cases hr
    rw [exists_error_delta_iff hr, or_iff_right hknown]

/-- As in `sampleContext`, with the rule of groups missing. -/
def untrimmedContext : ReconcileContext :=
  sampleContext.withRules fun name _ =>
    match name with
    | none => .ok .default
    | some name => .error (.unknownRule name)

/-- Without their rule groups cannot be compared, but they can be left alone. -/
theorem delta_fails_iff_sample :
    (∃ e, untrimmedContext.delta sampleShadow sampleObservation none .live = .error e) ∧
      (¬∃ e, untrimmedContext.delta sampleShadow partialObservation none .live = .error e) ∧
      untrimmedContext.delta sampleShadow partialObservation none .live =
        sampleContext.delta sampleShadow partialObservation none .live := by
  have hgroups : ∃ p ∈ untrimmedContext.persisted .readable sampleObservation,
      p.2.incomplete = false ∧ p.1.matchingRule = some "trimmed" := by
    decide +kernel
  have hothers : ∀ p ∈ sampleContext.persisted .readable partialObservation,
      p.2.incomplete = false → p.1.matchingRule = none := by
    decide +kernel
  have hnone : ∀ a, sampleContext.Consults none partialObservation a → a.matchingRule = none := by
    intro a ha
    obtain ⟨observed, hp, hneeds⟩ := (@consults_iff sampleContext .readable _ _ a rfl).1 ha
    rcases hneeds with hcomplete | ⟨changes, hknown, -⟩
    · exact hothers _ hp hcomplete
    · cases hknown
  obtain ⟨hfails, -⟩ := delta_fails_iff untrimmedContext sampleShadow sampleObservation none .live
  obtain ⟨hfails', -⟩ := delta_fails_iff untrimmedContext sampleShadow partialObservation none .live
  obtain ⟨-, hsame⟩ := delta_fails_iff sampleContext sampleShadow partialObservation none .live
  refine ⟨hfails.2 (.inr ?_), fun he => ?_, hsame untrimmedContext.rules fun a ha => ?_⟩
  · obtain ⟨p, hp, hcomplete, hrule⟩ := hgroups
    refine ⟨p.1, .unknownRule "trimmed", (consults_iff rfl).2 ⟨p.2, hp, .inl hcomplete⟩, ?_⟩
    show untrimmedContext.rules p.1.matchingRule _ = _
    rw [hrule]
    rfl
  · rcases hfails'.1 he with ⟨name, hother⟩ | ⟨a, v, ha, hrule⟩
    · cases hother
    · change untrimmedContext.rules a.matchingRule _ = _ at hrule
      rw [hnone a ha] at hrule
      cases hrule
  · show untrimmedContext.rules a.matchingRule _ = sampleContext.rules a.matchingRule _
    rw [hnone a ha]
    rfl

end ReconcileContext

end Reconciler
