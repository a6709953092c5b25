/-
How many values are stored of a single-valued attribute.

* `MatchingRule.Settles`: the values that a single-valued attribute comes to hold, by what it held
  and what was observed.

Main statements:
* `ReconcileContext.settles_of_completeDelta`: these are what its modifications make of the stored
  values;
* `ReconcileContext.single_iff_of_valuesAt_appliedTo`: no value is left if none was observed, and
  otherwise the first one stands for the first observed one; when it stands alone;
* `ReconcileContext.several_values_stay`: several values are stored at first, and stay.

Design notes:
* Only a change of the first value cuts the others off.  What was observed is stored as a whole
  where nothing was stored before, and what was stored stays as a whole while its first value does.
-/
import Reconciler.Proofs.Shadow.Convergence

namespace Reconciler

namespace MatchingRule

variable {rule : MatchingRule} {stored values after more : List Json} {v : Json}

/-- The values that a single-valued attribute comes to hold: all observed ones if it held none, what
it held if the first values have one form, and else the first observed one. -/
inductive Settles (rule : MatchingRule) (stored values : List Json) : List Json → Prop
  | fills (h : stored = []) : Settles rule stored values (rule.normalForms values)
  | keeps (h : stored ≠ []) (hfirst : stored.head?.map rule.form = values.head?.map rule.form) :
      Settles rule stored values stored
  | replaces (h : stored ≠ []) (hfirst : stored.head?.map rule.form ≠ values.head?.map rule.form) :
      Settles rule stored values ((rule.normalForms values).take 1)

theorem normalForms_cons (rule : MatchingRule) (v : Json) (more : List Json) :
    rule.normalForms (v :: more) =
      rule.normalize v ::
        (rule.normalForms more).filter fun w => !(rule.normalize v).same w := rfl

/-- No second normal form is listed just when all values have the form of the first. -/
theorem filter_normalForms_eq_nil_iff :
    ((rule.normalForms more).filter fun w => !(rule.normalize v).same w) = [] ↔
      ∀ x ∈ more, rule.form x = rule.form v := by
  simp only [List.filter_eq_nil_iff, Bool.not_eq_true', Bool.not_eq_false]
  constructor
  · intro hall x hx
    have hform : rule.form x ∈ (rule.normalForms more).map Json.unsigned :=
      mem_unsigned_normalForms_iff.2 (List.mem_map_of_mem hx)
    obtain ⟨w, hw, e⟩ := List.mem_map.1 hform
    exact e.symm.trans (Json.same_iff.1 (hall w hw)).symm
  · intro hall w hw
    obtain ⟨x, hx, rfl⟩ := exists_of_mem_normalForms hw
    exact Json.same_iff.2 (hall x hx).symm

/-- Without an observed value none is left. -/
theorem Settles.eq_nil (h : rule.Settles stored [] after) : after = [] := by
  cases h with
  | fills hnone => rfl
  | keeps hsome hfirst =>
    rw [List.head?_nil, Option.map_none, Option.map_eq_none_iff, List.head?_eq_none_iff] at hfirst
    exact hfirst
  | replaces hsome hfirst => rfl

/-- With one the first value stands for it, and there are others only if several forms were stored
at once or several values were kept. -/
theorem Settles.exists_eq_cons (hi : rule.Idempotent) (h : rule.Settles stored (v :: more) after) :
    ∃ w rest, after = w :: rest ∧ rule.form w = rule.form v ∧
      (rest = [] ↔ (stored = [] → ∀ x ∈ more, rule.form x = rule.form v) ∧
        (stored.head?.map rule.form = some (rule.form v) → stored.length = 1)) := by
  cases h with
  | fills hnone =>
    refine ⟨_, _, normalForms_cons rule v more, hi.form_normalize v, ?_⟩
    rw [filter_normalForms_eq_nil_iff, hnone]
    simp
  | keeps hsome hfirst =>
    obtain ⟨w, rest, rfl⟩ := List.exists_cons_of_ne_nil hsome
    have hform : rule.form w = rule.form v := Option.some.inj hfirst
    refine ⟨w, rest, rfl, hform, ?_⟩
    simp [hform]
  | replaces hsome hfirst =>
    refine ⟨rule.normalize v, [], rfl, hi.form_normalize v, ?_⟩
    exact iff_of_true rfl ⟨fun hnone => absurd hnone hsome, fun e => absurd e hfirst⟩

end MatchingRule

namespace ReconcileContext

variable {ctx : ReconcileContext} {retention : Retention} {s : Shadow} {known : Option Delta}
variable {o : Observation} {lifecycle : LifecycleState} {d : Delta} {a : AttributeDefinition}
variable {name : ItemName} {rule : MatchingRule} {values : List Json}
variable {p : AttributeDefinition × ObservedAttribute}

theorem settles_singleDelta {stored : List Json} (h : stored ≠ []) :
    rule.Settles stored values
      (Delta.modified (singleDelta rule name stored (rule.normalForms values)) stored) := by
  by_cases hfirst : stored.head?.map rule.form = values.head?.map rule.form
  · rw [singleDelta_eq_nil_iff.2 hfirst]
    exact .keeps h hfirst
  · rcases singleDelta_eq_nil_or rule name stored (rule.normalForms values) with hd | hd
    · exact absurd (singleDelta_eq_nil_iff.1 hd) hfirst
    · rw [hd]
      exact .replaces h hfirst

/-- What its modifications make of a single-valued attribute all of whose values were observed. -/
theorem settles_of_completeDelta (hr : ctx.ruleOf a = .ok rule) (hsingle : a.isSingleValued = true)
    (hd : ctx.completeDelta s a name values = .ok d) :
    rule.Settles (s.valuesAt name) values (d.modified (s.valuesAt name)) := by
  by_cases hnone : s.valuesAt name = []
  · rw [hnone, modified_completeDelta_of_nil hr hnone hd]
    exact .fills rfl
  · rw [completeDelta_of_ruleOf hr, if_neg (by rwa [List.isEmpty_iff]), if_pos hsingle] at hd
    cases hd
    exact settles_singleDelta hnone

/-- **The first value of a single-valued attribute is the observed one, if there is one.**  It
stands alone just when all observed values have its form, where nothing was stored, and when it was
stored alone, where the first stored value already had this form. -/
theorem single_iff_of_valuesAt_appliedTo (hrules : ctx.rules.Idempotent)
    (h : Unambiguous ctx.definition s o) (hr : ctx.strategy.retention = .ok retention)
    (hd : ctx.delta s o known lifecycle = .ok d) (hp : p ∈ ctx.persisted retention o)
    (hcomplete : p.2.incomplete = false) (hsingle : p.1.isSingleValued = true) :
    ∃ rule, ctx.ruleOf p.1 = .ok rule ∧
      (p.2.values = [] → (d.appliedTo s).valuesAt (s.storedName p.1.name) = []) ∧
      ∀ v more, p.2.values = v :: more →
        ∃ w rest, (d.appliedTo s).valuesAt (s.storedName p.1.name) = w :: rest ∧
          rule.form w = rule.form v ∧
          (rest = [] ↔
            (s.valuesAt (s.storedName p.1.name) = [] → ∀ x ∈ more, rule.form x = rule.form v) ∧
            ((s.valuesAt (s.storedName p.1.name)).head?.map rule.form = some (rule.form v) →
              (s.valuesAt (s.storedName p.1.name)).length = 1)) := by
  have hown := attributeDelta_eq_ofItem h hr hd hp
  rw [attributeDelta_of_complete hcomplete] at hown
  obtain ⟨rule, hrule⟩ := ruleOf_of_completeDelta hown
  have hsettles := settles_of_completeDelta hrule hsingle hown
  rw [← Delta.valuesAt_appliedTo] at hsettles
  refine ⟨rule, hrule, fun hnone => ?_, fun v more hsome => ?_⟩
  · rw [hnone] at hsettles
    exact hsettles.eq_nil
  · rw [hsome] at hsettles
    exact hsettles.exists_eq_cons (hrules _ _ _ hrule)

/-- Some texts were observed of the one that names an account. -/
def observing (texts : List String) : Observation :=
  { sampleObservation with
    attributes := .ofList [(.qualified "ri" "uid", { values := texts.map .str })] }

/-- Some texts are stored of it. -/
def storing (texts : List String) : Shadow :=
  { sampleShadow with attributes := .ofList [(.qualified "ri" "uid", texts.map .str)] }

theorem storing_unambiguous (stored texts : List String) :
    Unambiguous sampleContext.definition (storing stored) (observing texts) where
  defined := by decide +kernel
  stored := by
    show ItemName.OneToOne _ [.qualified "ri" "uid"]
    decide +kernel
  observed := by
    show ItemName.OneToOne _ [.qualified "ri" "uid"]
    decide +kernel

/-- The attribute that holds it, with some texts that were observed. -/
def observedUid (texts : List String) : AttributeDefinition × ObservedAttribute :=
  (.new (.qualified "ri" "uid"), { values := texts.map .str })

/-- Two texts are replaced by the first of two new ones. -/
theorem single_iff_of_valuesAt_appliedTo_sample : ∃ d,
    sampleContext.delta (storing ["x", "y"]) (observing ["u", "v"]) none .live = .ok d ∧
      ∃ w, (d.appliedTo (storing ["x", "y"])).valuesAt (.qualified "ri" "uid") = [w] ∧
        MatchingRule.default.form w = .str "u" := by
  obtain ⟨d, hd⟩ : ∃ d,
      sampleContext.delta (storing ["x", "y"]) (observing ["u", "v"]) none .live = .ok d := ⟨_, rfl⟩
  have hp : observedUid ["u", "v"] ∈ sampleContext.persisted .readable (observing ["u", "v"]) := by
    decide +kernel
  obtain ⟨rule, hrule, -, hsome⟩ := single_iff_of_valuesAt_appliedTo sampleContext_idempotent
    (storing_unambiguous ["x", "y"] ["u", "v"]) rfl hd hp rfl rfl
  obtain rfl : MatchingRule.default = rule := Except.ok.inj hrule
  obtain ⟨w, rest, hvalues, hform, halone⟩ := hsome (.str "u") [.str "v"] rfl
  obtain rfl : rest = [] := halone.2 (by decide +kernel)
  exact ⟨d, hd, w, hvalues, hform⟩

/-- **Several values stay.**  Where nothing is stored, both of two observed texts are, although the
attribute is to hold one at most; and where both are stored they stay when the first one is observed
alone. -/
theorem several_values_stay :
    (∃ d, sampleContext.delta (storing []) (observing ["u", "v"]) none .live = .ok d ∧
      observedUid ["u", "v"] ∈ sampleContext.persisted .readable (observing ["u", "v"]) ∧
      (d.appliedTo (storing [])).valuesAt (.qualified "ri" "uid") = [.str "u", .str "v"]) ∧
    (∃ d, sampleContext.delta (storing ["u", "v"]) (observing ["u"]) none .live = .ok d ∧
      observedUid ["u"] ∈ sampleContext.persisted .readable (observing ["u"]) ∧
      (d.appliedTo (storing ["u", "v"])).valuesAt (.qualified "ri" "uid") =
        [.str "u", .str "v"]) ∧
    (AttributeDefinition.new (.qualified "ri" "uid")).isSingleValued = true ∧
    sampleContext.rules.Idempotent ∧
    ∀ stored texts, Unambiguous sampleContext.definition (storing stored) (observing texts) := by
  refine ⟨⟨_, rfl, by decide +kernel, by decide +kernel⟩, ⟨_, rfl, by decide +kernel,
    by decide +kernel⟩, rfl, sampleContext_idempotent, storing_unambiguous⟩

end ReconcileContext

end Reconciler
