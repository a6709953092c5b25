/-
Normal forms, and what matching rules may keep to.

Anyone can add rules, so what holds of all standard ones need not hold of every rule that is found:
that a normal form is its own normal form, that values which count as equal have one normal form, or
that values match just when they have.

* `MatchingRule.form`: the normal form of a value, as far as comparisons tell forms apart;
* `MatchingRule.Idempotent`: a normal form is its own normal form;
* `MatchingRule.RespectsSameness`: the same values have the same normal form;
* `MatchingRule.ComparesForms`: values match when they have the same normal form;
* `RuleLookup.Idempotent`, `RespectsSameness`, `ComparesForms`: all rules that are found do so.

Main statements:
* `MatchingRule.mem_unsigned_normalForms_iff`: the normal forms of values are their forms;
* `MatchingRule.Idempotent.mem_form_normalForms_iff`: normal forms have the forms of the values;
* `MatchingRule.zeroSigns_idempotent`, `not_respectsSameness_zeroSigns`: a rule that keeps to the
  one and not to the other.

Design notes:
* Values that differ are the same if they only differ in the signs of zeros.  `form` absorbs that,
  so that it is equality of forms that rules compare by.
-/
import Mathlib.Data.List.Basic
import Reconciler.Shadow.Reconcile

namespace Reconciler

/-! ### Values up to sameness -/

theorem Json.isIn_iff_mem {v : Json} {values : List Json} :
    v.isIn values = true ↔ v.unsigned ∈ values.map Json.unsigned := by
  rw [Json.isIn_iff, List.mem_map]
  constructor
  · rintro ⟨w, hw, h⟩
    exact ⟨w, hw, (Json.same_iff.1 h).symm⟩
  · rintro ⟨w, hw, h⟩
    exact ⟨w, hw, Json.same_iff.2 h.symm⟩

theorem Json.isIn_of_mem {v : Json} {values : List Json} (h : v ∈ values) :
    v.isIn values = true :=
  Json.isIn_iff.2 ⟨v, h, Json.same_refl v⟩

theorem Json.mem_of_mem_distinct {v : Json} {values : List Json} (h : v ∈ Json.distinct values) :
    v ∈ values := by
  induction values with
  | nil => exact h
  | cons w rest ih =>
    rcases List.mem_cons.1 h with rfl | h
    · exact List.mem_cons_self ..
    · exact List.mem_cons_of_mem _ (ih (List.mem_filter.1 h).1)

theorem Json.mem_unsigned_distinct_iff {u : Json} {values : List Json} :
    u ∈ (Json.distinct values).map Json.unsigned ↔ u ∈ values.map Json.unsigned := by
  induction values with
  | nil => exact Iff.rfl
  | cons w rest ih =>
    rw [Json.distinct, List.map_cons, List.map_cons, List.mem_cons, List.mem_cons, ← ih]
    refine or_congr_right' fun hu => ?_
    simp only [List.mem_map]
    constructor
    · rintro ⟨v, hv, e⟩
      exact ⟨v, (List.mem_filter.1 hv).1, e⟩
    · rintro ⟨v, hv, e⟩
      -- A value that is left out here is the same as the head.
      have hne : w.same v = false := by
        rw [Bool.eq_false_iff, Ne, Json.same_iff, e]
        exact fun h => hu h.symm
      exact ⟨v, List.mem_filter.2 ⟨hv, by rw [hne]; rfl⟩, e⟩

theorem Json.head?_distinct (values : List Json) : (Json.distinct values).head? = values.head? := by
  cases values <;> rfl

/-! ### Normal forms -/

namespace MatchingRule

variable {rule : MatchingRule}

/-- The normal form of a value, as far as comparisons tell forms apart. -/
def form (rule : MatchingRule) (v : Json) : Json := (rule.normalize v).unsigned

/-- Normal forms are their own normal forms. -/
def Idempotent (rule : MatchingRule) : Prop :=
  ∀ v, (rule.normalize (rule.normalize v)).same (rule.normalize v) = true

/-- The same values have the same normal form. -/
def RespectsSameness (rule : MatchingRule) : Prop :=
  ∀ v w : Json, v.same w = true → (rule.normalize v).same (rule.normalize w) = true

/-- Values match when they have the same normal form. -/
def ComparesForms (rule : MatchingRule) : Prop :=
  ∀ v w : Json, rule.isMatch v w = (rule.normalize v).same (rule.normalize w)

theorem ComparesForms.isMatch_iff (h : rule.ComparesForms) {v w : Json} :
    rule.isMatch v w = true ↔ rule.form v = rule.form w := by
  rw [h v w, Json.same_iff]
  exact Iff.rfl

theorem RespectsSameness.form_congr (h : rule.RespectsSameness) {v w : Json}
    (e : v.unsigned = w.unsigned) : rule.form v = rule.form w :=
  Json.same_iff.1 (h v w (Json.same_iff.2 e))

theorem Idempotent.form_normalize (h : rule.Idempotent) (v : Json) :
    rule.form (rule.normalize v) = rule.form v :=
  Json.same_iff.1 (h v)

theorem exists_of_mem_normalForms {w : Json} {values : List Json}
    (h : w ∈ rule.normalForms values) : ∃ v ∈ values, w = rule.normalize v := by
  obtain ⟨v, hv, rfl⟩ := List.mem_map.1 (Json.mem_of_mem_distinct h)
  exact ⟨v, hv, rfl⟩

theorem mem_unsigned_normalForms_iff {f : Json} {values : List Json} :
    f ∈ (rule.normalForms values).map Json.unsigned ↔ f ∈ values.map rule.form := by
  rw [normalForms, Json.mem_unsigned_distinct_iff, List.map_map]
  exact Iff.rfl

theorem isIn_normalForms_iff {v : Json} {values : List Json} :
    (rule.normalize v).isIn (rule.normalForms values) = true ↔
      rule.form v ∈ values.map rule.form := by
  rw [Json.isIn_iff_mem, mem_unsigned_normalForms_iff]
  exact Iff.rfl

theorem isIn_map_normalize_iff {w : Json} {values : List Json} :
    w.isIn (values.map rule.normalize) = true ↔ w.unsigned ∈ values.map rule.form := by
  rw [Json.isIn_iff_mem, List.map_map]
  exact Iff.rfl

theorem head?_normalForms (values : List Json) :
    (rule.normalForms values).head? = values.head?.map rule.normalize := by
  rw [normalForms, Json.head?_distinct, List.head?_map]

theorem normalForms_eq_nil_iff {values : List Json} :
    rule.normalForms values = [] ↔ values = [] := by
  rw [← List.head?_eq_none_iff, head?_normalForms, Option.map_eq_none_iff, List.head?_eq_none_iff]

/-- Normal forms are their own forms, up to sameness. -/
theorem Idempotent.map_form_normalForms (h : rule.Idempotent) (values : List Json) :
    (rule.normalForms values).map rule.form = (rule.normalForms values).map Json.unsigned := by
  refine List.map_congr_left fun w hw => ?_
  obtain ⟨v, -, rfl⟩ := exists_of_mem_normalForms hw
  exact h.form_normalize v

/-- Normal forms have the forms of the values that they come from. -/
theorem Idempotent.mem_form_normalForms_iff (h : rule.Idempotent) {f : Json}
    {values : List Json} :
    f ∈ (rule.normalForms values).map rule.form ↔ f ∈ values.map rule.form := by
  rw [h.map_form_normalForms, mem_unsigned_normalForms_iff]

/-! ### Some rules -/

theorem idempotent_default : MatchingRule.default.Idempotent := fun v => Json.same_refl v

theorem respectsSameness_default : MatchingRule.default.RespectsSameness := fun _ _ h => h

theorem comparesForms_default : MatchingRule.default.ComparesForms := fun _ _ => rfl

/-- A textual rule is idempotent when its change of texts is. -/
theorem idempotent_textual (name : String) {f : List Char → List Char}
    (h : ∀ cs, f (f cs) = f cs) : (textual name f).Idempotent := by
  intro v
  cases v with
  | str s =>
    show (Json.str _).same (Json.str _) = true
    rw [String.toList_ofList, h]
    exact Json.same_refl _
  | _ => exact Json.same_refl _

/-- Textual rules respect sameness, whatever they make of texts. -/
theorem respectsSameness_textual (name : String) (f : List Char → List Char) :
    (textual name f).RespectsSameness :=
  mapText_same f

theorem comparesForms_textual (name : String) (f : List Char → List Char) :
    (textual name f).ComparesForms :=
  fun _ _ => rfl

/-- Writes out the negative zero, and so tells apart what counts as one number elsewhere. -/
def zeroSigns : MatchingRule where
  name := "zeroSigns"
  supports _ := true
  normalize
    | .float x => if x.isZero && x.negative then .str "-0.0" else .float x
    | v => v

theorem zeroSigns_idempotent : zeroSigns.Idempotent := by
  intro v
  cases v with
  | float x =>
    by_cases h : (x.isZero && x.negative) = true
    · have e : zeroSigns.normalize (.float x) = .str "-0.0" := if_pos h
      rw [e]
      exact Json.same_refl _
    · have e : zeroSigns.normalize (.float x) = .float x := if_neg h
      rw [e, e]
      exact Json.same_refl _
  | _ => exact Json.same_refl _

theorem not_respectsSameness_zeroSigns : ¬ zeroSigns.RespectsSameness := fun h =>
  absurd (h (.float .zero) (.float Binary64.zero.neg) (by decide)) (by decide)

end MatchingRule

/-! ### All rules that are found -/

namespace RuleLookup

/-- Only rules whose normal forms are normal are found. -/
def Idempotent (rules : RuleLookup) : Prop :=
  ∀ name valueType rule, rules name valueType = .ok rule → rule.Idempotent

/-- Only rules by which the same values have the same normal form are found. -/
def RespectsSameness (rules : RuleLookup) : Prop :=
  ∀ name valueType rule, rules name valueType = .ok rule → rule.RespectsSameness

/-- Only rules by which values match when they have the same normal form are found. -/
def ComparesForms (rules : RuleLookup) : Prop :=
  ∀ name valueType rule, rules name valueType = .ok rule → rule.ComparesForms

/-- Where there is always a rule, it is enough to tell of this one. -/
theorem of_ok {P : MatchingRule → Prop} {found : Option String → ValueType → MatchingRule}
    (h : ∀ name valueType, P (found name valueType)) (name : Option String) (valueType : ValueType)
    (rule : MatchingRule)
    (hrule : (.ok (found name valueType) : Except SchemaViolation MatchingRule) = .ok rule) :
    P rule := by
  rw [← Except.ok.inj hrule]
  exact h name valueType

end RuleLookup

end Reconciler
