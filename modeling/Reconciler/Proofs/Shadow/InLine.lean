/-
Stored values of one attribute that are in line with observed ones.

* `AttributeDefinition.InLine`: the values that an attribute stores stand for the observed ones.

Main statements:
* `ReconcileContext.inLine_modified`: the modifications for an attribute all of whose values were
  observed bring the stored values in line with the observed ones;
* `ReconcileContext.completeDelta_eq_nil_iff`: there is nothing to modify just when they are.

Design notes:
* What is stored need not be normal, and values that differ are the same if they only differ in the
  signs of zeros; `form` absorbs both, so that being in line is an equality of sets or of heads.
* What is to go is compared with the stored values as they are.  A rule by which the same values
  have different forms would have a value go that should stay, with the one that is the same.
-/
import Reconciler.Proofs.Matching.Forms

namespace Reconciler

/-! ### Values that are added -/

namespace ItemDelta

theorem mem_foldl_addValue {v : Json} {more values : List Json}
    (h : v ∈ more.foldl addValue values) : v ∈ values ∨ v ∈ more := by
  induction more generalizing values with
  | nil => exact .inl h
  | cons w more ih =>
    rcases ih h with h | h
    · unfold addValue at h
      split at h
      · exact .inl h
      · rcases List.mem_append.1 h with h | h
        · exact .inl h
        · exact .inr (List.mem_singleton.1 h ▸ List.mem_cons_self ..)
    · exact .inr (List.mem_cons_of_mem _ h)

theorem mem_unsigned_foldl_addValue_iff {u : Json} {more values : List Json} :
    u ∈ (more.foldl addValue values).map Json.unsigned ↔
      u ∈ values.map Json.unsigned ∨ u ∈ more.map Json.unsigned := by
  induction more generalizing values with
  | nil => simp
  | cons w more ih =>
    rw [List.foldl_cons, ih, List.map_cons, List.mem_cons, ← or_assoc]
    refine or_congr_left ?_
    unfold addValue
    split
    · next h =>
      -- The value is there already, at least up to sameness.
      constructor
      · exact .inl
      · rintro (hu | rfl)
        · exact hu
        · exact Json.isIn_iff_mem.1 h
    · rw [List.map_append, List.mem_append, List.map_singleton, List.mem_singleton]

theorem mem_foldl_addValue_of_mem {v : Json} {more values : List Json} (h : v ∈ values) :
    v ∈ more.foldl addValue values := by
  induction more generalizing values with
  | nil => exact h
  | cons w more ih =>
    refine ih ?_
    unfold addValue
    split
    · exact h
    · exact List.mem_append_left _ h

/-- Values that differ from all that are there and from each other are all added. -/
theorem foldl_addValue_of_pairwise {values more : List Json}
    (h : (values ++ more).Pairwise fun v w => v.same w = false) :
    more.foldl addValue values = values ++ more := by
  induction more generalizing values with
  | nil => exact (List.append_nil values).symm
  | cons w more ih =>
    have hnew : w.isIn values = false := by
      rw [Bool.eq_false_iff]
      intro hin
      obtain ⟨v, hv, hsame⟩ := Json.isIn_iff.1 hin
      have hdiffers := (List.pairwise_append.1 h).2.2 v hv w List.mem_cons_self
      rw [Json.same_symm hsame] at hdiffers
      cases hdiffers
    have hadd : addValue values w = values ++ [w] := by rw [addValue, if_neg (by simp [hnew])]
    rw [List.append_cons] at h ⊢
    rw [List.foldl_cons, hadd]
    exact ih h

end ItemDelta

/-! ### Being in line -/

/-- What an attribute stores stands for what was observed: the first values have one normal form if
the attribute is single-valued, and otherwise the same normal forms occur. -/
def AttributeDefinition.InLine (a : AttributeDefinition) (rule : MatchingRule)
    (stored observed : List Json) : Prop :=
  if a.isSingleValued = true then stored.head?.map rule.form = observed.head?.map rule.form
  else ∀ f, f ∈ stored.map rule.form ↔ f ∈ observed.map rule.form

/-- The values of an attribute after modifications of it. -/
def Delta.modified (d : Delta) (values : List Json) : List Json :=
  d.foldl (fun values m => m.modified values) values

theorem Delta.modified_cons (m : ItemDelta) (d : Delta) (values : List Json) :
    Delta.modified (m :: d) values = Delta.modified d (m.modified values) := rfl

theorem Delta.modified_push_nil (m : ItemDelta) (values : List Json) :
    Delta.modified (Delta.push [] m) values = m.modified values := by
  unfold Delta.push
  split
  · next h => exact (ItemDelta.modified_of_isEmpty h values).symm
  · rfl

theorem Delta.push_nil_eq_nil_iff {m : ItemDelta} : Delta.push [] m = [] ↔ m.isEmpty = true := by
  simp [Delta.push]

namespace AttributeDefinition

variable {a : AttributeDefinition} {rule : MatchingRule} {stored observed : List Json}

theorem inLine_of_forms (h : stored.head?.map rule.form = observed.head?.map rule.form)
    (h' : ∀ f, f ∈ stored.map rule.form ↔ f ∈ observed.map rule.form) :
    a.InLine rule stored observed := by
  unfold InLine
  split
  · exact h
  · exact h'

theorem InLine.eq_nil (h : a.InLine rule [] observed) : observed = [] := by
  unfold InLine at h
  split at h
  · rw [List.head?_nil, Option.map_none, eq_comm, Option.map_eq_none_iff] at h
    exact List.head?_eq_none_iff.1 h
  · rw [← List.map_eq_nil_iff (f := rule.form), List.eq_nil_iff_forall_not_mem]
    exact fun f hf => List.not_mem_nil ((h f).2 hf)

theorem InLine.symm (h : a.InLine rule stored observed) : a.InLine rule observed stored := by
  unfold InLine at h ⊢
  split
  · next hsingle =>
    rw [if_pos hsingle] at h
    exact h.symm
  · next hmulti =>
    rw [if_neg hmulti] at h
    exact fun f => (h f).symm

/-- Normal forms stand for the values that they are the forms of. -/
theorem inLine_normalForms (h : rule.Idempotent) :
    a.InLine rule (rule.normalForms observed) observed := by
  refine inLine_of_forms ?_ fun f => h.mem_form_normalForms_iff
  rw [MatchingRule.head?_normalForms, Option.map_map]
  cases observed with
  | nil => rfl
  | cons v rest => exact congrArg some (h.form_normalize v)

end AttributeDefinition

/-! ### The modifications of one attribute -/

namespace ReconcileContext

open AttributeDefinition

variable {ctx : ReconcileContext} {s : Shadow} {a : AttributeDefinition} {name : ItemName}
variable {rule : MatchingRule} {stored values : List Json} {d : Delta}

/-- With its rule at hand, an attribute all of whose values were observed never fails. -/
theorem completeDelta_of_ruleOf (hr : ctx.ruleOf a = .ok rule) (values : List Json) :
    ctx.completeDelta s a name values = .ok (
      if (s.valuesAt name).isEmpty = true then
        if (rule.normalForms values).isEmpty = true then []
        else [ctx.fillDelta a name (rule.normalForms values)]
      else if a.isSingleValued = true then
        singleDelta rule name (s.valuesAt name) (rule.normalForms values)
      else Delta.push [] (multiDelta rule name (s.valuesAt name) (rule.normalForms values))) := by
  unfold completeDelta
  rw [hr]
  rfl

theorem ruleOf_of_completeDelta (h : ctx.completeDelta s a name values = .ok d) :
    ∃ rule, ctx.ruleOf a = .ok rule := by
  unfold completeDelta at h
  cases hr : ctx.ruleOf a with
  | error e => rw [hr] at h; cases h
  | ok rule => exact ⟨rule, rfl⟩

/-- Whether it is written by replacement or not, an empty attribute holds what it is filled with. -/
theorem modified_fillDelta (ctx : ReconcileContext) (a : AttributeDefinition) (name : ItemName)
    (rule : MatchingRule) (values : List Json) :
    (ctx.fillDelta a name (rule.normalForms values)).modified [] = rule.normalForms values := by
  unfold fillDelta
  split
  · rfl
  · exact @ItemDelta.foldl_addValue_of_pairwise [] _ (normalForms_nodup rule values)

/-- An attribute without values comes to hold the normal forms of what was observed. -/
theorem modified_completeDelta_of_nil (hr : ctx.ruleOf a = .ok rule) (hnone : s.valuesAt name = [])
    (hd : ctx.completeDelta s a name values = .ok d) : d.modified [] = rule.normalForms values := by
  rw [completeDelta_of_ruleOf hr, hnone, List.isEmpty_nil, if_pos rfl] at hd
  cases hd
  split
  · next hvalues => exact (List.isEmpty_iff.1 hvalues).symm
  · exact modified_fillDelta ctx a name rule values

/-- Whether the first values agree is a matter of their forms. -/
theorem singleDelta_eq_nil_iff :
    singleDelta rule name stored (rule.normalForms values) = [] ↔
      stored.head?.map rule.form = values.head?.map rule.form := by
  unfold singleDelta
  rw [MatchingRule.head?_normalForms]
  cases hv : values.head? with
  | none => cases stored.head? <;> simp
  | some v =>
    cases stored.head? with
    | none => simp
    | some w =>
      have : (rule.normalize v).same (rule.normalize w) = true ↔ rule.form w = rule.form v := by
        rw [Json.same_iff, eq_comm]
        exact Iff.rfl
      simp [this]

theorem singleDelta_eq_nil_or (rule : MatchingRule) (name : ItemName)
    (stored observed : List Json) :
    singleDelta rule name stored observed = [] ∨
      singleDelta rule name stored observed =
        [{ path := .attributeValues name, replace := some (observed.take 1) }] := by
  exact ite_eq_or_eq _ _ _

theorem head?_modified_singleDelta (hi : rule.Idempotent) :
    (Delta.modified (singleDelta rule name stored (rule.normalForms values)) stored).head?.map
      rule.form = values.head?.map rule.form := by
  rcases singleDelta_eq_nil_or rule name stored (rule.normalForms values) with h | h
  · rw [h]
    exact singleDelta_eq_nil_iff.1 h
  · rw [h]
    show ((rule.normalForms values).take 1).head?.map rule.form = _
    rw [List.head?_take, if_neg Nat.one_ne_zero, MatchingRule.head?_normalForms, Option.map_map]
    cases values with
    | nil => rfl
    | cons v rest => exact congrArg some (hi.form_normalize v)

/-- A stored value is kept when its form was observed, whatever is the same as it. -/
theorem mem_kept_of_form (hsame : rule.RespectsSameness) (name : ItemName) (v : Json)
    (hv : v ∈ stored) (h : rule.form v ∈ values.map rule.form) :
    v ∈ stored.filter fun w =>
      !w.isIn (multiDelta rule name stored (rule.normalForms values)).delete := by
  refine List.mem_filter.2 ⟨hv, ?_⟩
  rw [Bool.not_eq_true', Bool.eq_false_iff]
  intro hin
  obtain ⟨w, hw, heq⟩ := Json.isIn_iff.1 hin
  have hw : (!(rule.normalize w).isIn (rule.normalForms values)) = true := (List.mem_filter.1 hw).2
  have hform : rule.form w = rule.form v := hsame.form_congr (Json.same_iff.1 heq).symm
  rw [MatchingRule.isIn_normalForms_iff.2 (hform ▸ h)] at hw
  exact Bool.false_ne_true hw

/-- What an attribute holds after its modifications was observed. -/
theorem mem_form_of_mem_modified (hi : rule.Idempotent) {v : Json}
    (hv : v ∈ (multiDelta rule name stored (rule.normalForms values)).modified stored) :
    rule.form v ∈ values.map rule.form := by
  let m := multiDelta rule name stored (rule.normalForms values)
  have hv : v ∈ m.add.foldl ItemDelta.addValue (stored.filter fun v => !v.isIn m.delete) := hv
  rcases ItemDelta.mem_foldl_addValue hv with hv | hv
  · -- Kept: its form was observed, since it would have been deleted otherwise.
    obtain ⟨hstored, hkept⟩ := List.mem_filter.1 hv
    by_contra hno
    have hdel : v ∈ m.delete := by
      refine List.mem_filter.2 ⟨hstored, ?_⟩
      rw [Bool.not_eq_true', Bool.eq_false_iff]
      exact fun h => hno (MatchingRule.isIn_normalForms_iff.1 h)
    rw [Json.isIn_of_mem hdel] at hkept
    exact Bool.false_ne_true hkept
  · -- Added: it is a normal form, and so its own form.
    obtain ⟨w, hw, rfl⟩ := MatchingRule.exists_of_mem_normalForms (List.mem_filter.1 hv).1
    rw [hi.form_normalize]
    exact List.mem_map_of_mem hw

/-- What was observed is there after the modifications, in some form. -/
theorem mem_form_modified_of_mem_form (hi : rule.Idempotent) (hsame : rule.RespectsSameness)
    {f : Json} (hf : f ∈ values.map rule.form) :
    f ∈ ((multiDelta rule name stored (rule.normalForms values)).modified stored).map
      rule.form := by
  let m := multiDelta rule name stored (rule.normalForms values)
  show f ∈ (m.add.foldl ItemDelta.addValue (stored.filter fun v => !v.isIn m.delete)).map rule.form
  by_cases hs : f ∈ stored.map rule.form
  · obtain ⟨w, hw, rfl⟩ := List.mem_map.1 hs
    have hkept := mem_kept_of_form hsame name w hw hf
    exact List.mem_map_of_mem (ItemDelta.mem_foldl_addValue_of_mem hkept)
  · -- No stored value has the form, so the form itself is added.
    obtain ⟨w, hw, e⟩ := List.mem_map.1 (MatchingRule.mem_unsigned_normalForms_iff.2 hf)
    have hadd : w ∈ m.add := by
      refine List.mem_filter.2 ⟨hw, ?_⟩
      rw [Bool.not_eq_true', Bool.eq_false_iff]
      exact fun h => hs (e ▸ MatchingRule.isIn_map_normalize_iff.1 h)
    have hu : w.unsigned ∈ (m.add.foldl ItemDelta.addValue
        (stored.filter fun v => !v.isIn m.delete)).map Json.unsigned :=
      ItemDelta.mem_unsigned_foldl_addValue_iff.2 (.inr (List.mem_map_of_mem hadd))
    obtain ⟨x, hx, ex⟩ := List.mem_map.1 hu
    obtain ⟨y, -, rfl⟩ := MatchingRule.exists_of_mem_normalForms hw
    refine List.mem_map.2 ⟨x, hx, ?_⟩
    rw [hsame.form_congr ex, hi.form_normalize]
    exact e

theorem mem_form_modified_multiDelta_iff (hi : rule.Idempotent) (hsame : rule.RespectsSameness)
    (f : Json) :
    f ∈ ((multiDelta rule name stored (rule.normalForms values)).modified stored).map rule.form ↔
      f ∈ values.map rule.form := by
  constructor
  · intro hf
    obtain ⟨v, hv, rfl⟩ := List.mem_map.1 hf
    exact mem_form_of_mem_modified hi hv
  · exact mem_form_modified_of_mem_form hi hsame

theorem multiDelta_isEmpty_iff (name : ItemName) :
    (multiDelta rule name stored (rule.normalForms values)).isEmpty = true ↔
      ∀ f, f ∈ stored.map rule.form ↔ f ∈ values.map rule.form := by
  have hadd : (multiDelta rule name stored (rule.normalForms values)).add = [] ↔
      ∀ f, f ∈ values.map rule.form → f ∈ stored.map rule.form := by
    simp only [multiDelta, List.filter_eq_nil_iff, Bool.not_eq_true', Bool.not_eq_false,
      MatchingRule.isIn_map_normalize_iff]
    constructor
    · intro h f hf
      obtain ⟨w, hw, rfl⟩ := List.mem_map.1 (MatchingRule.mem_unsigned_normalForms_iff.2 hf)
      exact h w hw
    · intro h w hw
      exact h _ (MatchingRule.mem_unsigned_normalForms_iff.1 (List.mem_map_of_mem hw))
  have hdelete : (multiDelta rule name stored (rule.normalForms values)).delete = [] ↔
      ∀ f, f ∈ stored.map rule.form → f ∈ values.map rule.form := by
    simp only [multiDelta, List.filter_eq_nil_iff, Bool.not_eq_true', Bool.not_eq_false,
      MatchingRule.isIn_normalForms_iff]
    exact List.forall_mem_map.symm
  have hreplace : (multiDelta rule name stored (rule.normalForms values)).replace = none := rfl
  rw [ItemDelta.isEmpty, Bool.and_eq_true, Bool.and_eq_true, List.isEmpty_iff, List.isEmpty_iff,
    hadd, hdelete, hreplace]
  simp only [Option.isNone_none, and_true]
  exact ⟨fun h f => ⟨h.2 f, h.1 f⟩, fun h => ⟨fun f => (h f).2, fun f => (h f).1⟩⟩

/-- The modifications of an attribute bring its stored values in line with the observed ones. -/
theorem inLine_modified (hr : ctx.ruleOf a = .ok rule) (hi : rule.Idempotent)
    (hsame : rule.RespectsSameness) (hd : ctx.completeDelta s a name values = .ok d) :
    a.InLine rule (d.modified (s.valuesAt name)) values := by
  by_cases hnone : s.valuesAt name = []
  · rw [hnone, modified_completeDelta_of_nil hr hnone hd]
    exact inLine_normalForms hi
  · rw [completeDelta_of_ruleOf hr, if_neg (by rwa [List.isEmpty_iff])] at hd
    cases hd
    unfold InLine
    split
    · exact head?_modified_singleDelta hi
    · rw [Delta.modified_push_nil]
      exact mem_form_modified_multiDelta_iff hi hsame

/-- There is nothing to modify just when the stored values are in line. -/
theorem completeDelta_eq_nil_iff (hr : ctx.ruleOf a = .ok rule) :
    ctx.completeDelta s a name values = .ok [] ↔ a.InLine rule (s.valuesAt name) values := by
  rw [completeDelta_of_ruleOf hr, Except.ok.injEq]
  by_cases hs : s.valuesAt name = []
  · rw [hs, List.isEmpty_nil, if_pos rfl]
    constructor
    · intro h
      split at h
      · next hvalues =>
        rw [MatchingRule.normalForms_eq_nil_iff.1 (List.isEmpty_iff.1 hvalues)]
        exact inLine_of_forms rfl fun f => Iff.rfl
      · cases h
    · intro h
      rw [h.eq_nil]
      rfl
  · rw [if_neg (by rwa [List.isEmpty_iff])]
    unfold InLine
    split
    · exact singleDelta_eq_nil_iff
    · rw [← multiDelta_isEmpty_iff name]
      exact Delta.push_nil_eq_nil_iff

end ReconcileContext

end Reconciler
