/-
Deltas whose modifications may be applied in any order, and more than once.

Whoever sends the modifications of a delta one by one may have to send some of them again, and a
later one may get ahead of an earlier one.  What a reconciliation computes takes no harm from that.

* `ItemDelta.Repeatable`: the modification has no effect where it was applied before;
* `Delta.Repeatable`: each modification is like that, and is the only one of its item.

Main statements:
* `ItemDelta.applyTo_comm`: modifications of different items may change places;
* `Delta.Repeatable.appliedTo_eq`: what a repeatable delta leads to depends on its members only;
* `ReconcileContext.exists_of_completeDelta`: an attribute has at most one modification, which does
  not delete what it adds;
* `ReconcileContext.repeatable_of_delta`: the delta of a reconciliation is repeatable, so that
  `ReconcileContext.appliedTo_of_mem_iff` holds of it.

Design notes:
* Shadows are compared as a whole: values in their order, and whether an attribute has an entry.
* Values are added in normal form and deleted as they are stored.  It takes an idempotent rule that
  respects sameness to tell that none is both: the form of a value that is added is that value
  itself, and so is that of whatever is the same.
-/
import Mathlib.Data.List.Dedup
import Mathlib.Data.List.Nodup
import Reconciler.Proofs.Shadow.Convergence

namespace Reconciler

/-! ### One modification -/

namespace ActivationProperty

theorem set_set (p : ActivationProperty) (a : Activation) (v w : Option Json) :
    p.set (p.set a v) w = p.set a w := by
  cases p <;> rfl

theorem set_comm {p q : ActivationProperty} (h : p ≠ q) (a : Activation) (v w : Option Json) :
    p.set (q.set a w) v = q.set (p.set a v) w := by
  cases p <;> cases q <;> first | rfl | exact absurd rfl h

end ActivationProperty

namespace ItemDelta

variable {m n : ItemDelta} {name other : ItemName} {values more : List Json}
variable {attributes : AttributeValues}

theorem get?_setValues (attributes : AttributeValues) (name other : ItemName)
    (values : List Json) :
    (setValues attributes name values).get? other =
      if other = name then if values.isEmpty then none else some values
      else attributes.get? other := by
  unfold setValues
  by_cases h : values.isEmpty = true
  · simp [h, SortedMap.get?_erase]
  · simp [h, SortedMap.get?_insert]

theorem setValues_setValues :
    setValues (setValues attributes name values) name more = setValues attributes name more := by
  refine SortedMap.ext_get? fun n => ?_
  simp only [get?_setValues]
  split <;> rfl

theorem setValues_comm (h : name ≠ other) :
    setValues (setValues attributes name values) other more =
      setValues (setValues attributes other more) name values := by
  refine SortedMap.ext_get? fun n => ?_
  simp only [get?_setValues]
  by_cases hn : n = name
  · have hother : n ≠ other := fun ho => h (hn.symm.trans ho)
    simp [hn, hn ▸ hother]
  · simp [hn]

theorem applyTo_attribute (h : m.path = .attributeValues name) (s : Shadow) :
    m.applyTo s =
      { s with attributes := setValues s.attributes name (m.modified (s.valuesAt name)) } := by
  simp only [applyTo, h]

/-- Modifications of different items may change places. -/
theorem applyTo_comm (h : m.path ≠ n.path) (s : Shadow) :
    m.applyTo (n.applyTo s) = n.applyTo (m.applyTo s) := by
  cases hm : m.path with
  | attributeValues name =>
    cases hn : n.path with
    | attributeValues other =>
      have hne : name ≠ other := by
        rintro rfl
        exact h (hm.trans hn.symm)
      -- Each finds the values that it would have found before the other.
      have hfirst : (m.applyTo s).valuesAt other = s.valuesAt other := by
        rw [valuesAt_applyTo hm, if_neg (Ne.symm hne)]
      have hsecond : (n.applyTo s).valuesAt name = s.valuesAt name := by
        rw [valuesAt_applyTo hn, if_neg hne]
      rw [applyTo_attribute hm (n.applyTo s), applyTo_attribute hn (m.applyTo s), hfirst, hsecond,
        applyTo_attribute hm, applyTo_attribute hn]
      simp only [setValues_comm hne]
    | _ => simp only [applyTo, hm, hn, Shadow.valuesAt]
  | activation p =>
    cases hn : n.path with
    | activation q =>
      have hne : p ≠ q := by
        rintro rfl
        exact h (hm.trans hn.symm)
      simp only [applyTo, hm, hn, ActivationProperty.valuesOf_set_of_ne hne,
        ActivationProperty.valuesOf_set_of_ne (Ne.symm hne), ActivationProperty.set_comm hne]
    | _ => simp only [applyTo, hm, hn, Shadow.valuesAt]
  | _ =>
    -- All other items are fields of their own.
    cases hn : n.path <;>
      first
      | exact absurd (hm.trans hn.symm) h
      | simp only [applyTo, hm, hn, Shadow.valuesAt]

/-- The modification writes all values of its item, or it adds and deletes different values of an
attribute. -/
inductive Repeatable (m : ItemDelta) : Prop where
  | replaces {values : List Json} (h : m.replace = some values)
  | edits {name : ItemName} (hpath : m.path = .attributeValues name)
      (h : ∀ v ∈ m.add, v.isIn m.delete = false)

theorem modified_of_replace (h : m.replace = some values) (current : List Json) :
    m.modified current = values := by
  simp only [modified, h]

theorem foldl_addValue_of_isIn (h : ∀ v ∈ more, v.isIn values = true) :
    more.foldl addValue values = values := by
  induction more with
  | nil => rfl
  | cons v more ih =>
    obtain ⟨hv, hmore⟩ := List.forall_mem_cons.1 h
    rw [List.foldl_cons, addValue, if_pos hv]
    exact ih hmore

theorem Repeatable.modified_modified (h : m.Repeatable) (current : List Json) :
    m.modified (m.modified current) = m.modified current := by
  cases hreplace : m.replace with
  | some values => rw [modified_of_replace hreplace, modified_of_replace hreplace]
  | none =>
    have hmodified : ∀ values, m.modified values =
        m.add.foldl addValue (values.filter fun v => !v.isIn m.delete) := by
      intro values
      simp only [modified, hreplace]
    have hdisjoint : ∀ v ∈ m.add, v.isIn m.delete = false := by
      obtain hwrites | ⟨-, hdisjoint⟩ := h
      · rw [hreplace] at hwrites
        cases hwrites
      · exact hdisjoint
    -- Nothing is left to delete, and all that is to be added is there.
    have hkept : ((m.modified current).filter fun v => !v.isIn m.delete) = m.modified current := by
      rw [List.filter_eq_self]
      intro v hv
      rw [hmodified] at hv
      rcases mem_foldl_addValue hv with hv | hv
      · exact (List.mem_filter.1 hv).2
      · simp [hdisjoint v hv]
    have hthere : ∀ v ∈ m.add, v.isIn (m.modified current) = true := by
      intro v hv
      rw [hmodified, Json.isIn_iff_mem, mem_unsigned_foldl_addValue_iff]
      exact .inr (List.mem_map_of_mem hv)
    rw [hmodified (m.modified current), hkept]
    exact foldl_addValue_of_isIn hthere

theorem Repeatable.exists_replace (h : m.Repeatable) (hp : ∀ name, m.path ≠ .attributeValues name) :
    ∃ values, m.replace = some values := by
  obtain ⟨hwrites⟩ | ⟨hpath, -⟩ := h
  · exact ⟨_, hwrites⟩
  · exact absurd hpath (hp _)

/-- A repeatable modification has no effect where it was applied before. -/
theorem Repeatable.applyTo_applyTo (h : m.Repeatable) (s : Shadow) :
    m.applyTo (m.applyTo s) = m.applyTo s := by
  cases hp : m.path with
  | attributeValues name =>
    have hvalues : (m.applyTo s).valuesAt name = m.modified (s.valuesAt name) := by
      rw [valuesAt_applyTo hp, if_pos rfl]
    rw [applyTo_attribute hp (m.applyTo s), hvalues, h.modified_modified, applyTo_attribute hp]
    simp only [setValues_setValues]
  | presence =>
    obtain ⟨values, hwrites⟩ := h.exists_replace (by simp [hp])
    simp only [applyTo, hp, firstOf, modified_of_replace hwrites]
    -- What cannot be read leaves the item as it is, both times.
    cases (values.head? >>= decode? : Option Bool) <;> rfl
  | _ =>
    obtain ⟨values, hwrites⟩ := h.exists_replace (by simp [hp])
    simp only [applyTo, hp, firstOf, modified_of_replace hwrites, ActivationProperty.set_set]

end ItemDelta

/-! ### Many modifications -/

namespace Delta

variable {d sequence : Delta}

/-- Each modification is repeatable, and is the only one of its item. -/
structure Repeatable (d : Delta) : Prop where
  paths : (d.map ItemDelta.path).Nodup
  each : ∀ m ∈ d, m.Repeatable

namespace Repeatable

/-- Modifications of one delta may change places. -/
theorem applyTo_comm (h : d.Repeatable) {m n : ItemDelta} (hm : m ∈ d) (hn : n ∈ d) (s : Shadow) :
    m.applyTo (n.applyTo s) = n.applyTo (m.applyTo s) := by
  by_cases hpath : m.path = n.path
  · rw [List.inj_on_of_nodup_map h.paths hm hn hpath]
  · exact ItemDelta.applyTo_comm hpath s

/-- What comes again later need not be applied now. -/
theorem appliedTo_of_mem (h : d.Repeatable) (hsequence : ∀ n ∈ sequence, n ∈ d) {m : ItemDelta}
    (hm : m ∈ sequence) (s : Shadow) : sequence.appliedTo (m.applyTo s) = sequence.appliedTo s := by
  induction sequence generalizing s with
  | nil => exact absurd hm List.not_mem_nil
  | cons n sequence ih =>
    obtain ⟨hn, hrest⟩ := List.forall_mem_cons.1 hsequence
    show appliedTo sequence (n.applyTo (m.applyTo s)) = appliedTo sequence (n.applyTo s)
    rcases List.mem_cons.1 hm with rfl | hlater
    · rw [(h.each m hn).applyTo_applyTo]
    · rw [h.applyTo_comm hn (hsequence m hm), ih hrest hlater]

/-- Each modification needs to be applied only once. -/
theorem appliedTo_dedup (h : d.Repeatable) (hsequence : ∀ n ∈ sequence, n ∈ d) (s : Shadow) :
    appliedTo sequence.dedup s = sequence.appliedTo s := by
  induction sequence generalizing s with
  | nil => rfl
  | cons n sequence ih =>
    obtain ⟨hn, hrest⟩ := List.forall_mem_cons.1 hsequence
    by_cases hagain : n ∈ sequence
    · calc appliedTo (n :: sequence).dedup s
          = appliedTo sequence.dedup s := by rw [List.dedup_cons_of_mem hagain]
        _ = appliedTo sequence s := ih hrest s
        _ = appliedTo sequence (n.applyTo s) := (h.appliedTo_of_mem hrest hagain s).symm
    · rw [List.dedup_cons_of_notMem hagain]
      exact ih hrest (n.applyTo s)

/-- What a repeatable delta leads to depends on its members only: they may come in any order, and
each may come more than once. -/
theorem appliedTo_eq (h : d.Repeatable) (hsequence : ∀ m, m ∈ sequence ↔ m ∈ d) (s : Shadow) :
    sequence.appliedTo s = d.appliedTo s := by
  have hperm : sequence.dedup.Perm d := by
    refine (List.perm_ext_iff_of_nodup (List.nodup_dedup _) h.paths.of_map).2 fun m => ?_
    rw [List.mem_dedup, hsequence]
  have hmem : ∀ m ∈ sequence.dedup, m ∈ d := fun m hm => (hsequence m).1 (List.mem_dedup.1 hm)
  calc sequence.appliedTo s
      = appliedTo sequence.dedup s := (h.appliedTo_dedup (fun m hm => (hsequence m).1 hm) s).symm
    _ = d.appliedTo s :=
        hperm.foldl_eq' (fun m hm n hn t => h.applyTo_comm (hmem n hn) (hmem m hm) t) s

end Repeatable

/-- Of parts that each modify one item, if any, no item has more modifications than parts. -/
theorem paths_flatten {α : Type} {pathOf : α → ItemPath} {xs : List α} {parts : List Delta}
    (h : List.Forall₂ (fun x part => (part.map ItemDelta.path).Sublist [pathOf x]) xs parts) :
    (parts.flatten.map ItemDelta.path).Sublist (xs.map pathOf) := by
  induction h with
  | nil => exact List.Sublist.refl _
  | cons hfirst _ ih =>
    rw [List.flatten_cons, List.map_append, List.map_cons]
    exact hfirst.append ih

theorem paths_filterMap {α : Type} {f : α → Option ItemDelta} {pathOf : α → ItemPath}
    (h : ∀ x m, f x = some m → m.path = pathOf x) (xs : List α) :
    ((xs.filterMap f).map ItemDelta.path).Sublist (xs.map pathOf) := by
  induction xs with
  | nil => exact List.Sublist.refl _
  | cons x xs ih =>
    cases hx : f x with
    | none =>
      rw [List.filterMap_cons_none hx]
      exact ih.cons _
    | some m =>
      rw [List.filterMap_cons_some hx, List.map_cons, List.map_cons, h x m hx]
      exact ih.cons_cons _

theorem push_nil_sublist (m : ItemDelta) : (push [] m).Sublist [m] := by
  unfold push
  split
  · exact List.nil_sublist _
  · exact List.Sublist.refl _

/-- The delta writes all values of one item, or does nothing. -/
inductive Writes (path : ItemPath) : Delta → Prop where
  | nothing : Writes path []
  | all (values : List Json) : Writes path [{ path := path, replace := some values }]

variable {path : ItemPath}

theorem Writes.paths (h : Writes path d) : (d.map ItemDelta.path).Sublist [path] := by
  obtain - | values := h
  · exact List.nil_sublist _
  · exact List.Sublist.refl _

theorem Writes.each (h : Writes path d) : ∀ m ∈ d, m.Repeatable := by
  intro m hm
  obtain - | values := h
  · exact absurd hm List.not_mem_nil
  · rw [List.mem_singleton.1 hm]
    exact .replaces rfl

end Delta

/-! ### The modifications of a reconciliation -/

/-- The items that are no attributes, in the order in which a reconciliation takes them. -/
def ItemPath.others : List ItemPath :=
  [name, auxiliaryClasses, presence, production] ++
    (ActivationProperty.all.map activation ++ [cachingMetadata])

theorem ItemPath.nodup_others : others.Nodup := by decide

theorem ItemPath.not_mem_others (item : ItemName) : attributeValues item ∉ others := by
  simp [others, ActivationProperty.all]

namespace ReconcileContext

variable {ctx : ReconcileContext} {retention : Retention} {s : Shadow} {known : Option Delta}
variable {o : Observation} {lifecycle : LifecycleState} {d : Delta} {a : AttributeDefinition}
variable {name : ItemName} {rule : MatchingRule} {values : List Json}
variable {p : AttributeDefinition × ObservedAttribute}

/-! #### Attributes -/

theorem repeatable_fillDelta (ctx : ReconcileContext) (a : AttributeDefinition) (name : ItemName)
    (observed : List Json) :
    (ctx.fillDelta a name observed).path = .attributeValues name ∧
      (ctx.fillDelta a name observed).Repeatable := by
  unfold fillDelta
  split
  · exact ⟨rfl, .replaces rfl⟩
  · exact ⟨rfl, .edits rfl fun _ _ => rfl⟩

/-- No value is both missing and superfluous: its form would be observed and not observed. -/
theorem repeatable_multiDelta (hi : rule.Idempotent) (hsame : rule.RespectsSameness)
    (name : ItemName) (stored values : List Json) :
    (multiDelta rule name stored (rule.normalForms values)).Repeatable := by
  refine .edits rfl fun v hv => ?_
  rw [Bool.eq_false_iff]
  intro hdeleted
  obtain ⟨w, hw, heq⟩ := Json.isIn_iff.1 hdeleted
  obtain ⟨x, hx, rfl⟩ := MatchingRule.exists_of_mem_normalForms (List.mem_filter.1 hv).1
  have hform : rule.form w = rule.form x := by
    rw [← hi.form_normalize x]
    exact hsame.form_congr (Json.same_iff.1 heq).symm
  have hobserved : (rule.normalize w).isIn (rule.normalForms values) = true := by
    rw [MatchingRule.isIn_normalForms_iff, hform]
    exact List.mem_map_of_mem hx
  have hnot : (!(rule.normalize w).isIn (rule.normalForms values)) = true :=
    (List.mem_filter.1 hw).2
  simp [hobserved] at hnot

/-- An attribute all of whose values were observed has at most one modification, and that may be
applied again. -/
theorem exists_of_completeDelta (hr : ctx.ruleOf a = .ok rule) (hi : rule.Idempotent)
    (hsame : rule.RespectsSameness) (hd : ctx.completeDelta s a name values = .ok d) :
    ∃ m : ItemDelta, m.path = .attributeValues name ∧ m.Repeatable ∧ d.Sublist [m] := by
  rw [completeDelta_of_ruleOf hr, Except.ok.injEq] at hd
  subst hd
  split
  · obtain ⟨hpath, hrepeatable⟩ := ctx.repeatable_fillDelta a name (rule.normalForms values)
    refine ⟨_, hpath, hrepeatable, ?_⟩
    split
    · exact List.nil_sublist _
    · exact List.Sublist.refl _
  · split
    · let m : ItemDelta :=
        { path := .attributeValues name, replace := some ((rule.normalForms values).take 1) }
      refine ⟨m, rfl, .replaces rfl, ?_⟩
      rcases singleDelta_eq_nil_or rule name (s.valuesAt name) (rule.normalForms values) with h | h
      · rw [h]
        exact List.nil_sublist _
      · rw [h]
    · exact ⟨_, rfl, repeatable_multiDelta hi hsame name (s.valuesAt name) values,
        Delta.push_nil_sublist _⟩

/-- The observed attribute has at most one modification, and that may be applied again. -/
def Single (s : Shadow) (p : AttributeDefinition × ObservedAttribute) (part : Delta) : Prop :=
  ∃ m : ItemDelta, m.path = .attributeValues (s.storedName p.1.name) ∧ m.Repeatable ∧
    part.Sublist [m]

theorem single_of_attributeDelta (hrules : ctx.rules.Idempotent)
    (hsame : ctx.rules.RespectsSameness) (hcomplete : p.2.incomplete = false)
    (hd : ctx.attributeDelta s known p.1 p.2 = .ok d) : Single s p d := by
  rw [attributeDelta_of_complete hcomplete] at hd
  obtain ⟨rule, hr⟩ := ruleOf_of_completeDelta hd
  exact exists_of_completeDelta hr (hrules _ _ _ hr) (hsame _ _ _ hr) hd

theorem nodup_paths_staleDelta :
    ((ctx.staleDelta retention s o).map ItemDelta.path).Nodup := by
  have hsublist : ((ctx.staleDelta retention s o).map ItemDelta.path).Sublist
      (s.attributes.entries.map fun e => ItemPath.attributeValues e.1) := by
    refine Delta.paths_filterMap (fun e m hm => ?_) s.attributes.entries
    split at hm
    · cases hm
    · rw [← Option.some.inj hm]
  refine hsublist.nodup ?_
  have hkeys : (s.attributes.keys.map ItemPath.attributeValues).Nodup :=
    s.attributes.nodup_keys.map fun _ _ e => ItemPath.attributeValues.inj e
  rwa [SortedMap.keys, List.map_map] at hkeys

/-! #### Other items -/

theorem writes_nameDelta : Delta.Writes .name (ctx.nameDelta s o) := by
  unfold nameDelta
  split
  · exact .nothing
  · split
    · exact .nothing
    · exact .all _

theorem writes_auxiliaryDelta : Delta.Writes .auxiliaryClasses (auxiliaryDelta s o) := by
  unfold auxiliaryDelta
  split
  · exact .nothing
  · exact .all _

theorem writes_presenceDelta : Delta.Writes .presence (presenceDelta s lifecycle) := by
  unfold presenceDelta
  split
  · exact .all _
  · exact .nothing

theorem writes_productionDelta : Delta.Writes .production (productionDelta s o) := by
  unfold productionDelta
  split
  · exact .nothing
  · split
    · exact .nothing
    · exact .all _

theorem writes_stampDelta : Delta.Writes .cachingMetadata (ctx.stampDelta retention known o) := by
  unfold stampDelta
  split
  · exact .nothing
  · exact .all _

theorem writes_cacheDelta :
    Delta.Writes .cachingMetadata (ctx.cacheDelta .identifiersOnly s known o) := by
  by_cases hs : s.cachingMetadata.isSome = true
  · rw [cacheDelta, if_pos hs]
    exact .all _
  · rw [cacheDelta, if_neg hs]
    exact .nothing

theorem paths_cacheDelta :
    ((ctx.cacheDelta retention s known o).map ItemDelta.path).Sublist
      (ActivationProperty.all.map .activation ++ [.cachingMetadata]) := by
  cases retention with
  | identifiersOnly =>
    refine List.Sublist.trans ?_ (List.sublist_append_right _ _)
    exact writes_cacheDelta.paths
  | readable =>
    rw [cacheDelta, List.map_append]
    refine List.Sublist.append ?_ writes_stampDelta.paths
    refine Delta.paths_filterMap (fun p m hm => ?_) ActivationProperty.all
    dsimp only at hm
    split at hm
    · cases hm
    · rw [← Option.some.inj hm]

theorem repeatable_of_mem_cacheDelta :
    ∀ m ∈ ctx.cacheDelta retention s known o, m.Repeatable := by
  cases retention with
  | identifiersOnly => exact writes_cacheDelta.each
  | readable =>
    refine List.forall_mem_append.2 ⟨fun m hm => ?_, writes_stampDelta.each⟩
    obtain ⟨p, -, rfl⟩ := mem_activationDelta_iff.1 hm
    exact .replaces rfl

theorem paths_itemsDelta :
    ((ctx.itemsDelta retention s known o lifecycle).map ItemDelta.path).Sublist
      ItemPath.others := by
  simp only [itemsDelta, List.map_append]
  exact (((writes_nameDelta.paths.append writes_auxiliaryDelta.paths).append
    writes_presenceDelta.paths).append writes_productionDelta.paths).append paths_cacheDelta

theorem repeatable_of_mem_itemsDelta :
    ∀ m ∈ ctx.itemsDelta retention s known o lifecycle, m.Repeatable := by
  simp only [itemsDelta, List.forall_mem_append]
  exact ⟨⟨⟨⟨writes_nameDelta.each, writes_auxiliaryDelta.each⟩, writes_presenceDelta.each⟩,
    writes_productionDelta.each⟩, repeatable_of_mem_cacheDelta⟩

/-! #### The whole delta -/

variable {parts : List Delta}

/-- Kept attributes have names of their own, and what is stale has others. -/
theorem nodup_paths_attributes (h : Unambiguous ctx.definition s o)
    (hparts : List.Forall₂ (Single s) (ctx.persisted retention o) parts) :
    ((parts.flatten ++ ctx.staleDelta retention s o).map ItemDelta.path).Nodup := by
  have hobserved : (parts.flatten.map ItemDelta.path).Sublist
      ((ctx.persisted retention o).map fun p => .attributeValues (s.storedName p.1.name)) := by
    refine Delta.paths_flatten (hparts.imp fun p part hm => ?_)
    obtain ⟨m, hpath, -, hsublist⟩ := hm
    rw [← hpath]
    exact hsublist.map ItemDelta.path
  have hnames : ((ctx.persisted retention o).map fun p =>
      ItemPath.attributeValues (s.storedName p.1.name)).Nodup :=
    List.pairwise_map.2 (h.persisted_pairwise.imp fun hne e =>
      hne (ItemPath.attributeValues.inj e))
  rw [List.map_append, List.nodup_append]
  refine ⟨hobserved.nodup hnames, nodup_paths_staleDelta, fun x hx y hy e => ?_⟩
  obtain ⟨p, hp, rfl⟩ := List.mem_map.1 (hobserved.subset hx)
  obtain ⟨m, hm, rfl⟩ := List.mem_map.1 hy
  obtain ⟨name, hno, -, rfl⟩ := mem_staleDelta_iff.1 hm
  exact hno (mem_handledNames_iff.2 ⟨p, hp, ItemPath.attributeValues.inj e⟩)

/-- All of these may be applied again. -/
theorem repeatable_of_mem_attributes
    (hparts : List.Forall₂ (Single s) (ctx.persisted retention o) parts) :
    ∀ m ∈ parts.flatten ++ ctx.staleDelta retention s o, m.Repeatable := by
  intro m hm
  rcases List.mem_append.1 hm with hm | hm
  · obtain ⟨part, hpart, hm⟩ := List.mem_flatten.1 hm
    obtain ⟨p, -, m', -, hrepeatable, hsublist⟩ :=
      (List.exists_of_forall₂ hparts).2 part hpart
    rw [List.mem_singleton.1 (hsublist.subset hm)]
    exact hrepeatable
  · obtain ⟨name, -, -, rfl⟩ := mem_staleDelta_iff.1 hm
    exact .edits rfl nofun

/-- The delta of a reconciliation is repeatable, if all values of the attributes that are kept were
observed. -/
theorem repeatable_of_delta (hrules : ctx.rules.Idempotent) (hsame : ctx.rules.RespectsSameness)
    (h : Unambiguous ctx.definition s o)
    (hcomplete : ∀ p ∈ ctx.persisted retention o, p.2.incomplete = false)
    (hr : ctx.strategy.retention = .ok retention) (hd : ctx.delta s o known lifecycle = .ok d) :
    d.Repeatable := by
  obtain ⟨changes, hchanges, rfl⟩ := (delta_eq_ok_iff_attributesDelta hr).1 hd
  obtain ⟨parts, hparts, hall⟩ := attributesDelta_eq_ok_iff.1 hchanges
  have hsingle : List.Forall₂ (Single s) (ctx.persisted retention o) parts := by
    refine ((List.forall₂_and_left _ _).2 ⟨hcomplete, hparts⟩).imp fun p part hp => ?_
    exact single_of_attributeDelta hrules hsame hp.1 hp.2
  constructor
  · rw [List.map_append, List.nodup_append]
    refine ⟨?_, paths_itemsDelta.nodup ItemPath.nodup_others, ?_⟩
    · rw [hall]
      exact nodup_paths_attributes h hsingle
    · intro x hx y hy e
      obtain ⟨m, hm, rfl⟩ := List.mem_map.1 hx
      obtain ⟨name, hpath⟩ := mem_attributesDelta_path hchanges hm
      refine ItemPath.not_mem_others name ?_
      rw [← hpath, e]
      exact paths_itemsDelta.subset hy
  · refine List.forall_mem_append.2 ⟨?_, repeatable_of_mem_itemsDelta⟩
    rw [hall]
    exact repeatable_of_mem_attributes hsingle

/-- **The modifications of a reconciliation may be applied in any order and more than once**, where
the rules are idempotent and respect sameness.  If each of them is applied at least once, and
nothing else, they lead where the delta leads, from whichever shadow. -/
theorem appliedTo_of_mem_iff (hrules : ctx.rules.Idempotent) (hsame : ctx.rules.RespectsSameness)
    (h : Unambiguous ctx.definition s o)
    (hcomplete : ∀ p ∈ ctx.persisted retention o, p.2.incomplete = false)
    (hr : ctx.strategy.retention = .ok retention) (hd : ctx.delta s o known lifecycle = .ok d)
    {sequence : Delta} (hsequence : ∀ m, m ∈ sequence ↔ m ∈ d) (t : Shadow) :
    sequence.appliedTo t = d.appliedTo t :=
  (repeatable_of_delta hrules hsame h hcomplete hr hd).appliedTo_eq hsequence t

/-- The other way round and all of it twice. -/
theorem appliedTo_of_mem_iff_sample : ∃ d,
    sampleContext.delta sampleShadow sampleObservation none .live = .ok d ∧ 2 < d.length ∧
      Delta.appliedTo (d.reverse ++ d) sampleShadow = d.appliedTo sampleShadow := by
  obtain ⟨d, hd⟩ : ∃ d, sampleContext.delta sampleShadow sampleObservation none .live = .ok d :=
    ⟨_, rfl⟩
  have hmany : 2 < d.length := by
    cases hd
    decide +kernel
  refine ⟨d, hd, hmany, ?_⟩
  exact appliedTo_of_mem_iff sampleContext_idempotent sampleContext_respectsSameness
    sample_unambiguous (by decide +kernel) rfl hd (by simp) sampleShadow

/-- The negative zero is stored, and the positive one was observed next to a text. -/
def negativeStored : Shadow := storingGroups [.float Binary64.zero.neg]

def zeroAndTextObserved : Observation := observingGroups [.float .zero, .str "b"]

/-- The observed values are missing, and the negative zero was not observed. -/
def negativeDelta : Delta :=
  [{ path := .attributeValues (.unqualified "groups")
     add := [.float .zero, .str "b"]
     delete := [.float Binary64.zero.neg] },
    copiedAtEpoch]

/-- **A value that was added moves** when all is applied again, by a rule that tells both zeros
apart: the positive zero goes with the negative one, and is added behind the text. -/
theorem zero_moves :
    zeroContext.rules.Idempotent ∧
      Unambiguous zeroContext.definition negativeStored zeroAndTextObserved ∧
      (∀ p ∈ zeroContext.persisted .readable zeroAndTextObserved, p.2.incomplete = false) ∧
      zeroContext.strategy.retention = .ok .readable ∧
      zeroContext.delta negativeStored zeroAndTextObserved none .live = .ok negativeDelta ∧
      (negativeDelta.appliedTo negativeStored).valuesAt (.unqualified "groups") =
        [.float .zero, .str "b"] ∧
      (Delta.appliedTo (negativeDelta ++ negativeDelta) negativeStored).valuesAt
        (.unqualified "groups") = [.str "b", .float .zero] :=
  ⟨zeroContext_idempotent, groups_unambiguous _ _, by decide +kernel, rfl, by decide +kernel,
    by decide +kernel, by decide +kernel⟩

end ReconcileContext

end Reconciler
