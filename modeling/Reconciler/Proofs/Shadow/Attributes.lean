/-
What a delta does to the attributes of a shadow.

Main statements:
* `Delta.valuesAt_appliedTo`: what is stored under a name is changed by the modifications of just
  this name;
* `Delta.mem_keys_appliedTo`: no other names come up;
* `ReconcileContext.attributeDelta_eq_ofItem`: in the delta of a reconciliation, the modifications
  of an observed attribute are those that its own values call for;
* `ReconcileContext.valuesAt_appliedTo_of_not_handled`: nothing is left under any other name.

Design notes:
* An attribute keeps its own modifications only where attributes are stored under names of their
  own; `Unambiguous` is used for nothing else here.
-/
import Reconciler.Proofs.Results
import Reconciler.Proofs.Shadow.InLine
import Reconciler.Proofs.Shadow.Items
import Reconciler.Proofs.Shadow.Naming

namespace Reconciler

/-! ### Modifications of one attribute -/

namespace ItemDelta

theorem mem_keys_setValues {attributes : AttributeValues} {name n : ItemName} {values : List Json}
    (h : n ∈ (setValues attributes name values).keys) : n = name ∨ n ∈ attributes.keys := by
  by_cases hn : n = name
  · exact .inl hn
  · refine .inr ?_
    unfold setValues at h
    rw [SortedMap.mem_keys_iff] at h ⊢
    split at h
    · rwa [SortedMap.get?_erase, if_neg hn] at h
    · rwa [SortedMap.get?_insert, if_neg hn] at h

theorem mem_keys_applyTo {m : ItemDelta} {s : Shadow} {n : ItemName}
    (h : n ∈ (m.applyTo s).attributes.keys) :
    m.path = .attributeValues n ∨ n ∈ s.attributes.keys := by
  cases hp : m.path with
  | attributeValues name =>
    simp only [applyTo, hp] at h
    rcases mem_keys_setValues h with rfl | h
    · exact .inl rfl
    · exact .inr h
  | _ =>
    simp only [applyTo, hp] at h
    exact .inr h

end ItemDelta

namespace Delta

/-- What is stored under a name is changed by the modifications of just this name. -/
theorem valuesAt_appliedTo (d : Delta) (s : Shadow) (name : ItemName) :
    (d.appliedTo s).valuesAt name =
      (d.ofItem (.attributeValues name)).modified (s.valuesAt name) := by
  have hown : ∀ m ∈ d.ofItem (.attributeValues name), m.path = .attributeValues name :=
    fun m hm => (mem_ofItem_iff.1 hm).2
  refine (d.content_appliedTo s (.attributeValues name)).trans ?_
  generalize d.ofItem (.attributeValues name) = own at hown
  show (own.appliedTo s).valuesAt name = _
  -- All that is left modifies this attribute, one modification after another.
  induction own generalizing s with
  | nil => rfl
  | cons m own ih =>
    show (appliedTo own (m.applyTo s)).valuesAt name = _
    rw [ih _ fun m' hm' => hown m' (List.mem_cons_of_mem _ hm'),
      ItemDelta.valuesAt_applyTo (hown m List.mem_cons_self), if_pos rfl]
    rfl

theorem mem_keys_appliedTo {d : Delta} {s : Shadow} {n : ItemName}
    (h : n ∈ (d.appliedTo s).attributes.keys) :
    (∃ m ∈ d, m.path = .attributeValues n) ∨ n ∈ s.attributes.keys := by
  induction d generalizing s with
  | nil => exact .inr h
  | cons m d ih =>
    rcases ih h with ⟨m', hm', hp⟩ | h
    · exact .inl ⟨m', List.mem_cons_of_mem _ hm', hp⟩
    · rcases ItemDelta.mem_keys_applyTo h with hp | h
      · exact .inl ⟨m, List.mem_cons_self .., hp⟩
      · exact .inr h

/-- Of parts that each modify an attribute of their own, an attribute has its own part only. -/
theorem ofItem_flatten {α : Type} (nameOf : α → ItemName) {part : α → Delta → Prop}
    (hpart : ∀ x d, part x d → ∀ m ∈ d, m.path = .attributeValues (nameOf x))
    {xs : List α} {parts : List Delta} (h : List.Forall₂ part xs parts)
    (hne : xs.Pairwise fun x y => nameOf x ≠ nameOf y) {x : α} (hx : x ∈ xs) :
    part x (ofItem parts.flatten (.attributeValues (nameOf x))) := by
  induction h with
  | nil => cases hx
  | @cons y d ys ds hd hds ih =>
    obtain ⟨hfirst, hrest⟩ := List.pairwise_cons.1 hne
    rw [List.flatten_cons, ofItem_append]
    rcases List.mem_cons.1 hx with rfl | hx
    · -- The parts of others have other names.
      have hnil : ofItem ds.flatten (.attributeValues (nameOf x)) = [] := by
        refine ofItem_eq_nil fun m hm he => ?_
        obtain ⟨e, hem, hm⟩ := List.mem_flatten.1 hm
        obtain ⟨z, hz, hze⟩ := (List.exists_of_forall₂ hds).2 e hem
        rw [hpart z _ hze m hm] at he
        exact hfirst z hz (ItemPath.attributeValues.inj he).symm
      rw [ofItem_eq_self (hpart x d hd), hnil, List.append_nil]
      exact hd
    · have hnil : d.ofItem (.attributeValues (nameOf x)) = [] := by
        refine ofItem_eq_nil fun m hm hp => ?_
        rw [hpart y d hd m hm] at hp
        exact hfirst x hx (ItemPath.attributeValues.inj hp)
      rw [hnil]
      exact ih hrest hx

/-- Deletions of all values leave none, if there is one or there was nothing. -/
theorem modified_of_deletions (path : ItemPath) {values : List Json} {d : Delta}
    (h : ∀ m ∈ d, m = { path := path, delete := values }) (hne : values ≠ [] → d ≠ []) :
    d.modified values = [] := by
  have hempty : ∀ d : Delta, (∀ m ∈ d, m = { path := path, delete := values }) →
      Delta.modified d [] = [] := by
    intro d
    induction d with
    | nil => exact fun _ => rfl
    | cons m d ih =>
      intro h
      rw [modified_cons, h m List.mem_cons_self]
      exact ih fun m' hm' => h m' (List.mem_cons_of_mem _ hm')
  cases d with
  | nil =>
    by_cases hv : values = []
    · exact hv
    · exact absurd rfl (hne hv)
  | cons m d =>
    -- The first deletion takes all values, and the others find none.
    have hfirst : m.modified values = [] := by
      rw [h m List.mem_cons_self]
      refine List.filter_eq_nil_iff.2 fun v hv => ?_
      show ¬(!v.isIn values) = true
      rw [Json.isIn_of_mem hv]
      exact Bool.false_ne_true
    rw [modified_cons, hfirst]
    exact hempty d fun m' hm' => h m' (List.mem_cons_of_mem _ hm')

end Delta

/-! ### The modifications of a reconciliation -/

namespace ReconcileContext

variable {ctx : ReconcileContext} {retention : Retention} {s : Shadow} {known : Option Delta}
variable {o : Observation} {lifecycle : LifecycleState} {d : Delta}
variable {p : AttributeDefinition × ObservedAttribute} {name : ItemName}

theorem attributeDelta_of_complete (h : p.2.incomplete = false) :
    ctx.attributeDelta s known p.1 p.2 =
      ctx.completeDelta s p.1 (s.storedName p.1.name) p.2.values := by
  rw [attributeDelta, h]
  rfl

theorem attributeDelta_of_incomplete (h : p.2.incomplete = true) :
    ctx.attributeDelta s known p.1 p.2 =
      ctx.incompleteDelta known p.1 (s.storedName p.1.name) := by
  rw [attributeDelta, h]
  rfl

/-- Attributes are modified where they were observed, and where they are stale. -/
theorem attributesDelta_eq_ok_iff {changes : Delta} :
    ctx.attributesDelta retention s known o = .ok changes ↔
      ∃ parts, List.Forall₂ (fun p part => ctx.attributeDelta s known p.1 p.2 = .ok part)
          (ctx.persisted retention o) parts ∧
        changes = parts.flatten ++ ctx.staleDelta retention s o := by
  simp only [attributesDelta, Except.bind_eq_ok_iff, List.mapM_eq_ok_iff, pure, Except.pure,
    Except.ok.injEq, @eq_comm _ changes]

/-- A delta lists the modifications of attributes, and then those of other items. -/
theorem delta_eq_ok_iff_attributesDelta (hr : ctx.strategy.retention = .ok retention) :
    ctx.delta s o known lifecycle = .ok d ↔
      ∃ changes, ctx.attributesDelta retention s known o = .ok changes ∧
        d = changes ++ ctx.itemsDelta retention s known o lifecycle := by
  rw [delta, hr]
  dsimp only
  cases ctx.attributesDelta retention s known o with
  | error e => simp
  | ok changes => simp [eq_comm]

/-- A delta lists the modifications of observed attributes, of stale ones and of other items. -/
theorem delta_eq_ok_iff (hr : ctx.strategy.retention = .ok retention) :
    ctx.delta s o known lifecycle = .ok d ↔
      ∃ parts, List.Forall₂ (fun p part => ctx.attributeDelta s known p.1 p.2 = .ok part)
          (ctx.persisted retention o) parts ∧
        d = parts.flatten ++ ctx.staleDelta retention s o ++
          ctx.itemsDelta retention s known o lifecycle := by
  rw [delta_eq_ok_iff_attributesDelta hr]
  constructor
  · rintro ⟨changes, hchanges, rfl⟩
    obtain ⟨parts, hparts, rfl⟩ := attributesDelta_eq_ok_iff.1 hchanges
    exact ⟨parts, hparts, rfl⟩
  · rintro ⟨parts, hparts, rfl⟩
    exact ⟨_, attributesDelta_eq_ok_iff.2 ⟨parts, hparts, rfl⟩, rfl⟩

theorem mem_staleDelta_iff {m : ItemDelta} :
    m ∈ ctx.staleDelta retention s o ↔
      ∃ name, name ∉ ctx.handledNames retention s o ∧ s.valuesAt name ≠ [] ∧
        m = { path := .attributeValues name, delete := s.valuesAt name } := by
  rw [staleDelta, List.mem_filterMap]
  constructor
  · rintro ⟨⟨name, values⟩, he, h⟩
    have hvalues : s.valuesAt name = values := by
      rw [Shadow.valuesAt, SortedMap.mem_entries_iff.1 he]
      rfl
    split at h
    · cases h
    · next hstale =>
      rw [not_or] at hstale
      rw [← Option.some.inj h, ← hvalues]
      exact ⟨name, hstale.1, hvalues ▸ hstale.2, rfl⟩
  · rintro ⟨name, hno, hne, rfl⟩
    obtain ⟨values, hvalues⟩ : ∃ values, s.attributes.get? name = some values := by
      cases h : s.attributes.get? name with
      | none => exact absurd (by rw [Shadow.valuesAt, h]; rfl) hne
      | some values => exact ⟨values, rfl⟩
    have heq : s.valuesAt name = values := by
      rw [Shadow.valuesAt, hvalues]
      rfl
    rw [heq] at hne ⊢
    -- An entry is stale unless it is handled or empty.
    refine ⟨(name, values), SortedMap.mem_entries_iff.2 hvalues, if_neg ?_⟩
    rintro (h | h)
    · exact hno h
    · exact hne h

/-- Only attributes are touched by the modifications of attributes. -/
theorem mem_attributesDelta_path (h : ctx.attributesDelta retention s known o = .ok d)
    {m : ItemDelta} (hm : m ∈ d) : ∃ name, m.path = .attributeValues name := by
  obtain ⟨parts, hparts, rfl⟩ := attributesDelta_eq_ok_iff.1 h
  rcases List.mem_append.1 hm with hm | hm
  · obtain ⟨part, hpart, hm⟩ := List.mem_flatten.1 hm
    obtain ⟨p, -, hpart⟩ := (List.exists_of_forall₂ hparts).2 part hpart
    exact ⟨_, ctx.mem_attributeDelta_path s known hpart hm⟩
  · obtain ⟨name, -, -, rfl⟩ := mem_staleDelta_iff.1 hm
    exact ⟨name, rfl⟩

/-- The modifications of other items touch no attribute. -/
theorem path_ne_of_mem_itemsDelta {m : ItemDelta}
    (hm : m ∈ ctx.itemsDelta retention s known o lifecycle) : m.path ≠ .attributeValues name := by
  have hnone :
      (ctx.itemsDelta retention s known o lifecycle).ofItem (.attributeValues name) = [] :=
    ofItem_itemsDelta _
  intro hpath
  exact List.not_mem_nil (hnone ▸ Delta.mem_ofItem_iff.2 ⟨hm, hpath⟩)

/-- Attributes are modified where they are observed and kept, or where they are stale. -/
theorem mem_delta_attribute (hr : ctx.strategy.retention = .ok retention)
    (hd : ctx.delta s o known lifecycle = .ok d) {m : ItemDelta} (hm : m ∈ d)
    (hpath : m.path = .attributeValues name) :
    name ∈ ctx.handledNames retention s o ∨ m ∈ ctx.staleDelta retention s o := by
  obtain ⟨parts, hparts, rfl⟩ := (delta_eq_ok_iff hr).1 hd
  rcases List.mem_append.1 hm with hm | hm
  · rcases List.mem_append.1 hm with hm | hm
    · obtain ⟨part, hpart, hm⟩ := List.mem_flatten.1 hm
      obtain ⟨p, hp, hpart⟩ := (List.exists_of_forall₂ hparts).2 part hpart
      have hname := ctx.mem_attributeDelta_path s known hpart hm
      rw [hpath] at hname
      exact .inl (mem_handledNames_iff.2 ⟨p, hp, (ItemPath.attributeValues.inj hname).symm⟩)
    · exact .inr hm
  · exact absurd hpath (path_ne_of_mem_itemsDelta hm)

/-- The modifications of an observed attribute that is kept are those that it itself calls for. -/
theorem attributeDelta_eq_ofItem (h : Unambiguous ctx.definition s o)
    (hr : ctx.strategy.retention = .ok retention) (hd : ctx.delta s o known lifecycle = .ok d)
    (hp : p ∈ ctx.persisted retention o) :
    ctx.attributeDelta s known p.1 p.2 =
      .ok (d.ofItem (.attributeValues (s.storedName p.1.name))) := by
  obtain ⟨parts, hparts, rfl⟩ := (delta_eq_ok_iff hr).1 hd
  have hstale : (ctx.staleDelta retention s o).ofItem
      (.attributeValues (s.storedName p.1.name)) = [] := by
    refine Delta.ofItem_eq_nil fun m hm he => ?_
    obtain ⟨name, hno, -, rfl⟩ := mem_staleDelta_iff.1 hm
    exact hno (mem_handledNames_iff.2 ⟨p, hp, (ItemPath.attributeValues.inj he).symm⟩)
  rw [Delta.ofItem_append, Delta.ofItem_append, hstale, ofItem_itemsDelta, List.append_nil,
    List.append_nil]
  exact Delta.ofItem_flatten (fun p => s.storedName p.1.name)
    (fun q part hq m hm => ctx.mem_attributeDelta_path s known hq hm) hparts h.persisted_pairwise hp

/-- Other items have the modifications that they call for. -/
theorem ofItem_delta_of_ne (hr : ctx.strategy.retention = .ok retention)
    (hd : ctx.delta s o known lifecycle = .ok d) {path : ItemPath}
    (hpath : ∀ name, path ≠ .attributeValues name) :
    d.ofItem path = (ctx.itemsDelta retention s known o lifecycle).ofItem path := by
  obtain ⟨changes, hchanges, rfl⟩ := (delta_eq_ok_iff_attributesDelta hr).1 hd
  have hattributes : changes.ofItem path = [] := by
    refine Delta.ofItem_eq_nil fun m hm he => ?_
    obtain ⟨name, hname⟩ := mem_attributesDelta_path hchanges hm
    exact hpath name (he.symm.trans hname)
  rw [Delta.ofItem_append, hattributes, List.nil_append]

/-- Nothing is left under a name that no observed attribute that is kept is stored under. -/
theorem valuesAt_appliedTo_of_not_handled (hr : ctx.strategy.retention = .ok retention)
    (hd : ctx.delta s o known lifecycle = .ok d) (hno : name ∉ ctx.handledNames retention s o) :
    (d.appliedTo s).valuesAt name = [] := by
  rw [Delta.valuesAt_appliedTo]
  refine Delta.modified_of_deletions (.attributeValues name) (fun m hm => ?_) fun hne => ?_
  · obtain ⟨hm, hpath⟩ := Delta.mem_ofItem_iff.1 hm
    rcases mem_delta_attribute hr hd hm hpath with h | h
    · exact absurd h hno
    · obtain ⟨other, -, -, rfl⟩ := mem_staleDelta_iff.1 h
      rw [ItemPath.attributeValues.inj hpath]
  · obtain ⟨parts, -, rfl⟩ := (delta_eq_ok_iff hr).1 hd
    have hstale : { path := .attributeValues name, delete := s.valuesAt name } ∈
        ctx.staleDelta retention s o := mem_staleDelta_iff.2 ⟨name, hno, hne, rfl⟩
    exact List.ne_nil_of_mem (Delta.mem_ofItem_iff.2
      ⟨List.mem_append_left _ (List.mem_append_right _ hstale), rfl⟩)

/-- Reconciling brings up no names but those that attributes are stored under. -/
theorem namesLike_appliedTo (hr : ctx.strategy.retention = .ok retention)
    (hd : ctx.delta s o known lifecycle = .ok d) :
    Unambiguous.NamesLike ctx.definition s (d.appliedTo s) := by
  intro name hname
  rcases Delta.mem_keys_appliedTo hname with ⟨m, hm, hpath⟩ | h
  · rcases mem_delta_attribute hr hd hm hpath with h | h
    · obtain ⟨p, hp, rfl⟩ := mem_handledNames_iff.1 h
      exact .inr ⟨p.1.name, name_mem_of_mem_persisted hp, rfl⟩
    · obtain ⟨other, -, hne, rfl⟩ := mem_staleDelta_iff.1 h
      obtain rfl : other = name := ItemPath.attributeValues.inj hpath
      refine .inl ?_
      by_cases hk : other ∈ s.attributes.keys
      · exact hk
      · exact absurd (Shadow.valuesAt_eq_nil hk) hne
  · exact .inl h

end ReconcileContext

end Reconciler
