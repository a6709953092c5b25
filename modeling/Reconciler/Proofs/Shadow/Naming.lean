/-
Names of attributes that single attributes out.

Definitions, shadows and observations each name attributes in their own way, and names only agree
loosely.  Where no name can be mistaken for another, an attribute is stored under one name for good.

* `CompositeDefinition.attributeNames`: the names of all attributes that a definition knows;
* `ItemName.OneToOne`: names of two lists pair up by agreement;
* `Unambiguous`: definition, shadow and observation of one object pair up.

Main statements:
* `Unambiguous.storedName_inj`: different attributes are stored under different names;
* `Unambiguous.valuesAt_storedName`: an attribute is found again where it was stored, in any shadow
  that only has names of the first one and names that it would store attributes under;
* `Unambiguous.persisted_pairwise`: no two observed attributes that are kept are stored under one
  name.
-/
import Reconciler.Shadow.Reconcile
import Mathlib.Data.List.Basic

namespace Reconciler

/-! ### The attributes of a definition -/

/-- All attributes that can be found in a definition; a type also shows those of its class. -/
def ObjectDefinition.knownAttributes : ObjectDefinition → List AttributeDefinition
  | .ofClass c => c.attributes
  | .ofType t => t.attributes ++ t.objectClass.attributes

theorem ObjectDefinition.mem_of_findAttribute? {d : ObjectDefinition} {name : ItemName}
    {a : AttributeDefinition} (h : d.findAttribute? name = some a) :
    a ∈ d.knownAttributes ∧ a.name.agrees name = true := by
  cases d with
  | ofClass c => exact ItemName.mem_of_find? h
  | ofType t =>
    simp only [findAttribute?, ObjectType.findAttribute?] at h
    cases ht : ItemName.find? AttributeDefinition.name t.attributes name with
    | some b =>
      rw [ht] at h
      cases h
      obtain ⟨hm, hb⟩ := ItemName.mem_of_find? ht
      exact ⟨List.mem_append_left _ hm, hb⟩
    | none =>
      rw [ht] at h
      obtain ⟨hm, hb⟩ := ItemName.mem_of_find? (show ItemName.find? _ _ _ = some a from h)
      exact ⟨List.mem_append_right _ hm, hb⟩

namespace CompositeDefinition

/-- All attributes that can be found in a definition with its auxiliary classes. -/
def knownAttributes (d : CompositeDefinition) : List AttributeDefinition :=
  d.structural.knownAttributes ++ d.auxiliary.flatMap ObjectClass.attributes

/-- The names of the attributes of a definition with its auxiliary classes. -/
def attributeNames (d : CompositeDefinition) : List ItemName :=
  d.knownAttributes.map AttributeDefinition.name

theorem mem_of_findAttribute? {d : CompositeDefinition} {name : ItemName}
    {a : AttributeDefinition} (h : d.findAttribute? name = some a) :
    a.name ∈ d.attributeNames ∧ a.name.agrees name = true := by
  unfold findAttribute? at h
  cases hs : d.structural.findAttribute? name with
  | some b =>
    rw [hs] at h
    cases h
    obtain ⟨hm, hb⟩ := ObjectDefinition.mem_of_findAttribute? hs
    exact ⟨List.mem_map_of_mem (List.mem_append_left _ hm), hb⟩
  | none =>
    rw [hs] at h
    obtain ⟨c, hc, hf⟩ := List.exists_of_findSome?_eq_some
      (show d.auxiliary.findSome? _ = some a from h)
    obtain ⟨hm, hb⟩ := ItemName.mem_of_find? hf
    exact ⟨List.mem_map_of_mem
      (List.mem_append_right _ (List.mem_flatMap.2 ⟨c, hc, hm⟩)), hb⟩

end CompositeDefinition

/-! ### Pairing up -/

/-- Agreement pairs each name of one list with at most one of the other. -/
def ItemName.OneToOne (names others : List ItemName) : Prop :=
  (∀ n ∈ names, ∀ m ∈ others, ∀ m' ∈ others, m.agrees n → m'.agrees n → m = m') ∧
    ∀ m ∈ others, ∀ n ∈ names, ∀ n' ∈ names, m.agrees n → m.agrees n' → n = n'

instance (names others : List ItemName) : Decidable (ItemName.OneToOne names others) :=
  inferInstanceAs (Decidable (_ ∧ _))

/-- No name of an attribute of an object can be taken for that of another. -/
structure Unambiguous (d : CompositeDefinition) (s : Shadow) (o : Observation) : Prop where
  defined : ∀ n ∈ d.attributeNames, ∀ n' ∈ d.attributeNames, n.agrees n' → n = n'
  stored : ItemName.OneToOne d.attributeNames s.attributes.keys
  observed : ItemName.OneToOne d.attributeNames o.attributes.keys

theorem Shadow.storedName_mem_or (s : Shadow) (n : ItemName) :
    s.storedName n ∈ s.attributes.keys ∨
      s.storedName n = n ∧ ∀ m ∈ s.attributes.keys, m.agrees n = false := by
  unfold storedName
  cases h : ItemName.find? id s.attributes.keys n with
  | some m => exact .inl (ItemName.mem_of_find? h).1
  | none =>
    refine .inr ⟨rfl, fun m hm => ?_⟩
    rw [Bool.eq_false_iff]
    intro ha
    have := ItemName.find?_isSome_iff.2 ⟨m, hm, (show (id m).agrees n = true from ha)⟩
    rw [h] at this
    cases this

theorem Shadow.valuesAt_eq_nil {s : Shadow} {n : ItemName} (h : n ∉ s.attributes.keys) :
    s.valuesAt n = [] := by
  have hnone : s.attributes.get? n = none := by
    rw [← Option.not_isSome_iff_eq_none, ← SortedMap.mem_keys_iff]
    exact h
  rw [valuesAt, hnone]
  rfl

namespace Unambiguous

variable {d : CompositeDefinition} {s t : Shadow} {o : Observation} {n n' m : ItemName}

/-- The only stored name that agrees with an attribute's is the one that it is stored under. -/
theorem eq_storedName (h : Unambiguous d s o) (hn : n ∈ d.attributeNames)
    (hm : m ∈ s.attributes.keys) (ha : m.agrees n = true) : m = s.storedName n := by
  rcases s.storedName_mem_or n with hs | ⟨-, hno⟩
  · exact h.stored.1 n hn m hm _ hs ha (s.storedName_agrees n)
  · rw [hno m hm] at ha
    cases ha

theorem storedName_inj (h : Unambiguous d s o) (hn : n ∈ d.attributeNames)
    (hn' : n' ∈ d.attributeNames) (e : s.storedName n = s.storedName n') : n = n' := by
  have ha : (s.storedName n).agrees n = true := s.storedName_agrees n
  have ha' : (s.storedName n).agrees n' = true := e ▸ s.storedName_agrees n'
  rcases s.storedName_mem_or n with hs | ⟨hs, -⟩
  · exact h.stored.2 _ hs n hn n' hn' ha ha'
  · rw [hs] at ha'
    exact h.defined n hn n' hn' ha'

/-- A shadow names attributes like another if it has no names but those that the other has or would
take. -/
def NamesLike (d : CompositeDefinition) (s t : Shadow) : Prop :=
  ∀ m ∈ t.attributes.keys,
    m ∈ s.attributes.keys ∨ ∃ n ∈ d.attributeNames, m = s.storedName n

theorem eq_storedName_of_namesLike (h : Unambiguous d s o) (ht : NamesLike d s t)
    (hn : n ∈ d.attributeNames) (hm : m ∈ t.attributes.keys) (ha : m.agrees n = true) :
    m = s.storedName n := by
  rcases ht m hm with hs | ⟨n', hn', rfl⟩
  · exact h.eq_storedName hn hs ha
  · rcases s.storedName_mem_or n' with hs | ⟨hs, -⟩
    · exact h.eq_storedName hn hs ha
    · rw [hs] at ha
      rw [h.defined n' hn' n hn ha]

theorem storedName_eq_of_mem (h : Unambiguous d s o) (ht : NamesLike d s t)
    (hn : n ∈ d.attributeNames) (hm : s.storedName n ∈ t.attributes.keys) :
    t.storedName n = s.storedName n := by
  rcases t.storedName_mem_or n with hk | ⟨-, hno⟩
  · exact h.eq_storedName_of_namesLike ht hn hk (t.storedName_agrees n)
  · have ha := s.storedName_agrees n
    rw [hno _ hm] at ha
    cases ha

/-- An attribute is found again where it was stored. -/
theorem valuesAt_storedName (h : Unambiguous d s o) (ht : NamesLike d s t)
    (hn : n ∈ d.attributeNames) :
    t.valuesAt (t.storedName n) = t.valuesAt (s.storedName n) := by
  by_cases hm : s.storedName n ∈ t.attributes.keys
  · rw [h.storedName_eq_of_mem ht hn hm]
  · -- Then nothing is stored of it, under whichever name.
    rw [Shadow.valuesAt_eq_nil hm]
    refine Shadow.valuesAt_eq_nil fun hk => hm ?_
    rwa [h.eq_storedName_of_namesLike ht hn hk (t.storedName_agrees n)] at hk

end Unambiguous

/-! ### Kept attributes -/

namespace ReconcileContext

variable {ctx : ReconcileContext} {retention : Retention} {s : Shadow} {o : Observation}

/-- An observed attribute with its definition, if it is kept. -/
def keeps? (ctx : ReconcileContext) (retention : Retention) (e : ItemName × ObservedAttribute) :
    Option (AttributeDefinition × ObservedAttribute) :=
  match ctx.definition.findAttribute? e.1 with
  | some a => if ctx.isPersisted retention a then some (a, e.2) else none
  | none => none

theorem persisted_eq (ctx : ReconcileContext) (retention : Retention) (o : Observation) :
    ctx.persisted retention o = o.attributes.entries.filterMap (ctx.keeps? retention) := rfl

theorem keeps?_eq_some_iff {e : ItemName × ObservedAttribute}
    {p : AttributeDefinition × ObservedAttribute} :
    ctx.keeps? retention e = some p ↔
      ctx.definition.findAttribute? e.1 = some p.1 ∧ ctx.isPersisted retention p.1 = true ∧
        e.2 = p.2 := by
  obtain ⟨a, observed⟩ := p
  unfold keeps?
  cases ctx.definition.findAttribute? e.1 with
  | none => simp
  | some b =>
    simp only [Option.ite_none_right_eq_some, Option.some.injEq, Prod.mk.injEq]
    constructor
    · rintro ⟨hk, rfl, rfl⟩
      exact ⟨rfl, hk, rfl⟩
    · rintro ⟨rfl, hk, rfl⟩
      exact ⟨hk, rfl, rfl⟩

theorem mem_persisted_iff {p : AttributeDefinition × ObservedAttribute} :
    p ∈ ctx.persisted retention o ↔
      ∃ name, o.attributes.get? name = some p.2 ∧ ctx.definition.findAttribute? name = some p.1 ∧
        ctx.isPersisted retention p.1 = true := by
  rw [persisted_eq, List.mem_filterMap]
  constructor
  · rintro ⟨⟨name, observed⟩, he, hp⟩
    obtain ⟨hf, hk, rfl⟩ := keeps?_eq_some_iff.1 hp
    exact ⟨name, SortedMap.mem_entries_iff.1 he, hf, hk⟩
  · rintro ⟨name, ho, hf, hk⟩
    exact ⟨(name, p.2), SortedMap.mem_entries_iff.2 ho, keeps?_eq_some_iff.2 ⟨hf, hk, rfl⟩⟩

theorem name_mem_of_mem_persisted {p : AttributeDefinition × ObservedAttribute}
    (h : p ∈ ctx.persisted retention o) : p.1.name ∈ ctx.definition.attributeNames := by
  obtain ⟨name, -, hf, -⟩ := mem_persisted_iff.1 h
  exact (CompositeDefinition.mem_of_findAttribute? hf).1

theorem mem_handledNames_iff {m : ItemName} :
    m ∈ ctx.handledNames retention s o ↔
      ∃ p ∈ ctx.persisted retention o, s.storedName p.1.name = m :=
  List.mem_map

end ReconcileContext

/-- No two observed attributes that are kept are stored under one name. -/
theorem Unambiguous.persisted_pairwise {ctx : ReconcileContext} {retention : Retention}
    {s : Shadow} {o : Observation} (h : Unambiguous ctx.definition s o) :
    (ctx.persisted retention o).Pairwise fun p q =>
      s.storedName p.1.name ≠ s.storedName q.1.name := by
  have hkeys : o.attributes.entries.Pairwise fun e e' =>
      (e.1 ∈ o.attributes.keys ∧ e'.1 ∈ o.attributes.keys) ∧ e.1 ≠ e'.1 := by
    refine List.Pairwise.imp_of_mem ?_ (List.pairwise_map.1 o.attributes.nodup_keys)
    intro e e' he he' hne
    exact ⟨⟨List.mem_map_of_mem he, List.mem_map_of_mem he'⟩, hne⟩
  rw [ReconcileContext.persisted_eq]
  refine List.Pairwise.filterMap _ ?_ hkeys
  rintro e e' ⟨⟨he, he'⟩, hne⟩ p hp q hq hs
  obtain ⟨hp, -⟩ := ReconcileContext.keeps?_eq_some_iff.1 hp
  obtain ⟨hq, -⟩ := ReconcileContext.keeps?_eq_some_iff.1 hq
  obtain ⟨hpn, hpa⟩ := CompositeDefinition.mem_of_findAttribute? hp
  obtain ⟨hqn, hqa⟩ := CompositeDefinition.mem_of_findAttribute? hq
  -- Both were observed under names that agree with the name of one definition.
  have hpq : p.1.name = q.1.name := h.storedName_inj hpn hqn hs
  rw [ItemName.agrees_comm] at hpa hqa
  exact hne (h.observed.1 _ hpn _ he _ he' hpa (hpq ▸ hqa))

end Reconciler
