/-
Looking up by name, in two ways.

A name may agree with several items.  A schema and the definition of an object prefer the item that
has exactly the name; what a connector reports, and a view of a definition at one layer, are
searched for the first item that agrees.

* `ItemName.MetAtFirst`: if any item has exactly a name, so has the first that agrees with it;
* `ItemName.AlikeAtFirst`: how the two ways compare on a list of items;
* `Schema.definitions`: the definitions that a schema offers, classes and types.

Main statements:
* `ItemName.map_find?_eq_iff`: for which names both ways find the same;
* `ItemName.forall_metAtFirst_iff`: for which lists they find the same under every name;
* `Schema.Fits.findAttribute?_eq`: a type never has to fall back on its class;
* `Schema.lookups_alike`: what this means for classes as reported and for views of definitions.
-/
import Reconciler.Proofs.Schema.Accounting

namespace Reconciler

namespace ItemName

variable {α β : Type} {nameOf : α → ItemName} {nameOf' : β → ItemName} {items : List α}

/-! ### Exactly, and at first -/

/-- If any item has exactly this name, so has the first item that agrees with it. -/
def MetAtFirst (nameOf : α → ItemName) (items : List α) (name : ItemName) : Prop :=
  (∃ a ∈ items, nameOf a = name) →
    ∃ a, items.find? (fun a => (nameOf a).agrees name) = some a ∧ nameOf a = name

theorem find?_of_exact {name : ItemName} {a : α}
    (h : items.find? (fun a => nameOf a == name) = some a) : find? nameOf items name = some a := by
  unfold find?
  rw [h]
  rfl

theorem find?_of_no_exact {name : ItemName} (h : ∀ a ∈ items, nameOf a ≠ name) :
    find? nameOf items name = items.find? fun a => (nameOf a).agrees name := by
  have hexact : items.find? (fun a => nameOf a == name) = none :=
    List.find?_eq_none.2 fun a ha heq => h a ha (eq_of_beq heq)
  unfold find?
  rw [hexact]
  rfl

/-- The first that agrees is the first with exactly the name, if it has the name at all. -/
theorem find?_exact_of_first {name : ItemName} {a : α}
    (h : items.find? (fun a => (nameOf a).agrees name) = some a) (hname : nameOf a = name) :
    items.find? (fun a => nameOf a == name) = some a := by
  obtain ⟨-, before, after, rfl, hbefore⟩ := List.find?_eq_some_iff_append.1 h
  refine List.find?_eq_some_iff_append.2 ⟨by simpa using hname, before, after, rfl, fun b hb => ?_⟩
  have hno : (nameOf b).agrees name = false := by simpa using hbefore b hb
  suffices nameOf b ≠ name by simpa using this
  intro heq
  rw [heq, agrees_refl] at hno
  cases hno

/-- Both ways find the same under a name just when it is met at first; it does not matter what is
then made of the item, as long as that keeps its name. -/
theorem map_find?_eq_iff {f : α → β} (hf : ∀ a, nameOf' (f a) = nameOf a) (items : List α)
    (name : ItemName) :
    (find? nameOf items name).map f = (items.find? fun a => (nameOf a).agrees name).map f ↔
      MetAtFirst nameOf items name := by
  by_cases hexact : ∃ a ∈ items, nameOf a = name
  · constructor
    · intro heq _
      obtain ⟨e, he⟩ : ∃ e, items.find? (fun a => nameOf a == name) = some e := by
        obtain ⟨a, ha, hname⟩ := hexact
        exact Option.isSome_iff_exists.1 (List.find?_isSome.2 ⟨a, ha, by simpa using hname⟩)
      have hename : nameOf e = name := by simpa using List.find?_some he
      rw [find?_of_exact he] at heq
      obtain ⟨a, ha, hfa⟩ := Option.map_eq_some_iff.1 heq.symm
      refine ⟨a, ha, ?_⟩
      calc nameOf a = nameOf' (f a) := (hf a).symm
        _ = nameOf' (f e) := congrArg nameOf' hfa
        _ = name := (hf e).trans hename
    · intro hmet
      obtain ⟨a, ha, hname⟩ := hmet hexact
      rw [find?_of_exact (find?_exact_of_first ha hname), ha]
  · rw [find?_of_no_exact fun a ha hname => hexact ⟨a, ha, hname⟩]
    exact ⟨fun _ h => absurd h hexact, fun _ => rfl⟩

/-- Every name is met at first just when no two items have names that agree without being the
same. -/
theorem forall_metAtFirst_iff :
    (∀ name, MetAtFirst nameOf items name) ↔
      items.Pairwise fun a b => (nameOf a).agrees (nameOf b) = true → nameOf a = nameOf b := by
  induction items with
  | nil => simp [MetAtFirst]
  | cons a rest ih =>
    have hfirst : ∀ b, (nameOf a).agrees (nameOf b) = true →
        (a :: rest).find? (fun a => (nameOf a).agrees (nameOf b)) = some a := fun b h => by
      rw [List.find?_cons, h]
    have hlater : ∀ b, (nameOf a).agrees (nameOf b) = false →
        (a :: rest).find? (fun a => (nameOf a).agrees (nameOf b)) =
          rest.find? fun a => (nameOf a).agrees (nameOf b) := fun b h => by
      rw [List.find?_cons, h]
    rw [List.pairwise_cons, ← ih]
    constructor
    · intro h
      have hhead : ∀ b ∈ rest, (nameOf a).agrees (nameOf b) = true → nameOf a = nameOf b := by
        intro b hb hagrees
        obtain ⟨c, hc, hname⟩ := h (nameOf b) ⟨b, List.mem_cons_of_mem _ hb, rfl⟩
        rw [hfirst b hagrees, Option.some.injEq] at hc
        rw [hc, hname]
      refine ⟨hhead, ?_⟩
      rintro _ ⟨b, hb, rfl⟩
      cases hagrees : (nameOf a).agrees (nameOf b) with
      | true =>
        -- All that agrees with this name has the name of `a`.
        have hsame : nameOf a = nameOf b := hhead b hb hagrees
        obtain ⟨c, hc⟩ : ∃ c, rest.find? (fun a => (nameOf a).agrees (nameOf b)) = some c :=
          Option.isSome_iff_exists.1 (List.find?_isSome.2 ⟨b, hb, agrees_refl _⟩)
        have hcb : (nameOf c).agrees (nameOf b) = true := by simpa using List.find?_some hc
        have hac : (nameOf a).agrees (nameOf c) = true := by rw [hsame, agrees_comm, hcb]
        exact ⟨c, hc, (hhead c (List.mem_of_find?_eq_some hc) hac).symm.trans hsame⟩
      | false =>
        rw [← hlater b hagrees]
        exact h (nameOf b) ⟨b, List.mem_cons_of_mem _ hb, rfl⟩
    · rintro ⟨hhead, hrest⟩ _ ⟨b, hb, rfl⟩
      cases hagrees : (nameOf a).agrees (nameOf b) with
      | true =>
        refine ⟨a, hfirst b hagrees, ?_⟩
        rcases List.mem_cons.1 hb with rfl | hb
        · rfl
        · exact hhead b hb hagrees
      | false =>
        rw [hlater b hagrees]
        rcases List.mem_cons.1 hb with rfl | hb
        · simp at hagrees
        · exact hrest (nameOf b) ⟨b, hb, rfl⟩

/-- How two ways to look up compare, one that prefers the item with exactly the name and one that
takes the first that agrees: they find something under the same names, the same thing under the
names that are met at first, and the same thing under every name just when no two items have names
that agree without being the same. -/
structure AlikeAtFirst (nameOf : α → ItemName) (items : List α)
    (preferring taking : ItemName → Option β) : Prop where
  isSome_eq : ∀ name, (preferring name).isSome = (taking name).isSome
  eq_iff : ∀ name, preferring name = taking name ↔ MetAtFirst nameOf items name
  forall_eq_iff : (∀ name, preferring name = taking name) ↔
    items.Pairwise fun a b => (nameOf a).agrees (nameOf b) = true → nameOf a = nameOf b

theorem alikeAtFirst (f : α → β) (hf : ∀ a, nameOf' (f a) = nameOf a) (items : List α) :
    AlikeAtFirst nameOf items (fun name => (find? nameOf items name).map f)
      fun name => (items.find? fun a => (nameOf a).agrees name).map f where
  isSome_eq name := by
    rw [Option.isSome_map, Option.isSome_map, Bool.eq_iff_iff, find?_isSome_iff, List.find?_isSome]
  eq_iff name := map_find?_eq_iff hf items name
  forall_eq_iff := by
    rw [← forall_metAtFirst_iff]
    exact forall_congr' fun name => map_find?_eq_iff hf items name

end ItemName

namespace Schema

open ItemName (AlikeAtFirst)

/-! ### Classes, and definitions at a layer -/

/-- The definitions that a schema offers: its classes as they are, and its types. -/
def definitions (s : Schema) : List ObjectDefinition :=
  s.classes.map .ofClass ++ s.types.map .ofType

variable {s : Schema} {t : ObjectType}

/-- A type that is made of its class finds an attribute whenever the class does. -/
theorem Fits.findAttribute?_eq (h : s.Fits t) (name : ItemName) :
    t.findAttribute? name = ItemName.find? AttributeDefinition.name t.attributes name := by
  unfold ObjectType.findAttribute?
  cases hfound : ItemName.find? AttributeDefinition.name t.attributes name with
  | some a => rfl
  | none =>
    show t.objectClass.findAttribute? name = none
    rw [← Option.not_isSome_iff_eq_none, ObjectClass.findAttribute?_isSome_iff]
    rintro ⟨base, hbase, hagrees⟩
    have hname : base.name ∈ t.attributes.map AttributeDefinition.name :=
      h.attributes ▸ List.mem_map_of_mem hbase
    obtain ⟨a, ha, hsame⟩ := List.mem_map.1 hname
    have hsome := ItemName.find?_isSome_iff.2 ⟨a, ha, hsame ▸ hagrees⟩
    rw [hfound] at hsome
    cases hsome

/-- An attribute of a definition of a schema is found among the definition's own attributes. -/
theorem Built.Accounts.findAttribute?_eq {b : Built} {declarations : List TypeDeclaration}
    (h : b.Accounts declarations) {d : ObjectDefinition} (hd : d ∈ b.schema.definitions)
    (name : ItemName) :
    d.findAttribute? name = ItemName.find? AttributeDefinition.name d.attributes name := by
  rcases List.mem_append.1 hd with hd | hd
  · obtain ⟨c, -, rfl⟩ := List.mem_map.1 hd
    rfl
  · obtain ⟨t, ht, rfl⟩ := List.mem_map.1 hd
    exact (h.fits t ht).findAttribute?_eq name

/-- **Classes as reported and definitions at a layer are searched for the first name that agrees**,
where a schema and its definitions prefer the exact name: under each name, both find something or
both find nothing, and they find the same just when the name is met at first.  So they find the same
under every name just when no two names of the classes, or of the attributes of the definition,
agree without being the same. -/
theorem lookups_alike (native : NativeSchema) (declarations : List TypeDeclaration)
    (resource : CapabilitySet) :
    AlikeAtFirst NativeClass.name native.classes (ofNative native).findClass?
        (fun name => (native.findClass? name).map ObjectClass.ofNative) ∧
      ∀ d ∈ (build native declarations resource).schema.definitions, ∀ layer,
        AlikeAtFirst AttributeDefinition.name d.attributes
          (fun name => (d.findAttribute? name).map (·.viewAt layer))
          (d.viewAt layer).findAttribute? := by
  constructor
  · have hclasses : (ofNative native).findClass? =
        fun name => (ItemName.find? NativeClass.name native.classes name).map
          ObjectClass.ofNative := by
      funext name
      exact ItemName.find?_map (fun _ => rfl) native.classes name
    rw [hclasses]
    have hname : ∀ c, (ObjectClass.ofNative c).name = c.name := fun _ => rfl
    exact ItemName.alikeAtFirst ObjectClass.ofNative hname native.classes
  · intro d hd layer
    have hpreferring : (fun name => (d.findAttribute? name).map (·.viewAt layer)) =
        fun name => (ItemName.find? AttributeDefinition.name d.attributes name).map
          (·.viewAt layer) := by
      funext name
      rw [(build_accounts native declarations resource).findAttribute?_eq hd]
    have htaking : (d.viewAt layer).findAttribute? =
        fun name => (d.attributes.find? fun a => a.name.agrees name).map (·.viewAt layer) := by
      funext name
      exact ItemName.find?_agrees_map (fun _ => rfl) d.attributes name
    rw [hpreferring, htaking]
    have hname : ∀ a : AttributeDefinition, (a.viewAt layer).name = a.name := fun _ => rfl
    exact ItemName.alikeAtFirst (·.viewAt layer) hname d.attributes

/-! ### A class and an attribute that are passed over -/

/-- Names without a scope come first, both of classes and of attributes of the second one. -/
def sampleTwins : NativeSchema where
  classes := [
    { name := .unqualified "person" },
    { name := .qualified ItemName.resourceScope "person"
      attributes := [
        { name := .unqualified "mail" },
        { name := .qualified ItemName.resourceScope "mail" }] }]

/-- A type of the second class. -/
def sampleAccount : TypeDeclaration where
  kind := .account
  intent := "default"
  objectClass := some (.qualified ItemName.resourceScope "person")

theorem lookups_alike_sample :
    ∃ d ∈ (build sampleTwins [sampleAccount] .empty).schema.definitions,
      AlikeAtFirst AttributeDefinition.name d.attributes
        (fun name => (d.findAttribute? name).map (·.viewAt .model))
        (d.viewAt .model).findAttribute? := by
  obtain ⟨t, ht⟩ : ∃ t, (build sampleTwins [sampleAccount] .empty).schema.types = [t] := ⟨_, rfl⟩
  have hd : .ofType t ∈ (build sampleTwins [sampleAccount] .empty).schema.definitions := by
    rw [definitions, ht]
    simp
  exact ⟨_, hd, (lookups_alike sampleTwins [sampleAccount] .empty).2 _ hd .model⟩

/-- The class and the attribute with exactly the name are there, and the first that agrees is
another. -/
theorem exact_passed_over :
    (ofNative sampleTwins).findClass? (.qualified ItemName.resourceScope "person") ≠
        (sampleTwins.findClass? (.qualified ItemName.resourceScope "person")).map
          ObjectClass.ofNative ∧
      ∃ d ∈ (build sampleTwins [sampleAccount] .empty).schema.definitions,
        (d.viewAt .model).findAttribute? (.qualified ItemName.resourceScope "mail") ≠
          (d.findAttribute? (.qualified ItemName.resourceScope "mail")).map (·.viewAt .model) := by
  decide

end Schema

end Reconciler
