/-
The attributes of a type, against those of its class.

A refinement addresses the attribute that its class finds under its name.  Names agree loosely and
may come more than once, so what is addressed is an attribute at its place: a name leads to the
first attribute of one name, and never to a later one that repeats the name.

* `ItemName.place?`: the place of the item that a name stands for;
* `ObjectClass.addressing`: the refinements that address the attribute at a place;
* `AttributeRefinement.inTurn`: an attribute with refinements applied one after another;
* `AttributeRefinement.Supersedes`: a refinement sets again all that others have set before it.

Main statements:
* `ItemName.find?_eq_place`: what is found is what stands at the place;
* `Schema.get?_refineAttributes`: of the refinements that address an attribute, the last one is
  kept;
* `Schema.getElem?_of_resolve`: so an attribute of a type is that of the class with the last
  refinement applied;
* `Schema.findAttribute?_of_build`: under every name, a type finds the attribute of its class,
  refined;
* `Schema.attributes_of_build`: it is as with all refinements in turn just when the last supersedes
  the others;
* `Schema.earlier_refinement_lost`: a setting of an earlier one is lost.
-/
import Reconciler.Proofs.Completion.Refinements
import Reconciler.Proofs.Results
import Reconciler.Proofs.Schema.Lookups
import Mathlib.Data.List.Induction

namespace Reconciler

namespace ItemName

variable {α : Type} {nameOf : α → ItemName} {items : List α} {name other : ItemName} {a b : α}
variable {i j : Nat}

/-! ### The place of a name -/

/-- The place of the first item with exactly this name, or else of the first whose name agrees. -/
def place? (nameOf : α → ItemName) (items : List α) (name : ItemName) : Option Nat :=
  items.findIdx? (fun a => nameOf a == name) <|> items.findIdx? (fun a => (nameOf a).agrees name)

/-- What is found under a name is what stands at its place. -/
theorem find?_eq_place (nameOf : α → ItemName) (items : List α) (name : ItemName) :
    find? nameOf items name = (place? nameOf items name).bind fun i => items[i]? := by
  have hexact : items.find? (fun a => nameOf a == name) =
      (items.findIdx? fun a => nameOf a == name).bind fun i => items[i]? :=
    List.find?_eq_bind_findIdx?_getElem?
  unfold find? place?
  cases hplace : items.findIdx? fun a => nameOf a == name with
  | none =>
    rw [hexact, hplace]
    exact List.find?_eq_bind_findIdx?_getElem?
  | some i =>
    have hi := (List.findIdx?_eq_some_iff_getElem.1 hplace).1
    rw [hexact, hplace]
    simp [hi]

/-- Only the names matter for the place. -/
theorem place?_congr {β : Type} {nameOf' : β → ItemName} {others : List β}
    (h : items.map nameOf = others.map nameOf') (name : ItemName) :
    place? nameOf items name = place? nameOf' others name := by
  have hnames {γ : Type} (nameOf : γ → ItemName) (items : List γ) :
      place? nameOf items name = place? id (items.map nameOf) name := by
    unfold place?
    rw [List.findIdx?_map, List.findIdx?_map]
    rfl
  rw [hnames, hnames nameOf', h]

/-- An item stands at a place, and none of its name stands before it. -/
structure StandsFirst (nameOf : α → ItemName) (items : List α) (i : Nat) (a : α) : Prop where
  getElem? : items[i]? = some a
  before : ∀ b ∈ items.take i, nameOf b ≠ nameOf a

/-- Of one name, only one item stands first. -/
theorem StandsFirst.place_eq (h : StandsFirst nameOf items i a) (h' : StandsFirst nameOf items j b)
    (hsame : nameOf a = nameOf b) : i = j := by
  have hbefore {i j : Nat} {a : α} (hlt : i < j) (hi : items[i]? = some a) :
      a ∈ items.take j := by
    refine List.mem_iff_getElem?.2 ⟨i, ?_⟩
    rw [List.getElem?_take, if_pos hlt, hi]
  rcases Nat.lt_trichotomy i j with hlt | heq | hlt
  · exact absurd hsame (h'.before a (hbefore hlt h.getElem?))
  · exact heq
  · exact absurd hsame.symm (h.before b (hbefore hlt h'.getElem?))

/-- A name leads to an item that stands first. -/
theorem standsFirst_of_place? (h : place? nameOf items name = some i) :
    ∃ a, StandsFirst nameOf items i a := by
  unfold place? at h
  -- An earlier item of the same name would have been found before.
  have hfirst (p : α → Bool) (hp : ∀ a b, nameOf a = nameOf b → p a = p b)
      (hi : items.findIdx? p = some i) : ∃ a, StandsFirst nameOf items i a := by
    obtain ⟨hlt, hhere, hbefore⟩ := List.findIdx?_eq_some_iff_getElem.1 hi
    refine ⟨items[i], List.getElem?_eq_getElem hlt, fun b hb hsame => ?_⟩
    obtain ⟨j, hj, rfl⟩ := List.mem_take_iff_getElem.1 hb
    have hji : j < i := Nat.lt_of_lt_of_le hj (Nat.min_le_left ..)
    exact hbefore j hji ((hp _ _ hsame).trans hhere)
  cases hexact : items.findIdx? fun a => nameOf a == name with
  | some k =>
    rw [hexact] at h
    cases h
    exact hfirst _ (fun a b hsame => by rw [hsame]) hexact
  | none =>
    rw [hexact] at h
    exact hfirst (fun a => (nameOf a).agrees name) (fun a b hsame => by rw [hsame]) h

theorem isSome_find?_eq_place (nameOf : α → ItemName) (items : List α) (name : ItemName) :
    (find? nameOf items name).isSome = (place? nameOf items name).isSome := by
  rw [find?_eq_place]
  cases hplace : place? nameOf items name with
  | none => rfl
  | some i =>
    obtain ⟨a, ha⟩ := standsFirst_of_place? hplace
    rw [Option.bind_some, ha.getElem?]
    rfl

end ItemName

/-! ### Refinements in turn -/

namespace AttributeRefinement

open LayerOverride (stacked)

variable {r : AttributeRefinement} {rs : List AttributeRefinement}
variable {given before refined : AttributeDefinition}

/-- An attribute with refinements applied one after another. -/
def inTurn (rs : List AttributeRefinement) (given : AttributeDefinition) :
    Except Misconfiguration AttributeDefinition :=
  rs.foldlM (fun a r => r.applyTo a) given

@[simp] theorem inTurn_nil (given : AttributeDefinition) : inTurn [] given = .ok given := rfl

@[simp] theorem inTurn_singleton (r : AttributeRefinement) (given : AttributeDefinition) :
    inTurn [r] given = r.applyTo given := by
  rw [inTurn, List.foldlM_cons]
  cases r.applyTo given <;> rfl

theorem inTurn_concat_eq_ok_iff :
    inTurn (rs ++ [r]) given = .ok refined ↔
      ∃ before, inTurn rs given = .ok before ∧ r.applyTo before = .ok refined := by
  have hconcat : inTurn (rs ++ [r]) given = inTurn rs given >>= inTurn [r] := List.foldlM_append
  simp only [hconcat, Except.bind_eq_ok_iff, inTurn_singleton]

/-- No number of refinements changes what the attribute is and what the connector says of it. -/
theorem inTurn_keeps (h : inTurn rs given = .ok refined) :
    refined.name = given.name ∧ refined.valueType = given.valueType ∧
      refined.native = given.native ∧ refined.overrides.get? .raw = given.overrides.get? .raw := by
  induction rs using List.reverseRecOn generalizing refined with
  | nil =>
    cases h
    exact ⟨rfl, rfl, rfl, rfl⟩
  | append_singleton rs r ih =>
    obtain ⟨before, hbefore, hlast⟩ := inTurn_concat_eq_ok_iff.1 h
    obtain ⟨hname, htype, hnative, hraw⟩ := ih hbefore
    refine ⟨(applyTo_name hlast).trans hname, (applyTo_valueType hlast).trans htype,
      (applyTo_native hlast).trans hnative, ?_⟩
    obtain ⟨-, -, rfl⟩ := applyTo_eq_ok_iff.1 hlast
    exact (get?_refineOverrides r before.overrides).1.trans hraw

/-- Whatever sets `before` apart from `given` is set again by the refinement. -/
structure Supersedes (r : AttributeRefinement) (given before : AttributeDefinition) : Prop where
  matchingRule : r.matchingRule = none → before.matchingRule = given.matchingRule
  cached : r.cached = none → before.cached = given.cached
  indexOnly : r.indexOnly = none → before.indexOnly = given.indexOnly
  minOccurs : r.minOccurs = none → before.minOccurs = given.minOccurs
  maxOccurs : r.maxOccurs = none → before.maxOccurs = given.maxOccurs
  model : stacked (before.overrides.get? .model) (some r.modelOverride) =
    stacked (given.overrides.get? .model) (some r.modelOverride)
  presentation :
    stacked (before.overrides.get? .presentation) (r.limitations.get? .presentation) =
      stacked (given.overrides.get? .presentation) (r.limitations.get? .presentation)

/-- A refinement makes the same of an attribute whether others came before it or not, just when it
supersedes them. -/
theorem applyTo_eq_iff_supersedes (hbefore : inTurn rs given = .ok before)
    (h : r.applyTo given = .ok refined) :
    r.applyTo before = .ok refined ↔ r.Supersedes given before := by
  obtain ⟨hname, htype, hnative, hraw⟩ := inTurn_keeps hbefore
  obtain ⟨hlimits, hexcess, rfl⟩ := applyTo_eq_ok_iff.1 h
  obtain ⟨hraw₁, hmodel₁, hpresentation₁⟩ := get?_refineOverrides r before.overrides
  obtain ⟨hraw₂, hmodel₂, hpresentation₂⟩ := get?_refineOverrides r given.overrides
  have horElse {α : Type} (x y z : Option α) : (x <|> y) = (x <|> z) ↔ (x = none → y = z) := by
    cases x <;> simp
  have hgetD {α : Type} (x : Option α) (y z : α) :
      x.getD y = x.getD z ↔ (x = none → y = z) := by
    cases x <;> simp
  rw [applyTo_eq_ok_iff]
  constructor
  · rintro ⟨-, -, hsame⟩
    have hoverrides : r.refineOverrides before.overrides = r.refineOverrides given.overrides :=
      (congrArg AttributeDefinition.overrides hsame).symm
    exact {
      matchingRule := (horElse _ _ _).1 (congrArg AttributeDefinition.matchingRule hsame).symm
      cached := (horElse _ _ _).1 (congrArg AttributeDefinition.cached hsame).symm
      indexOnly := (hgetD _ _ _).1 (congrArg AttributeDefinition.indexOnly hsame).symm
      minOccurs := (hgetD _ _ _).1 (congrArg AttributeDefinition.minOccurs hsame).symm
      maxOccurs := (hgetD _ _ _).1 (congrArg AttributeDefinition.maxOccurs hsame).symm
      model := by rw [← hmodel₁, ← hmodel₂, hoverrides]
      presentation := by rw [← hpresentation₁, ← hpresentation₂, hoverrides] }
  · intro hsupersedes
    have hoverrides : r.refineOverrides before.overrides = r.refineOverrides given.overrides := by
      refine SortedMap.ext_get? fun layer => ?_
      cases layer with
      | raw => rw [hraw₁, hraw₂, hraw]
      | model => rw [hmodel₁, hmodel₂, hsupersedes.model]
      | presentation => rw [hpresentation₁, hpresentation₂, hsupersedes.presentation]
    have hsettled : ({ r.settle before with overrides := given.overrides } : AttributeDefinition) =
        r.settle given := by
      simp only [settle, hname, htype, hnative, (horElse _ _ _).2 hsupersedes.matchingRule,
        (horElse _ _ _).2 hsupersedes.cached, (hgetD _ _ _).2 hsupersedes.indexOnly,
        (hgetD _ _ _).2 hsupersedes.minOccurs, (hgetD _ _ _).2 hsupersedes.maxOccurs]
    refine ⟨hlimits, ?_, ?_⟩
    · rw [← hsettled] at hexcess
      exact hexcess
    · rw [← hsettled, hoverrides]

end AttributeRefinement

namespace ObjectClass

/-! ### What a refinement addresses -/

/-- The place of the attribute that a name stands for. -/
def place? (c : ObjectClass) (name : ItemName) : Option Nat :=
  ItemName.place? AttributeDefinition.name c.attributes name

/-- An attribute stands at a place of the class, and none of its name stands before it. -/
abbrev StandsFirst (c : ObjectClass) (place : Nat) (base : AttributeDefinition) : Prop :=
  ItemName.StandsFirst AttributeDefinition.name c.attributes place base

variable {c : ObjectClass} {name : ItemName} {place : Nat} {base : AttributeDefinition}

theorem findAttribute?_eq_some_iff :
    c.findAttribute? name = some base ↔
      ∃ place, c.place? name = some place ∧ c.StandsFirst place base := by
  rw [findAttribute?, ItemName.find?_eq_place, Option.bind_eq_some_iff]
  refine exists_congr fun place => and_congr_right fun hplace => ⟨fun hbase => ?_, (·.getElem?)⟩
  obtain ⟨a, ha⟩ := ItemName.standsFirst_of_place? hplace
  cases ha.getElem?.symm.trans hbase
  exact ha

/-- The refinements that address the attribute at a place: those whose name leads there. -/
def addressing (c : ObjectClass) (rs : List AttributeRefinement) (place : Nat) :
    List AttributeRefinement :=
  rs.filter fun r => r.name.bind c.place? == some place

theorem addressing_concat (rs : List AttributeRefinement) (r : AttributeRefinement) (place : Nat) :
    c.addressing (rs ++ [r]) place =
      c.addressing rs place ++ if r.name.bind c.place? = some place then [r] else [] := by
  unfold addressing
  rw [List.filter_append, List.filter_cons, List.filter_nil]
  simp only [beq_iff_eq]

/-- The first attribute of a name is addressed by the refinements under whose names it is found. -/
theorem addressing_eq_filter (hbase : c.StandsFirst place base) (rs : List AttributeRefinement) :
    c.addressing rs place = rs.filter fun r => r.name.bind c.findAttribute? == some base := by
  refine List.filter_congr fun r _ => ?_
  rw [Bool.eq_iff_iff, beq_iff_eq, beq_iff_eq, Option.bind_eq_some_iff, Option.bind_eq_some_iff]
  refine exists_congr fun other => and_congr_right fun _ => ?_
  rw [findAttribute?_eq_some_iff]
  constructor
  · exact fun h => ⟨place, h, hbase⟩
  · rintro ⟨place', h, hbase'⟩
    rw [h, hbase'.place_eq hbase rfl]

/-- No name leads to an attribute that repeats the name of an earlier one. -/
theorem addressing_eq_nil (hbase : c.attributes[place]? = some base)
    (hrepeats : base.name ∈ (c.attributes.take place).map AttributeDefinition.name)
    (rs : List AttributeRefinement) : c.addressing rs place = [] := by
  refine List.filter_eq_nil_iff.2 fun r _ hr => ?_
  obtain ⟨name, -, hplace⟩ := Option.bind_eq_some_iff.1 (eq_of_beq hr)
  obtain ⟨a, ha⟩ := ItemName.standsFirst_of_place? hplace
  cases ha.getElem?.symm.trans hbase
  obtain ⟨b, hb, hsame⟩ := List.mem_map.1 hrepeats
  exact ha.before b hb hsame

end ObjectClass

namespace Schema

open AttributeRefinement (inTurn Supersedes)

variable {s : Schema} {resource : CapabilitySet} {d : TypeDeclaration} {t : ObjectType}
variable {c : ObjectClass} {refined : SortedMap ItemName AttributeDefinition} {id : TypeId}
variable {place : Nat} {base a : AttributeDefinition}

/-! ### One type -/

/-- Each attribute of the class takes the refined one of its name, unless an earlier one has. -/
theorem getElem?_placeRefined (refined : SortedMap ItemName AttributeDefinition)
    (attributes : List AttributeDefinition) (place : Nat) :
    (placeRefined refined attributes)[place]? = attributes[place]?.map fun base =>
      if base.name ∈ (attributes.take place).map AttributeDefinition.name then base
      else (refined.get? base.name).getD base := by
  induction attributes generalizing refined place with
  | nil => rfl
  | cons first rest ih =>
    cases place with
    | zero => simp [placeRefined]
    | succ place =>
      rw [placeRefined, List.getElem?_cons_succ, List.getElem?_cons_succ, ih]
      refine Option.map_congr fun base _ => ?_
      by_cases hfirst : base.name = first.name
      · simp [hfirst, SortedMap.get?_erase]
      · simp [hfirst, SortedMap.get?_erase]

/-- **Of the refinements that address an attribute, the last one is kept**, as it applies to the
attribute of the class; without any, nothing is kept under the name of the attribute. -/
theorem get?_refineAttributes {rs : List AttributeRefinement}
    (h : refineAttributes id c rs = .ok refined) (hbase : c.StandsFirst place base) :
    inTurn (c.addressing rs place).getLast?.toList base =
      .ok ((refined.get? base.name).getD base) := by
  induction rs using List.reverseRecOn generalizing refined with
  | nil =>
    cases h
    rfl
  | append_singleton rs r ih =>
    obtain ⟨acc, name, found, a, hacc, hname, hfound, ha, rfl⟩ :=
      exists_of_refineAttributes_concat h
    obtain ⟨place', hplace', hfound'⟩ := ObjectClass.findAttribute?_eq_some_iff.1 hfound
    rw [ObjectClass.addressing_concat, hname, Option.bind_some, hplace', SortedMap.get?_insert]
    by_cases hhere : place' = place
    · subst hhere
      cases hbase.getElem?.symm.trans hfound'.getElem?
      rw [if_pos rfl, if_pos rfl, List.getLast?_concat]
      exact (AttributeRefinement.inTurn_singleton r base).trans ha
    · have hne : base.name ≠ found.name := fun hsame =>
        hhere (hfound'.place_eq hbase hsame.symm)
      rw [if_neg fun h => hhere (Option.some.inj h), if_neg hne, List.append_nil]
      exact ih hacc

/-- **An attribute of a type is that of its class with the last refinement applied** that addresses
it, or as it is without any. -/
theorem getElem?_of_resolve (h : s.resolve resource d = .ok t)
    (hbase : t.objectClass.attributes[place]? = some base) :
    ∃ a, t.attributes[place]? = some a ∧
      inTurn (t.objectClass.addressing d.attributes place).getLast?.toList base = .ok a := by
  obtain ⟨-, -, -, -, ⟨refined, hrefined, hattributes⟩, -⟩ := exists_of_resolve h
  rw [hattributes, getElem?_placeRefined, hbase]
  refine ⟨_, rfl, ?_⟩
  beta_reduce
  split
  · next hrepeats =>
    rw [ObjectClass.addressing_eq_nil hbase hrepeats]
    rfl
  · next hfirst =>
    have hstands : t.objectClass.StandsFirst place base :=
      ⟨hbase, fun b hb hsame => hfirst (hsame ▸ List.mem_map_of_mem hb)⟩
    exact get?_refineAttributes hrefined hstands

/-! ### All types of a schema -/

/-- An attribute of a type is an attribute of the class as refined by some refinements: it is the
same attribute, left alone if there are none, and with the one applied if there is one. -/
structure Refines (rs : List AttributeRefinement) (base a : AttributeDefinition) : Prop where
  name : a.name = base.name
  valueType : a.valueType = base.valueType
  raw : a.propertiesAt .raw = base.propertiesAt .raw
  unrefined : rs = [] → a = base
  refined : ∀ r, rs = [r] → r.applyTo base = .ok a

theorem refines_of_inTurn {rs : List AttributeRefinement}
    (h : inTurn rs.getLast?.toList base = .ok a) : Refines rs base a := by
  obtain ⟨hname, htype, hnative, -⟩ := AttributeRefinement.inTurn_keeps h
  refine ⟨hname, htype, hnative, ?_, ?_⟩
  · rintro rfl
    exact (Except.ok.inj h).symm
  · rintro r rfl
    exact (AttributeRefinement.inTurn_singleton r base).symm.trans h

/-- **A type finds the attributes of its class, refined**: under every name, both find something or
both find nothing; and what the type finds is what the class finds, as refined by the refinements of
the declaration under whose names the class finds it too. -/
theorem findAttribute?_of_build (native : NativeSchema) (declarations : List TypeDeclaration)
    (resource : CapabilitySet) :
    ∀ t ∈ (build native declarations resource).schema.types,
      ∃ d, declarations.find? (fun d => d.id == t.id) = some d ∧ ∀ name,
        (t.findAttribute? name).isSome = (t.objectClass.findAttribute? name).isSome ∧
        ∀ base, t.objectClass.findAttribute? name = some base →
          ∃ a, t.findAttribute? name = some a ∧
            Refines (d.attributes.filter fun r =>
              r.name.bind t.objectClass.findAttribute? == some base) base a := by
  intro t ht
  obtain ⟨d, hd, hresolve⟩ := exists_declaration_of_build ht
  have hfits : Schema.Fits _ t := (build_accounts native declarations resource).fits t ht
  have hfind (name : ItemName) : t.findAttribute? name =
      (t.objectClass.place? name).bind fun place => t.attributes[place]? := by
    rw [hfits.findAttribute?_eq, ItemName.find?_eq_place, ItemName.place?_congr hfits.attributes]
    rfl
  refine ⟨d, hd, fun name => ⟨?_, fun base hbase => ?_⟩⟩
  · rw [hfits.findAttribute?_eq, ItemName.isSome_find?_eq_place,
      ItemName.place?_congr hfits.attributes, ← ItemName.isSome_find?_eq_place]
    rfl
  · obtain ⟨place, hplace, hstands⟩ := ObjectClass.findAttribute?_eq_some_iff.1 hbase
    obtain ⟨a, ha, hinTurn⟩ := getElem?_of_resolve hresolve hstands.getElem?
    rw [ObjectClass.addressing_eq_filter hstands] at hinTurn
    refine ⟨a, ?_, refines_of_inTurn hinTurn⟩
    rw [hfind, hplace]
    exact ha

/-- The refinement of a mail address by its full name. -/
def sampleNamed : AttributeRefinement where
  name := some (.qualified ItemName.resourceScope "mail")
  displayName := some "Mail"

/-- Of two attributes called so, the one with the scope is refined. -/
theorem findAttribute?_of_build_sample :
    ∃ t ∈ (build sampleTwins [{ sampleAccount with attributes := [sampleNamed] }]
        .empty).schema.types,
      ∃ base a, t.objectClass.attributes[1]? = some base ∧
        t.findAttribute? (.qualified ItemName.resourceScope "mail") = some a ∧
        sampleNamed.applyTo base = .ok a := by
  have ht : _ ∈ (build sampleTwins [{ sampleAccount with attributes := [sampleNamed] }]
      .empty).schema.types := List.Mem.head _
  obtain ⟨d, hd, hfind⟩ := findAttribute?_of_build sampleTwins
    [{ sampleAccount with attributes := [sampleNamed] }] .empty _ ht
  cases hd
  obtain ⟨-, hrefined⟩ := hfind (.qualified ItemName.resourceScope "mail")
  obtain ⟨a, ha, hrefines⟩ := hrefined _ rfl
  exact ⟨_, ht, _, a, rfl, ha, hrefines.refined sampleNamed rfl⟩

/-- **Only the last refinement of an attribute takes effect.**  The attribute of a type at a place
is that of the class with the last refinement applied that addresses it; it is as with all of them
applied in turn just when the earlier ones can be and the last one supersedes them. -/
theorem attributes_of_build (native : NativeSchema) (declarations : List TypeDeclaration)
    (resource : CapabilitySet) :
    ∀ t ∈ (build native declarations resource).schema.types,
      ∃ d, declarations.find? (fun d => d.id == t.id) = some d ∧
        ∀ place base, t.objectClass.attributes[place]? = some base →
          ∃ a, t.attributes[place]? = some a ∧
            inTurn (t.objectClass.addressing d.attributes place).getLast?.toList base = .ok a ∧
            (inTurn (t.objectClass.addressing d.attributes place) base = .ok a ↔
              ∃ before, inTurn (t.objectClass.addressing d.attributes place).dropLast base =
                .ok before ∧
                ∀ r ∈ (t.objectClass.addressing d.attributes place).getLast?,
                  r.Supersedes base before) := by
  intro t ht
  obtain ⟨d, hd, hresolve⟩ := exists_declaration_of_build ht
  refine ⟨d, hd, fun place base hbase => ?_⟩
  obtain ⟨a, ha, hlast⟩ := getElem?_of_resolve hresolve hbase
  refine ⟨a, ha, hlast, ?_⟩
  generalize t.objectClass.addressing d.attributes place = rs at hlast
  cases rs using List.reverseRecOn with
  | nil =>
    cases hlast
    exact ⟨fun _ => ⟨base, rfl, by simp⟩, fun _ => rfl⟩
  | append_singleton earlier r =>
    rw [List.getLast?_concat] at hlast ⊢
    rw [List.dropLast_concat, AttributeRefinement.inTurn_concat_eq_ok_iff]
    refine exists_congr fun before => and_congr_right fun hbefore => ?_
    have hr : r.applyTo base = .ok a :=
      (AttributeRefinement.inTurn_singleton r base).symm.trans hlast
    rw [AttributeRefinement.applyTo_eq_iff_supersedes hbefore hr]
    simp

/-! ### One attribute refined twice -/

/-- A class with a mail address. -/
def sampleMailed : NativeSchema where
  classes := [
    { name := .qualified ItemName.resourceScope "person"
      attributes := [{ name := .qualified ItemName.resourceScope "mail" }] }]

/-- The refinement of a mail address by the name without its scope. -/
def sampleCompared : AttributeRefinement where
  name := some (.unqualified "mail")
  matchingRule := some "stringIgnoreCase"

/-- A type that refines the mail address twice. -/
def sampleTwiceRefined : TypeDeclaration :=
  { sampleAccount with attributes := [sampleNamed, sampleCompared] }

theorem attributes_of_build_sample :
    ∃ t ∈ (build sampleMailed [sampleTwiceRefined] .empty).schema.types, ∃ base a,
      t.objectClass.attributes[0]? = some base ∧ t.attributes[0]? = some a ∧
        inTurn [sampleCompared] base = .ok a := by
  have ht : _ ∈ (build sampleMailed [sampleTwiceRefined] .empty).schema.types := List.Mem.head _
  obtain ⟨d, hd, hplaces⟩ := attributes_of_build sampleMailed [sampleTwiceRefined] .empty _ ht
  cases hd
  obtain ⟨a, ha, hlast, -⟩ := hplaces 0 _ rfl
  exact ⟨_, ht, _, a, rfl, ha, hlast⟩

/-- **A setting of the earlier refinement is lost**: both address the attribute and both can be
applied, and the attribute of the type has the matching rule of one without the name of the other.
-/
theorem earlier_refinement_lost : ∃ t base a both,
    (build sampleMailed [sampleTwiceRefined] .empty).errors = [] ∧
      t ∈ (build sampleMailed [sampleTwiceRefined] .empty).schema.types ∧
      t.objectClass.attributes[0]? = some base ∧ t.attributes[0]? = some a ∧
      t.objectClass.addressing sampleTwiceRefined.attributes 0 = [sampleNamed, sampleCompared] ∧
      inTurn [sampleNamed, sampleCompared] base = .ok both ∧ a ≠ both ∧
      (both.propertiesAt .model).displayName = some "Mail" ∧
      (a.propertiesAt .model).displayName = none := by
  refine ⟨_, _, _, _, rfl, List.Mem.head _, rfl, rfl, rfl, rfl, ?_, rfl, rfl⟩
  decide

end Schema

end Reconciler
