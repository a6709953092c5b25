/-
The auxiliary classes in the definition of an object.

Names of auxiliary classes come from the type of an object and from the object itself.  Those of the
type are all taken up; one of the object is passed over if it agrees with a name that was taken up
before.  That does not look at the classes, so a name may be passed over for one that stands for
another class.

* `Schema.PassedOver`: which names of an object are passed over;
* `Schema.Covers`: the class that a name stands for is part of a definition.

Main statements:
* `Schema.mem_addNames_iff`: all other names are taken up;
* `Schema.compose_eq_ok_iff`: a definition has the classes of the names taken up, in their order;
* `Schema.covers_iff_of_compose`: it has the class of a name that was passed over just when a name
  that was taken up stands for the same class;
* `Schema.covers_of_distinct`: it has the classes of all names if no two classes of the schema have
  the same local part;
* `Schema.compose_of_build`: what this means for schemas that were built.

Design notes:
* The names of an object are a set, in which those without a scope come first.  Therefore a name can
  only be passed over for one of the type or for one without a scope.
-/
import Mathlib.Data.List.Nodup
import Reconciler.Proofs.Schema.Accounting
import Reconciler.Proofs.Results

namespace Reconciler

namespace ItemName

/-- Names without a scope come before all others. -/
theorem scope_eq_none_of_lt {a b : ItemName} (h : compare a b = .lt) (hb : b.scope = none) :
    a.scope = none := by
  rw [compare_def, hb] at h
  cases ha : a.scope with
  | none => rfl
  | some s =>
    rw [ha] at h
    cases h

theorem ne_of_lt {a b : ItemName} (h : compare a b = .lt) : a ≠ b := by
  rintro rfl
  rw [Std.ReflOrd.compare_self] at h
  cases h

/-- Of two names that agree one is the other without its scope, if they are not the same. -/
theorem agrees_cases {a b : ItemName} (h : a.agrees b = true) (hne : a ≠ b) :
    (a = unqualified b.localPart ∧ b.scope ≠ none) ∨
      (b = unqualified a.localPart ∧ a.scope ≠ none) := by
  obtain ⟨s, l⟩ := a
  obtain ⟨t, m⟩ := b
  obtain ⟨rfl, hscope⟩ := agrees_iff.1 h
  cases s <;> cases t <;> simp_all [unqualified]

theorem unqualified_agrees (name : ItemName) : (unqualified name.localPart).agrees name = true :=
  agrees_iff.2 ⟨rfl, .inr (.inl rfl)⟩

end ItemName

namespace Schema

variable {s : Schema} {className : ItemName} {typeId : Option TypeId}
variable {auxiliary : SortedSet ItemName} {definition : ObjectDefinition} {d : CompositeDefinition}
variable {names own : List ItemName} {name : ItemName}

/-! ### Names that are taken up -/

/-- A name of an object is passed over: it agrees with one of the given names, or the object also
has the name without its scope, and that agrees with none of them. -/
def PassedOver (names own : List ItemName) (name : ItemName) : Prop :=
  (∃ n ∈ names, n.agrees name = true) ∨
    name.scope ≠ none ∧ .unqualified name.localPart ∈ own ∧
      ∀ n ∈ names, n.agrees (.unqualified name.localPart) = false

/-- Takes up a name unless it agrees with one that was taken up before. -/
def addName (names : List ItemName) (name : ItemName) : List ItemName :=
  if names.any (·.agrees name) then names else names ++ [name]

theorem addName_of_agrees (h : ∃ n ∈ names, n.agrees name = true) : addName names name = names :=
  if_pos (List.any_eq_true.2 h)

theorem addName_of_new (h : ∀ n ∈ names, n.agrees name = false) :
    addName names name = names ++ [name] := by
  refine if_neg fun hany => ?_
  obtain ⟨n, hn, hagrees⟩ := List.any_eq_true.1 hany
  rw [h n hn] at hagrees
  cases hagrees

/-- After the first name of an object was taken up, the others are passed over as before. -/
theorem passedOver_append_iff {first : ItemName} (hnew : ∀ n ∈ names, n.agrees first = false)
    (hfirst : ∀ n ∈ own, compare first n = .lt) (hname : name ∈ own) :
    PassedOver (names ++ [first]) own name ↔ PassedOver names (first :: own) name := by
  have hne : first ≠ name := ItemName.ne_of_lt (hfirst name hname)
  constructor
  · rintro (⟨n, hn, hagrees⟩ | ⟨hscope, hown, hnone⟩)
    · rcases List.mem_append.1 hn with hn | hn
      · exact .inl ⟨n, hn, hagrees⟩
      · obtain rfl := List.mem_singleton.1 hn
        rcases ItemName.agrees_cases hagrees hne with ⟨rfl, hscope⟩ | ⟨rfl, hscope⟩
        · exact .inr ⟨hscope, List.mem_cons_self, hnew⟩
        · exact absurd (ItemName.scope_eq_none_of_lt (hfirst _ hname) rfl) hscope
    · exact .inr ⟨hscope, List.mem_cons_of_mem _ hown,
        fun n hn => hnone n (List.mem_append_left _ hn)⟩
  · rintro (⟨n, hn, hagrees⟩ | ⟨hscope, hown, hnone⟩)
    · exact .inl ⟨n, List.mem_append_left _ hn, hagrees⟩
    · rcases List.mem_cons.1 hown with hsame | hlater
      · exact .inl ⟨first, List.mem_append_right _ (List.mem_singleton_self _),
          hsame ▸ name.unqualified_agrees⟩
      · have hlt := hfirst _ hlater
        refine .inr ⟨hscope, hlater, fun n hn => ?_⟩
        rcases List.mem_append.1 hn with hn | hn
        · exact hnone n hn
        · -- The first name has no scope either, and is another name.
          rw [List.mem_singleton.1 hn, Bool.eq_false_iff]
          intro hagrees
          rcases ItemName.agrees_cases hagrees (ItemName.ne_of_lt hlt) with ⟨-, h⟩ | ⟨-, h⟩
          · exact h rfl
          · exact h (ItemName.scope_eq_none_of_lt hlt rfl)

/-- A first name that is passed over makes no difference for the others. -/
theorem passedOver_cons_iff {first : ItemName} (hagrees : ∃ n ∈ names, n.agrees first = true) :
    PassedOver names own name ↔ PassedOver names (first :: own) name := by
  refine or_congr_right (and_congr_right fun _ => ?_)
  constructor
  · exact fun ⟨hown, hnone⟩ => ⟨List.mem_cons_of_mem _ hown, hnone⟩
  · rintro ⟨hown, hnone⟩
    rcases List.mem_cons.1 hown with rfl | hown
    · obtain ⟨n, hn, h⟩ := hagrees
      rw [hnone n hn] at h
      cases h
    · exact ⟨hown, hnone⟩

theorem mem_foldl_addName_iff (hown : own.Pairwise fun a b => compare a b = .lt) :
    name ∈ own.foldl addName names ↔ name ∈ names ∨ name ∈ own ∧ ¬ PassedOver names own name := by
  induction own generalizing names with
  | nil => simp
  | cons first own ih =>
    obtain ⟨hfirst, hown⟩ := List.pairwise_cons.1 hown
    have hnot : first ∉ own := fun hmem => ItemName.ne_of_lt (hfirst first hmem) rfl
    rw [List.foldl_cons, ih hown]
    by_cases hagrees : ∃ n ∈ names, n.agrees first = true
    · rw [addName_of_agrees hagrees, List.mem_cons]
      refine or_congr_right ?_
      constructor
      · exact fun ⟨hname, hpassed⟩ => ⟨.inr hname, mt (passedOver_cons_iff hagrees).2 hpassed⟩
      · rintro ⟨rfl | hname, hpassed⟩
        · exact absurd (.inl hagrees) hpassed
        · exact ⟨hname, mt (passedOver_cons_iff hagrees).1 hpassed⟩
    · have hnew : ∀ n ∈ names, n.agrees first = false := by simpa using hagrees
      rw [addName_of_new hnew, List.mem_append, List.mem_singleton, List.mem_cons, or_assoc]
      refine or_congr_right ?_
      constructor
      · rintro (rfl | ⟨hname, hpassed⟩)
        · refine ⟨.inl rfl, ?_⟩
          rintro (hagrees' | ⟨hscope, hmem, -⟩)
          · exact hagrees hagrees'
          · rcases List.mem_cons.1 hmem with hsame | hmem
            · exact hscope (by rw [← hsame]; rfl)
            · exact hscope (ItemName.scope_eq_none_of_lt (hfirst _ hmem) rfl)
        · exact ⟨.inr hname, mt (passedOver_append_iff hnew hfirst hname).2 hpassed⟩
      · rintro ⟨rfl | hname, hpassed⟩
        · exact .inl rfl
        · exact .inr ⟨hname, mt (passedOver_append_iff hnew hfirst hname).1 hpassed⟩

/-- The names that are taken up are the given ones, and those of the object that are not passed
over. -/
theorem mem_addNames_iff :
    name ∈ addNames names auxiliary ↔
      name ∈ names ∨ name ∈ auxiliary.toList ∧ ¬ PassedOver names auxiliary.toList name :=
  mem_foldl_addName_iff (List.pairwise_map.2 auxiliary.ascending)

/-! ### Classes of a definition -/

/-- The class that a name stands for is among the auxiliary classes of a definition. -/
def Covers (s : Schema) (d : CompositeDefinition) (name : ItemName) : Prop :=
  ∃ c ∈ d.auxiliary, s.findClass? name = some c

instance (s : Schema) (d : CompositeDefinition) (name : ItemName) : Decidable (s.Covers d name) :=
  inferInstanceAs (Decidable (∃ c ∈ d.auxiliary, s.findClass? name = some c))

theorem auxiliaryClass_eq_ok_iff {c : ObjectClass} :
    s.auxiliaryClass name = .ok c ↔ s.findClass? name = some c := by
  unfold auxiliaryClass
  cases s.findClass? name <;> simp

theorem exists_auxiliaryClass_eq_error_iff :
    (∃ e, s.auxiliaryClass name = .error e) ↔ s.findClass? name = none := by
  unfold auxiliaryClass
  cases s.findClass? name <;> simp

/-- Once the class or type is found, only the names that are taken up matter. -/
theorem compose_of_structural (h : s.structural className typeId = .ok definition) :
    s.compose className typeId auxiliary =
      ((addNames definition.auxiliaryClasses auxiliary).mapM s.auxiliaryClass).map
        (CompositeDefinition.mk definition) := by
  unfold compose
  rw [h]
  dsimp only [bind, Except.bind]
  cases (addNames definition.auxiliaryClasses auxiliary).mapM s.auxiliaryClass <;> rfl

/-- A definition has the classes of the names that are taken up, in their order. -/
theorem compose_eq_ok_iff :
    s.compose className typeId auxiliary = .ok d ↔
      s.structural className typeId = .ok d.structural ∧
        (addNames d.structural.auxiliaryClasses auxiliary).map s.findClass? =
          d.auxiliary.map some := by
  obtain ⟨definition, classes⟩ := d
  rw [← List.forall₂_eq_some_iff]
  simp only [← auxiliaryClass_eq_ok_iff]
  rw [← List.mapM_eq_ok_iff]
  constructor
  · intro h
    have hstructural := compose_structural h
    rw [compose_of_structural hstructural] at h
    refine ⟨hstructural, ?_⟩
    cases hclasses : (addNames definition.auxiliaryClasses auxiliary).mapM s.auxiliaryClass with
    | error e =>
      rw [hclasses] at h
      cases h
    | ok found =>
      rw [hclasses] at h
      cases h
      rfl
  · rintro ⟨hstructural, hclasses⟩
    rw [compose_of_structural hstructural, hclasses]
    rfl

/-- There is no definition just when a name that is taken up stands for no class. -/
theorem exists_compose_eq_error_iff (h : s.structural className typeId = .ok definition) :
    (∃ e, s.compose className typeId auxiliary = .error e) ↔
      ∃ name ∈ addNames definition.auxiliaryClasses auxiliary, s.findClass? name = none := by
  constructor
  · rintro ⟨e, he⟩
    rw [compose_of_structural h] at he
    cases hclasses : (addNames definition.auxiliaryClasses auxiliary).mapM s.auxiliaryClass with
    | ok classes =>
      rw [hclasses] at he
      cases he
    | error e' =>
      obtain ⟨earlier, name, later, hnames, -, hname⟩ := List.mapM_eq_error_iff.1 hclasses
      refine ⟨name, ?_, exists_auxiliaryClass_eq_error_iff.1 ⟨e', hname⟩⟩
      rw [hnames]
      exact List.mem_append_right _ List.mem_cons_self
  · rintro ⟨name, hname, hnone⟩
    cases hcompose : s.compose className typeId auxiliary with
    | error e => exact ⟨e, rfl⟩
    | ok d =>
      obtain ⟨hstructural, hclasses⟩ := compose_eq_ok_iff.1 hcompose
      rw [h, Except.ok.injEq] at hstructural
      have hmem : s.findClass? name ∈ d.auxiliary.map some :=
        hclasses ▸ List.mem_map_of_mem (hstructural ▸ hname)
      rw [hnone] at hmem
      simp at hmem

/-! ### Names that are covered -/

/-- The class of a name is part of a definition just when a name that was taken up stands for it. -/
theorem covers_iff_of_compose (h : s.compose className typeId auxiliary = .ok d) :
    s.Covers d name ↔
      ∃ other ∈ addNames d.structural.auxiliaryClasses auxiliary,
        s.findClass? other = s.findClass? name := by
  have hclasses := (compose_eq_ok_iff.1 h).2
  constructor
  · rintro ⟨c, hc, hname⟩
    have hmem : some c ∈ (addNames d.structural.auxiliaryClasses auxiliary).map s.findClass? :=
      hclasses ▸ List.mem_map_of_mem hc
    obtain ⟨other, hother, hfound⟩ := List.mem_map.1 hmem
    exact ⟨other, hother, hfound.trans hname.symm⟩
  · rintro ⟨other, hother, hsame⟩
    have hmem : s.findClass? other ∈ d.auxiliary.map some :=
      hclasses ▸ List.mem_map_of_mem hother
    obtain ⟨c, hc, hfound⟩ := List.mem_map.1 hmem
    exact ⟨c, hc, hsame.symm.trans hfound.symm⟩

/-- A name is passed over for one that is taken up and agrees with it. -/
theorem PassedOver.exists_agrees (h : PassedOver names auxiliary.toList name) :
    ∃ other ∈ addNames names auxiliary, other.agrees name = true := by
  rcases h with ⟨n, hn, hagrees⟩ | ⟨-, hown, hnone⟩
  · exact ⟨n, mem_addNames_iff.2 (.inl hn), hagrees⟩
  · refine ⟨_, mem_addNames_iff.2 (.inr ⟨hown, ?_⟩), name.unqualified_agrees⟩
    rintro (⟨n, hn, hagrees⟩ | ⟨hscope, -⟩)
    · rw [hnone n hn] at hagrees
      cases hagrees
    · exact hscope rfl

/-- Where no two classes have the same local part, the class of every name of an object is part of
the definition, if the name stands for a class at all. -/
theorem covers_of_distinct (hdistinct : (s.classes.map (·.name.localPart)).Nodup)
    (h : s.compose className typeId auxiliary = .ok d) (hname : name ∈ auxiliary.toList)
    {c : ObjectClass} (hc : s.findClass? name = some c) : s.Covers d name := by
  by_cases hpassed : PassedOver d.structural.auxiliaryClasses auxiliary.toList name
  · obtain ⟨other, hother, hagrees⟩ := hpassed.exists_agrees
    obtain ⟨c', hc', hfound⟩ : s.Covers d other := (covers_iff_of_compose h).2 ⟨other, hother, rfl⟩
    obtain ⟨hmem, hlocal⟩ := ItemName.mem_of_find? hc
    obtain ⟨hmem', hlocal'⟩ := ItemName.mem_of_find? hfound
    have hsame : c'.name.localPart = c.name.localPart := by
      rw [(ItemName.agrees_iff.1 hlocal').1, (ItemName.agrees_iff.1 hagrees).1,
        (ItemName.agrees_iff.1 hlocal).1]
    obtain rfl : c' = c := List.inj_on_of_nodup_map hdistinct hmem' hmem hsame
    exact ⟨c', hc', hc⟩
  · exact (covers_iff_of_compose h).2 ⟨name, mem_addNames_iff.2 (.inr ⟨hname, hpassed⟩), rfl⟩

/-! ### Schemas that were built -/

/-- The auxiliary classes of a type of a schema that was built are all there. -/
theorem Built.Accounts.isSome_findClass? {b : Built} {declarations : List TypeDeclaration}
    (h : b.Accounts declarations)
    (hstructural : b.schema.structural className typeId = .ok definition) :
    ∀ name ∈ definition.auxiliaryClasses, (b.schema.findClass? name).isSome = true := by
  unfold structural at hstructural
  split at hstructural
  · split at hstructural
    · cases hstructural
    · next t ht =>
      split at hstructural
      · cases hstructural
        exact (h.fits t (List.mem_of_find?_eq_some ht)).auxiliary
      · cases hstructural
  · split at hstructural
    · cases hstructural
    · cases hstructural
      exact List.forall_mem_nil _

/-- **The definition of an object covers the names that are not passed over.**  With a schema that
was built, and once the class or the type of the object is found, there is no definition just when a
name of the object stands for no class and is not passed over.  Otherwise the definition has the
classes of all auxiliary names of the type; and it has the class of a name of the object just when
that is not passed over, or a name that is taken up stands for the same class. -/
theorem compose_of_build (native : NativeSchema) (declarations : List TypeDeclaration)
    (resource : CapabilitySet) (auxiliary : SortedSet ItemName)
    (h : (build native declarations resource).schema.structural className typeId = .ok definition) :
    let s := (build native declarations resource).schema
    let passed := PassedOver definition.auxiliaryClasses auxiliary.toList
    ((∃ e, s.compose className typeId auxiliary = .error e) ↔
        ∃ name ∈ auxiliary.toList, ¬ passed name ∧ s.findClass? name = none) ∧
      ∀ d, s.compose className typeId auxiliary = .ok d →
        (∀ name ∈ definition.auxiliaryClasses, s.Covers d name) ∧
        ∀ name ∈ auxiliary.toList, s.Covers d name ↔
          (passed name → ∃ other,
            (other ∈ definition.auxiliaryClasses ∨ other ∈ auxiliary.toList ∧ ¬ passed other) ∧
              s.findClass? other = s.findClass? name) := by
  intro s passed
  have htype : ∀ name ∈ definition.auxiliaryClasses, (s.findClass? name).isSome = true :=
    (build_accounts native declarations resource).isSome_findClass? h
  refine ⟨?_, fun d hd => ?_⟩
  · rw [exists_compose_eq_error_iff h]
    constructor
    · rintro ⟨name, hname, hnone⟩
      rcases mem_addNames_iff.1 hname with hname | ⟨hname, hpassed⟩
      · have hsome := htype name hname
        rw [hnone] at hsome
        cases hsome
      · exact ⟨name, hname, hpassed, hnone⟩
    · rintro ⟨name, hname, hpassed, hnone⟩
      exact ⟨name, mem_addNames_iff.2 (.inr ⟨hname, hpassed⟩), hnone⟩
  · obtain rfl : d.structural = definition := by
      have hstructural := compose_structural hd
      rw [h] at hstructural
      cases hstructural
      rfl
    have hcovers : ∀ name, s.Covers d name ↔ _ := fun name => covers_iff_of_compose hd
    simp only [mem_addNames_iff] at hcovers
    refine ⟨fun name hname => (hcovers name).2 ⟨name, .inl hname, rfl⟩, fun name hname => ?_⟩
    rw [hcovers]
    refine ⟨fun hother _ => hother, fun hother => ?_⟩
    by_cases hpassed : passed name
    · exact hother hpassed
    · exact ⟨name, .inr ⟨hname, hpassed⟩, rfl⟩

/-! ### A class that is passed over -/

/-- A class, two auxiliary ones whose names agree, and one whose name has a scope. -/
def sampleAuxiliaries : NativeSchema where
  classes := [
    { name := .unqualified "person" },
    { name := .unqualified "posix", auxiliary := true },
    { name := .qualified ItemName.resourceScope "posix", auxiliary := true },
    { name := .qualified ItemName.resourceScope "shadow", auxiliary := true }]

/-- An object with both auxiliary classes. -/
def sampleBoth : SortedSet ItemName :=
  .ofList [.unqualified "posix", .qualified ItemName.resourceScope "posix"]

/-- An object with an auxiliary class and one that does not exist. -/
def sampleUnknown : SortedSet ItemName :=
  .ofList [.unqualified "shadow", .qualified "x" "shadow"]

theorem compose_of_build_sample : ∃ definition d,
    (build sampleAuxiliaries [] .empty).schema.structural (.unqualified "person") none =
        .ok definition ∧
      (build sampleAuxiliaries [] .empty).schema.compose (.unqualified "person") none sampleBoth =
        .ok d ∧
      (build sampleAuxiliaries [] .empty).schema.Covers d (.unqualified "posix") := by
  obtain ⟨definition, hstructural, hauxiliary⟩ : ∃ definition : ObjectDefinition,
      (build sampleAuxiliaries [] .empty).schema.structural (.unqualified "person") none =
        .ok definition ∧ definition.auxiliaryClasses = [] := ⟨_, rfl, rfl⟩
  obtain ⟨d, hd⟩ : ∃ d, (build sampleAuxiliaries [] .empty).schema.compose (.unqualified "person")
      none sampleBoth = .ok d := ⟨_, rfl⟩
  obtain ⟨-, hcovers⟩ :=
    (compose_of_build sampleAuxiliaries [] .empty sampleBoth hstructural).2 d hd
  refine ⟨definition, d, hstructural, hd, (hcovers _ (by decide)).2 ?_⟩
  rw [hauxiliary]
  rintro (⟨n, hn, -⟩ | ⟨hscope, -⟩)
  · cases hn
  · exact absurd rfl hscope

/-- One of the two classes is not part of the definition, and nothing is said of the class that does
not exist. -/
theorem class_passed_over : ∃ d d',
    (build sampleAuxiliaries [] .empty).schema.compose (.unqualified "person") none sampleBoth =
        .ok d ∧
      .qualified ItemName.resourceScope "posix" ∈ sampleBoth.toList ∧
      ((build sampleAuxiliaries [] .empty).schema.findClass?
        (.qualified ItemName.resourceScope "posix")).isSome = true ∧
      ¬ (build sampleAuxiliaries [] .empty).schema.Covers d
        (.qualified ItemName.resourceScope "posix") ∧
      (build sampleAuxiliaries [] .empty).schema.compose (.unqualified "person") none
        sampleUnknown = .ok d' ∧
      .qualified "x" "shadow" ∈ sampleUnknown.toList ∧
      (build sampleAuxiliaries [] .empty).schema.findClass? (.qualified "x" "shadow") = none :=
  ⟨_, _, rfl, by decide, by decide, by decide, rfl, by decide, by decide⟩

end Schema

end Reconciler
