/-
The order of declarations.

Building takes declarations up one after another, remembers which types and defaults it has met, and
appends what it builds; the look-ups take the first type that answers.  None of this can be told
from outside when nothing is reported: what a declaration can be reported for is then a matter of
the declarations that stand in its way, not of which came first, and no look-up has two types to
choose from.

* `TypeDeclaration.GoesWith`: neither of two declarations stands in the way of the other;
* `Schema.Draft.Admits`: nothing noted so far stands in the way of a declaration;
* `Schema.Rearranges`: the same classes, and the same types in some order;
* `Schema.AnswersLike`: every look-up answers alike.

Main statements:
* `Schema.errors_build_eq_nil_iff`: nothing is reported just when all declarations go with one
  another and every one can be resolved;
* `Schema.mem_types_iff_of_clean`: the types are then those that the declarations are resolved to;
* `Schema.Rearranges.answersLike`: a schema in order is not changed by rearranging its types;
* `Schema.build_perm`: so rearranged declarations build schemas that answer alike.
-/
import Reconciler.Proofs.Schema.Accounting
import Mathlib.Data.List.Nodup

namespace Reconciler

/-! ### Declarations that go together -/

/-- Neither of two declarations stands in the way of the other: they are not of the same kind and
intent, and do not both ask to be the default of a kind. -/
structure TypeDeclaration.GoesWith (d e : TypeDeclaration) : Prop where
  distinct : d.id ≠ e.id
  oneDefault : d.defaultForKind = some true → e.defaultForKind = some true → d.kind ≠ e.kind

theorem TypeDeclaration.GoesWith.symm {d e : TypeDeclaration} (h : d.GoesWith e) :
    e.GoesWith d where
  distinct := h.distinct.symm
  oneDefault he hd := (h.oneDefault hd he).symm

namespace Schema

variable {s s' : Schema} {resource : CapabilitySet} {d e : TypeDeclaration}

namespace Draft

variable {b : Draft}

/-- Nothing that was noted stands in the way of a declaration. -/
structure Admits (b : Draft) (d : TypeDeclaration) : Prop where
  unseen : d.id ∉ b.seen
  unrivalled : b.rival? d = none

theorem rival?_eq_none_iff :
    b.rival? d = none ↔ (d.defaultForKind = some true → ∀ id ∈ b.defaults, id.kind ≠ d.kind) := by
  refine ⟨fun hrival hasks => kind_ne_of_rival? hrival hasks, fun h => ?_⟩
  unfold rival?
  split
  · next hasks => simpa using h hasks
  · rfl

/-- Once a declaration is noted, others must also go with it. -/
theorem admits_register_iff : (b.register d).Admits e ↔ b.Admits e ∧ d.GoesWith e := by
  have hseen : e.id ∉ (b.register d).seen ↔ e.id ∉ b.seen ∧ d.id ≠ e.id := by
    show e.id ∉ d.id :: b.seen ↔ _
    rw [List.mem_cons, not_or, and_comm, ne_comm]
  have hrival : (b.register d).rival? e = none ↔ b.rival? e = none ∧
      (d.defaultForKind = some true → e.defaultForKind = some true → d.kind ≠ e.kind) := by
    rw [rival?_eq_none_iff, rival?_eq_none_iff]
    by_cases hasks : d.defaultForKind = some true
    · have hdefaults : (b.register d).defaults = d.id :: b.defaults := if_pos hasks
      rw [hdefaults, List.forall_mem_cons]
      exact ⟨fun h => ⟨fun he => (h he).2, fun _ he => (h he).1⟩,
        fun h he => ⟨h.2 hasks he, h.1 he⟩⟩
    · have hdefaults : (b.register d).defaults = b.defaults := if_neg hasks
      rw [hdefaults]
      exact ⟨fun h => ⟨h, fun hd => absurd hd hasks⟩, fun h => h.1⟩
  constructor
  · intro h
    obtain ⟨hunseen, hdistinct⟩ := hseen.1 h.unseen
    obtain ⟨hunrivalled, hdefault⟩ := hrival.1 h.unrivalled
    exact ⟨⟨hunseen, hunrivalled⟩, ⟨hdistinct, hdefault⟩⟩
  · rintro ⟨h, hgoes⟩
    exact ⟨hseen.2 ⟨h.unseen, hgoes.distinct⟩, hrival.2 ⟨h.unrivalled, hgoes.oneDefault⟩⟩

/-- A declaration of which nothing is reported is admitted and noted, and its type is built. -/
theorem declare_of_errors_eq_nil (h : (b.declare resource d).errors = []) :
    b.errors = [] ∧ b.Admits d ∧ ∃ t, b.schema.resolve resource d = .ok t ∧
      b.declare resource d =
        { b.register d with schema := { b.schema with types := b.schema.types ++ [t] } } := by
  have hreported (b : Draft) (e : Misconfiguration) : (b.report e).errors ≠ [] := by
    simp [Draft.report]
  have hd := declares_declare resource b d
  generalize b.declare resource d = b' at h hd
  cases hd with
  | repeated _ => exact absurd h (hreported _ _)
  | second _ _ => exact absurd h (hreported _ _)
  | unfit _ _ _ => exact absurd h (hreported _ _)
  | @built t hnew hrival hresolve => exact ⟨h, ⟨hnew, hrival⟩, t, hresolve, rfl⟩

theorem errors_declare_eq_nil_iff :
    (b.declare resource d).errors = [] ↔
      b.errors = [] ∧ b.Admits d ∧ ∃ t, b.schema.resolve resource d = .ok t := by
  constructor
  · intro h
    obtain ⟨hnone, hadmits, t, hresolve, _⟩ := declare_of_errors_eq_nil h
    exact ⟨hnone, hadmits, t, hresolve⟩
  · rintro ⟨hnone, hadmits, t, hresolve⟩
    have hd := declares_declare resource b d
    generalize b.declare resource d = b' at hd
    cases hd with
    | repeated hseen => exact absurd hseen hadmits.unseen
    | second _ hrival => cases hrival.symm.trans hadmits.unrivalled
    | unfit _ _ hfailed => cases hfailed.symm.trans hresolve
    | built _ _ _ => exact hnone

/-- After a declaration of which nothing is reported, others must also go with it. -/
theorem admits_declare_iff (h : (b.declare resource d).errors = []) :
    (b.declare resource d).Admits e ↔ b.Admits e ∧ d.GoesWith e := by
  obtain ⟨_, _, t, _, hdeclare⟩ := declare_of_errors_eq_nil h
  rw [hdeclare, ← admits_register_iff]
  exact ⟨fun h => ⟨h.unseen, h.unrivalled⟩, fun h => ⟨h.unseen, h.unrivalled⟩⟩

/-- Nothing is reported of declarations just when each is admitted, goes with the others, and can be
resolved. -/
theorem errors_foldl_declare_eq_nil_iff (hclasses : b.schema.classes = s.classes)
    (ds : List TypeDeclaration) :
    (ds.foldl (declare resource) b).errors = [] ↔
      b.errors = [] ∧ (∀ d ∈ ds, b.Admits d) ∧ ds.Pairwise TypeDeclaration.GoesWith ∧
        ∀ d ∈ ds, ∃ t, s.resolve resource d = .ok t := by
  induction ds generalizing b with
  | nil => simp
  | cons d ds ih =>
    rw [List.foldl_cons, ih ((declare_classes ..).trans hclasses), List.forall_mem_cons,
      List.pairwise_cons, List.forall_mem_cons, ← resolve_congr hclasses]
    constructor
    · rintro ⟨herrors, hadmits, hpairwise, hresolve⟩
      obtain ⟨hnone, hd, ht⟩ := errors_declare_eq_nil_iff.1 herrors
      have hlater : ∀ e ∈ ds, b.Admits e ∧ d.GoesWith e := fun e he =>
        (admits_declare_iff herrors).1 (hadmits e he)
      exact ⟨hnone, ⟨hd, fun e he => (hlater e he).1⟩, ⟨fun e he => (hlater e he).2, hpairwise⟩,
        ht, hresolve⟩
    · rintro ⟨hnone, ⟨hd, hadmits⟩, ⟨hgoes, hpairwise⟩, ht, hresolve⟩
      have herrors : (b.declare resource d).errors = [] :=
        errors_declare_eq_nil_iff.2 ⟨hnone, hd, ht⟩
      refine ⟨herrors, fun e he => ?_, hpairwise, hresolve⟩
      exact (admits_declare_iff herrors).2 ⟨hadmits e he, hgoes e he⟩

end Draft

/-! ### Declarations of which nothing is reported -/

variable {native : NativeSchema} {declarations declarations' : List TypeDeclaration}
variable {t : ObjectType}

/-- **Nothing is reported just when all declarations go with one another and every one can be
resolved.** -/
theorem errors_build_eq_nil_iff :
    (build native declarations resource).errors = [] ↔
      declarations.Pairwise TypeDeclaration.GoesWith ∧
        ∀ d ∈ declarations, ∃ t, (ofNative native).resolve resource d = .ok t := by
  have hadmits : ∀ d ∈ declarations, ({ schema := ofNative native } : Draft).Admits d := by
    refine fun d _ => ⟨List.not_mem_nil, Draft.rival?_eq_none_iff.2 fun _ => ?_⟩
    exact List.forall_mem_nil _
  refine (Draft.errors_foldl_declare_eq_nil_iff rfl declarations).trans ?_
  exact ⟨fun h => h.2.2, fun h => ⟨rfl, hadmits, h⟩⟩

/-- The types are what the declarations are resolved to. -/
theorem mem_types_iff_of_clean (hclean : (build native declarations resource).errors = []) :
    t ∈ (build native declarations resource).schema.types ↔
      ∃ d ∈ declarations, (ofNative native).resolve resource d = .ok t := by
  refine ⟨fun ht => ?_, fun ⟨d, hd, hresolve⟩ => ?_⟩
  · obtain ⟨d, hd, hresolve⟩ := exists_declaration_of_build ht
    exact ⟨d, List.mem_of_find?_eq_some hd, hresolve⟩
  · have haccounts := build_accounts native declarations resource
    -- Without an error there is a type for every declaration.
    have hids : (build native declarations resource).schema.types.map ObjectType.id =
        declarations.map TypeDeclaration.id := by
      refine haccounts.ordered.eq_of_length ?_
      rw [List.length_map, List.length_map, ← haccounts.counted, hclean, List.length_nil,
        Nat.add_zero]
    have hid : d.id ∈ (build native declarations resource).schema.types.map ObjectType.id :=
      hids ▸ List.mem_map_of_mem hd
    obtain ⟨u, hu, hsame⟩ := List.mem_map.1 hid
    obtain ⟨e, he, hresolve'⟩ := exists_declaration_of_build hu
    have hdistinct : (declarations.map TypeDeclaration.id).Nodup := hids ▸ haccounts.distinct
    have heq : e = d := by
      refine List.inj_on_of_nodup_map hdistinct (List.mem_of_find?_eq_some he) hd ?_
      rw [← hsame]
      simpa using List.find?_some he
    rw [heq, hresolve] at hresolve'
    cases hresolve'
    exact hu

/-! ### Types in another order -/

/-- A list with at most one element that qualifies finds it wherever it stands. -/
theorem find?_eq_of_perm {α : Type} {p : α → Bool} {l l' : List α} (h : l.Perm l')
    (hone : l.countP p ≤ 1) : l.find? p = l'.find? p := by
  have hfilter : l.filter p = l'.filter p := by
    have hperm := h.filter p
    rw [List.countP_eq_length_filter] at hone
    match l.filter p, hperm, hone with
    | [], hperm, _ => exact hperm.nil_eq
    | [a], hperm, _ => exact List.singleton_perm.1 hperm
  rw [← List.head?_filter, ← List.head?_filter, hfilter]

/-- The same classes, and the same types in some order; and the types do not get in each other's
way. -/
structure Rearranges (s s' : Schema) : Prop where
  classes : s.classes = s'.classes
  types : s.types.Perm s'.types
  distinct : (s.types.map ObjectType.id).Nodup
  oneDefault : ∀ kind, s.types.countP (isDefaultOf kind) ≤ 1

/-- Every look-up answers alike. -/
structure AnswersLike (s s' : Schema) : Prop where
  findClass_eq : ∀ name, s.findClass? name = s'.findClass? name
  findType_eq : ∀ id, s.findType? id = s'.findType? id
  defaultType_eq : ∀ kind, s.defaultType? kind = s'.defaultType? kind
  findDefinition_eq : ∀ kind intent, s.findDefinition? kind intent = s'.findDefinition? kind intent
  findAttribute_eq : ∀ kind intent name,
    s.findAttribute? kind intent name = s'.findAttribute? kind intent name
  compose_eq : ∀ className typeId auxiliary,
    s.compose className typeId auxiliary = s'.compose className typeId auxiliary

namespace Rearranges

theorem findClass?_eq (h : Rearranges s s') (name : ItemName) :
    s.findClass? name = s'.findClass? name := by
  rw [findClass?, findClass?, h.classes]

theorem findType?_eq (h : Rearranges s s') (id : TypeId) : s.findType? id = s'.findType? id := by
  refine find?_eq_of_perm h.types ?_
  have hcount := List.nodup_iff_count_le_one.1 h.distinct id
  rw [List.count, List.countP_map] at hcount
  exact hcount

/-- A default is the only one of its kind, and a sole type stays the sole one. -/
theorem defaultType?_eq (h : Rearranges s s') (kind : ObjectKind) :
    s.defaultType? kind = s'.defaultType? kind := by
  have hofKind : (s.typesOfKind kind).Perm (s'.typesOfKind kind) := h.types.filter _
  have hmarked : (s.typesOfKind kind).find? (·.isDefault) =
      (s'.typesOfKind kind).find? (·.isDefault) := by
    refine find?_eq_of_perm hofKind ?_
    rw [typesOfKind, List.countP_filter]
    exact h.oneDefault kind
  unfold defaultType?
  dsimp only
  rw [hmarked]
  match s.typesOfKind kind, s'.typesOfKind kind, hofKind with
  | [], _, hperm => rw [← hperm.nil_eq]
  | [only], _, hperm => rw [← List.singleton_perm.1 hperm]
  | _ :: _ :: _, [], hperm => cases hperm.length_eq
  | _ :: _ :: _, [_], hperm => cases hperm.length_eq
  | _ :: _ :: _, _ :: _ :: _, _ => rfl

theorem findDefinition?_eq (h : Rearranges s s') (kind : ObjectKind) (intent : Option String) :
    s.findDefinition? kind intent = s'.findDefinition? kind intent := by
  cases intent with
  | some intent => rw [findDefinition?, findDefinition?, h.findType?_eq]
  | none => rw [findDefinition?, findDefinition?, h.defaultType?_eq]

theorem findAttribute?_eq (h : Rearranges s s') (kind : ObjectKind) (intent : Option String)
    (name : ItemName) : s.findAttribute? kind intent name = s'.findAttribute? kind intent name := by
  rw [Schema.findAttribute?, Schema.findAttribute?, h.findDefinition?_eq]

theorem compose_eq (h : Rearranges s s') (className : ItemName) (typeId : Option TypeId)
    (auxiliary : SortedSet ItemName) :
    s.compose className typeId auxiliary = s'.compose className typeId auxiliary := by
  have hstructural : s.structural className typeId = s'.structural className typeId := by
    cases typeId with
    | some id => rw [structural, structural, h.findType?_eq]
    | none => rw [structural, structural, h.findClass?_eq]
  have hauxiliary : s.auxiliaryClass = s'.auxiliaryClass := by
    funext name
    rw [auxiliaryClass, auxiliaryClass, h.findClass?_eq]
  rw [compose, compose, hstructural, hauxiliary]

/-- **A schema in order is not changed by rearranging its types.** -/
theorem answersLike (h : Rearranges s s') : AnswersLike s s' where
  findClass_eq := h.findClass?_eq
  findType_eq := h.findType?_eq
  defaultType_eq := h.defaultType?_eq
  findDefinition_eq := h.findDefinition?_eq
  findAttribute_eq := h.findAttribute?_eq
  compose_eq := h.compose_eq

end Rearranges

/-! ### Declarations in another order -/

/-- Nothing is reported of declarations in one order just when nothing is in another. -/
theorem errors_build_eq_nil_congr (hperm : declarations.Perm declarations') :
    (build native declarations resource).errors = [] ↔
      (build native declarations' resource).errors = [] := by
  rw [errors_build_eq_nil_iff, errors_build_eq_nil_iff,
    hperm.pairwise_iff fun h => h.symm]
  simp only [hperm.mem_iff]

theorem rearranges_build (hperm : declarations.Perm declarations')
    (hclean : (build native declarations resource).errors = []) :
    Rearranges (build native declarations resource).schema
      (build native declarations' resource).schema := by
  have haccounts := build_accounts native declarations resource
  have haccounts' := build_accounts native declarations' resource
  refine ⟨?_, ?_, haccounts.distinct, haccounts.oneDefault⟩
  · rw [build_classes, build_classes]
  · refine (List.perm_ext_iff_of_nodup (.of_map _ haccounts.distinct)
      (.of_map _ haccounts'.distinct)).2 fun t => ?_
    have hclean' := (errors_build_eq_nil_congr hperm).1 hclean
    rw [mem_types_iff_of_clean hclean, mem_types_iff_of_clean hclean']
    simp only [hperm.mem_iff]

/-- **The order of declarations does not matter**: of declarations of which nothing is reported,
nothing is reported in any other order, and both schemas answer every look-up alike. -/
theorem build_perm (native : NativeSchema) (resource : CapabilitySet)
    (hperm : declarations.Perm declarations')
    (hclean : (build native declarations resource).errors = []) :
    (build native declarations' resource).errors = [] ∧
      AnswersLike (build native declarations resource).schema
        (build native declarations' resource).schema :=
  ⟨(errors_build_eq_nil_congr hperm).1 hclean, (rearranges_build hperm hclean).answersLike⟩

/-- A class that three types are declared of. -/
def samplePeople : NativeSchema where
  classes := [{ name := .unqualified "person", attributes := [{ name := .unqualified "mail" }] }]

/-- Two accounts, of which the second is the default, and an entitlement. -/
def sampleTrio : List TypeDeclaration := [
  { kind := .account, intent := "guest", objectClass := some (.unqualified "person") },
  { kind := .account, intent := "staff", objectClass := some (.unqualified "person")
    defaultForKind := some true },
  { kind := .entitlement, intent := "team", objectClass := some (.unqualified "person") }]

theorem build_perm_sample :
    sampleTrio.reverse.Perm sampleTrio ∧
      (build samplePeople sampleTrio.reverse .empty).errors = [] ∧
      (build samplePeople sampleTrio .empty).errors = [] ∧
      AnswersLike (build samplePeople sampleTrio.reverse .empty).schema
        (build samplePeople sampleTrio .empty).schema := by
  have hperm : sampleTrio.reverse.Perm sampleTrio := List.reverse_perm _
  have hclean : (build samplePeople sampleTrio.reverse .empty).errors = [] := by decide
  exact ⟨hperm, hclean, build_perm samplePeople .empty hperm hclean⟩

end Schema

end Reconciler
