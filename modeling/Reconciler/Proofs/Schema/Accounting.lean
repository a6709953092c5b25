/-
What building a schema makes of the declarations.

Every declaration leaves a type or an error behind, and what is left out for one reason must not be
forgotten or left out twice.  The types that are built stand side by side in the schema, so they
must not get in each other's way.

* `Schema.Fits`: a type is made of a class of the schema, attribute by attribute;
* `Schema.Draft.Declares`: what becomes of a declaration that is taken up;
* `Schema.Built.Accounts`: declarations are accounted for, by types that go together;
* `Schema.Draft.Balances`: the same while declarations are taken up, with what was noted of them;
* `Schema.Draft.Stems`: which declaration each type was made from.

Main statements:
* `Schema.map_name_placeRefined`: refined attributes take the places of those with their names;
* `Schema.fits_of_resolve`: what a declaration is resolved to fits;
* `Schema.Draft.Balances.declares`: one more declaration is accounted for;
* `Schema.exists_declaration_of_build`: every type is made from the first declaration of its kind
  and intent;
* `Schema.build_accounts`: all of them are accounted for.
-/
import Reconciler.Schema.Build
import Mathlib.Data.List.Induction

namespace Reconciler.Schema

/-! ### One type -/

/-- A type is made of a class of the schema: it has the attributes of the class in their order, and
all of its auxiliary classes are there. -/
structure Fits (s : Schema) (t : ObjectType) : Prop where
  objectClass : t.objectClass ∈ s.classes
  attributes : t.attributes.map AttributeDefinition.name =
    t.objectClass.attributes.map AttributeDefinition.name
  auxiliary : ∀ name ∈ t.auxiliaryClasses, (s.findClass? name).isSome = true

variable {s s' : Schema} {t : ObjectType} {d : TypeDeclaration} {resource : CapabilitySet}

/-- Only the classes matter. -/
theorem Fits.of_classes_eq (h : s.Fits t) (hclasses : s'.classes = s.classes) : s'.Fits t where
  objectClass := hclasses ▸ h.objectClass
  attributes := h.attributes
  auxiliary name hname := by
    have hfound := h.auxiliary name hname
    rw [findClass?] at hfound ⊢
    rw [hclasses]
    exact hfound

/-- Attributes are kept under their names. -/
def KeyedByName (refined : SortedMap ItemName AttributeDefinition) : Prop :=
  ∀ name a, refined.get? name = some a → a.name = name

variable {refined : SortedMap ItemName AttributeDefinition}

theorem KeyedByName.insert (h : KeyedByName refined) (a : AttributeDefinition) :
    KeyedByName (refined.insert a.name a) := by
  intro name b hb
  rw [SortedMap.get?_insert] at hb
  split at hb
  · next hname =>
    cases hb
    exact hname.symm
  · exact h name b hb

theorem KeyedByName.erase (h : KeyedByName refined) (key : ItemName) :
    KeyedByName (refined.erase key) := by
  intro name b hb
  rw [SortedMap.get?_erase] at hb
  split at hb
  · cases hb
  · exact h name b hb

/-- One more refinement is noted under the name of the attribute that the class finds for it. -/
theorem exists_of_refineAttributes_concat {id : TypeId} {c : ObjectClass}
    {rs : List AttributeRefinement} {r : AttributeRefinement}
    (h : refineAttributes id c (rs ++ [r]) = .ok refined) :
    ∃ acc name found a, refineAttributes id c rs = .ok acc ∧ r.name = some name ∧
      c.findAttribute? name = some found ∧ r.applyTo found = .ok a ∧
      refined = acc.insert found.name a := by
  rw [refineAttributes, List.foldlM_append] at h
  change refineAttributes id c rs >>= _ = _ at h
  cases hrs : refineAttributes id c rs with
  | error e =>
    rw [hrs] at h
    cases h
  | ok acc =>
    rw [hrs] at h
    cases hname : r.name with
    | none =>
      simp only [List.foldlM_cons, hname] at h
      cases h
    | some name =>
      cases hfound : c.findAttribute? name with
      | none =>
        simp only [List.foldlM_cons, hname, hfound] at h
        cases h
      | some found =>
        cases ha : r.applyTo found with
        | error e =>
          simp only [List.foldlM_cons, hname, hfound, ha] at h
          cases h
        | ok a =>
          simp only [List.foldlM_cons, hname, hfound, ha] at h
          cases h
          exact ⟨acc, name, found, a, rfl, rfl, hfound, ha, rfl⟩

/-- A refinement is noted under the name of the attribute that it refines, which keeps that name. -/
theorem keyedByName_refineAttributes {id : TypeId} {c : ObjectClass} {rs : List AttributeRefinement}
    (h : refineAttributes id c rs = .ok refined) : KeyedByName refined := by
  induction rs using List.reverseRecOn generalizing refined with
  | nil =>
    cases h
    exact fun _ _ h => nomatch h
  | append_singleton rs r ih =>
    obtain ⟨acc, name, found, a, hacc, -, -, ha, rfl⟩ := exists_of_refineAttributes_concat h
    have hkept : a.name = found.name := AttributeRefinement.applyTo_name ha
    exact hkept ▸ (ih hacc).insert a

/-- Refined attributes take the places of those with their names. -/
theorem map_name_placeRefined (h : KeyedByName refined) (attributes : List AttributeDefinition) :
    (placeRefined refined attributes).map AttributeDefinition.name =
      attributes.map AttributeDefinition.name := by
  induction attributes generalizing refined with
  | nil => rfl
  | cons base rest ih =>
    rw [placeRefined, List.map_cons, List.map_cons, ih (h.erase base.name)]
    cases hrefined : refined.get? base.name with
    | none => rfl
    | some a =>
      have hname : a.name = base.name := h base.name a hrefined
      rw [Option.getD_some, hname]

theorem isSome_findClass?_of_checkAuxiliary {id : TypeId} {names : List ItemName}
    (h : s.checkAuxiliary id names = .ok ()) :
    ∀ name ∈ names, (s.findClass? name).isSome = true := by
  intro name hname
  unfold checkAuxiliary at h
  split at h
  · cases h
  · next hnone =>
    have hfound := List.find?_eq_none.1 hnone name hname
    simpa [Option.isSome_iff_ne_none] using hfound

/-- Of a schema, a declaration only needs the classes. -/
theorem resolve_congr (h : s.classes = s'.classes) (resource : CapabilitySet)
    (d : TypeDeclaration) : s.resolve resource d = s'.resolve resource d := by
  obtain ⟨classes, types⟩ := s
  obtain ⟨classes', types'⟩ := s'
  cases h
  rfl

/-- What a declaration is resolved to: its class is found, the refined attributes take their places,
and its auxiliary classes are there. -/
theorem exists_of_resolve (h : s.resolve resource d = .ok t) :
    t.id = d.id ∧ t.isDefault = d.defaultForKind.getD false ∧
      t.auxiliaryClasses = d.auxiliaryClasses ∧
      (∃ className, s.findClass? className = some t.objectClass) ∧
      (∃ refined, refineAttributes d.id t.objectClass d.attributes = .ok refined ∧
        t.attributes = placeRefined refined t.objectClass.attributes) ∧
      s.checkAuxiliary d.id d.auxiliaryClasses = .ok () := by
  unfold resolve at h
  split at h
  · cases h
  · next className _ =>
    split at h
    · cases h
    · next c hc =>
      cases hrefined : refineAttributes d.id c d.attributes with
      | error e =>
        rw [hrefined] at h
        cases h
      | ok refined =>
        cases hauxiliary : s.checkAuxiliary d.id d.auxiliaryClasses with
        | error e =>
          rw [hrefined, hauxiliary] at h
          cases h
        | ok _ =>
          cases hcapabilities : typeCapabilities resource d.capabilities with
          | error e =>
            rw [hrefined, hauxiliary, hcapabilities] at h
            cases h
          | ok capabilities =>
            rw [hrefined, hauxiliary, hcapabilities] at h
            cases h
            exact ⟨rfl, rfl, rfl, ⟨className, hc⟩, ⟨refined, hrefined, rfl⟩, rfl⟩

/-- What a declaration is resolved to has its kind and intent, is the default just when that is
declared, and fits. -/
theorem fits_of_resolve (h : s.resolve resource d = .ok t) :
    t.id = d.id ∧ (t.isDefault = true ↔ d.defaultForKind = some true) ∧ s.Fits t := by
  obtain ⟨hid, hdefault, hnames, ⟨_, hc⟩, ⟨refined, hrefined, hattributes⟩, hauxiliary⟩ :=
    exists_of_resolve h
  refine ⟨hid, ?_, (ItemName.mem_of_find? hc).1, ?_, ?_⟩
  · rw [hdefault]
    cases d.defaultForKind <;> simp
  · rw [hattributes]
    exact map_name_placeRefined (keyedByName_refineAttributes hrefined) t.objectClass.attributes
  · rw [hnames]
    exact isSome_findClass?_of_checkAuxiliary hauxiliary

/-! ### One declaration -/

namespace Draft

/-- What becomes of a declaration: it is reported because it repeats another, or asks to be a second
default, or does not fit; or else its type is built. -/
inductive Declares (resource : CapabilitySet) (b : Draft) (d : TypeDeclaration) : Draft → Prop where
  | repeated (hseen : d.id ∈ b.seen) : Declares resource b d (b.report (.duplicateType d.id))
  | second {first : TypeId} (hnew : d.id ∉ b.seen) (hrival : b.rival? d = some first) :
      Declares resource b d
        (({ b with seen := d.id :: b.seen } : Draft).report (.twoDefaults first d.id))
  | unfit {e : Misconfiguration} (hnew : d.id ∉ b.seen) (hrival : b.rival? d = none)
      (h : b.schema.resolve resource d = .error e) :
      Declares resource b d ((b.register d).report e)
  | built {t : ObjectType} (hnew : d.id ∉ b.seen) (hrival : b.rival? d = none)
      (h : b.schema.resolve resource d = .ok t) :
      Declares resource b d
        { b.register d with schema := { b.schema with types := b.schema.types ++ [t] } }

theorem declares_declare (resource : CapabilitySet) (b : Draft) (d : TypeDeclaration) :
    Declares resource b d (b.declare resource d) := by
  unfold declare
  split
  · next hseen => exact .repeated (List.contains_iff_mem.1 hseen)
  · next hseen =>
    have hnew : d.id ∉ b.seen := fun h => hseen (List.contains_iff_mem.2 h)
    split
    · next first hrival => exact .second hnew hrival
    · next hrival =>
      dsimp only
      split
      · next t h => exact .built hnew hrival h
      · next e h => exact .unfit hnew hrival h

/-- Without a rival, no default of its kind was noted before a declaration that asks to be one. -/
theorem kind_ne_of_rival? {b : Draft} (hrival : b.rival? d = none)
    (hdefault : d.defaultForKind = some true) : ∀ id ∈ b.defaults, id.kind ≠ d.kind := by
  intro id hid
  rw [rival?, if_pos hdefault] at hrival
  simpa using List.find?_eq_none.1 hrival id hid

end Draft

/-! ### All declarations -/

/-- The type is marked as the default of a kind. -/
def isDefaultOf (kind : ObjectKind) (t : ObjectType) : Bool := t.isDefault && t.id.kind == kind

/-- Declarations are accounted for: each has left a type or an error behind; the types come in the
order of their declarations, with no kind and intent twice and no more than one default of a kind,
and each of them fits. -/
structure Built.Accounts (b : Built) (declarations : List TypeDeclaration) : Prop where
  counted : b.schema.types.length + b.errors.length = declarations.length
  ordered : (b.schema.types.map ObjectType.id).Sublist (declarations.map TypeDeclaration.id)
  distinct : (b.schema.types.map ObjectType.id).Nodup
  oneDefault : ∀ kind, b.schema.types.countP (isDefaultOf kind) ≤ 1
  fits : ∀ t ∈ b.schema.types, b.schema.Fits t

namespace Draft

/-- The declarations taken up so far are accounted for, and what was noted of them tells which types
are there and which defaults. -/
structure Balances (b : Draft) (declarations : List TypeDeclaration) : Prop
    extends b.toBuilt.Accounts declarations where
  seen : ∀ t ∈ b.schema.types, t.id ∈ b.seen
  noted : ∀ t ∈ b.schema.types, t.isDefault = true → ∃ id ∈ b.defaults, id.kind = t.id.kind

variable {b b' : Draft} {declarations : List TypeDeclaration}

/-- A declaration that only leaves an error behind is accounted for by that. -/
theorem Balances.report (h : b.Balances declarations) (hschema : b'.schema = b.schema)
    (herrors : b'.errors.length = b.errors.length + 1) (hseen : b.seen ⊆ b'.seen)
    (hdefaults : b.defaults ⊆ b'.defaults) : b'.Balances (declarations ++ [d]) where
  counted := by
    have := h.counted
    rw [hschema, herrors, List.length_append, List.length_singleton]
    omega
  ordered := by
    rw [hschema, List.map_append]
    exact h.ordered.trans (List.sublist_append_left ..)
  distinct := hschema ▸ h.distinct
  oneDefault := hschema ▸ h.oneDefault
  fits := hschema ▸ h.fits
  seen t ht := hseen (h.seen t (hschema ▸ ht))
  noted t ht hdefault := by
    obtain ⟨id, hid, hkind⟩ := h.noted t (hschema ▸ ht) hdefault
    exact ⟨id, hdefaults hid, hkind⟩

/-- A type that is built is the only one of its kind and intent, and the only default of its kind if
it is one. -/
theorem Balances.built (h : b.Balances declarations) (hnew : d.id ∉ b.seen)
    (hrival : b.rival? d = none) (hresolve : b.schema.resolve resource d = .ok t) :
    ({ b.register d with schema := { b.schema with types := b.schema.types ++ [t] } }
      : Draft).Balances (declarations ++ [d]) := by
  obtain ⟨hid, hdefault, hfits⟩ := fits_of_resolve hresolve
  have hregistered : b.seen ⊆ (b.register d).seen := List.subset_cons_self ..
  have hnoted : b.defaults ⊆ (b.register d).defaults := by
    unfold register
    split
    · exact List.subset_cons_self ..
    · exact List.Subset.refl _
  refine ⟨⟨?_, ?_, ?_, fun kind => ?_, ?_⟩, ?_, ?_⟩
  · have hcounted := h.counted
    show (b.schema.types ++ [t]).length + b.errors.length = (declarations ++ [d]).length
    rw [List.length_append, List.length_append, List.length_singleton, List.length_singleton]
    omega
  · show ((b.schema.types ++ [t]).map ObjectType.id).Sublist _
    rw [List.map_append, List.map_append, List.map_singleton, List.map_singleton, hid]
    exact h.ordered.append (List.Sublist.refl _)
  · show ((b.schema.types ++ [t]).map ObjectType.id).Nodup
    rw [List.map_append, List.map_singleton, List.nodup_append]
    refine ⟨h.distinct, List.pairwise_singleton _ _, fun id hmem other hother => ?_⟩
    obtain ⟨u, hu, rfl⟩ := List.mem_map.1 hmem
    rw [List.mem_singleton.1 hother, hid]
    exact fun hsame => hnew (hsame ▸ h.seen u hu)
  · show (b.schema.types ++ [t]).countP (isDefaultOf kind) ≤ 1
    rw [List.countP_append, List.countP_singleton]
    split
    · next hmarked =>
      -- An earlier default of the kind would have been noted, and would be a rival.
      obtain ⟨hasks, rfl⟩ : t.isDefault = true ∧ t.id.kind = kind := by
        simpa [isDefaultOf] using hmarked
      have hnone : b.schema.types.countP (isDefaultOf t.id.kind) = 0 := by
        refine List.countP_eq_zero.2 fun u hu hdefaults => ?_
        obtain ⟨hother, hkind⟩ : u.isDefault = true ∧ u.id.kind = t.id.kind := by
          simpa [isDefaultOf] using hdefaults
        obtain ⟨id, hnoted, hsame⟩ := h.noted u hu hother
        refine kind_ne_of_rival? hrival (hdefault.1 hasks) id hnoted ?_
        rw [hsame, hkind, hid]
        rfl
      omega
    · exact h.oneDefault kind
  · refine List.forall_mem_append.2 ⟨fun u hu => ?_, List.forall_mem_singleton.2 ?_⟩
    · exact (h.fits u hu).of_classes_eq rfl
    · exact hfits.of_classes_eq rfl
  · refine List.forall_mem_append.2 ⟨fun u hu => hregistered (h.seen u hu),
      List.forall_mem_singleton.2 ?_⟩
    rw [hid]
    exact List.mem_cons_self
  · refine List.forall_mem_append.2 ⟨fun u hu hother => ?_,
      List.forall_mem_singleton.2 fun hmarked => ⟨d.id, ?_, congrArg TypeId.kind hid.symm⟩⟩
    · obtain ⟨id, hid, hkind⟩ := h.noted u hu hother
      exact ⟨id, hnoted hid, hkind⟩
    · show d.id ∈ (b.register d).defaults
      rw [register, if_pos (hdefault.1 hmarked)]
      exact List.mem_cons_self

/-- One more declaration is accounted for, whatever becomes of it. -/
theorem Balances.declares (h : b.Balances declarations) (hd : Declares resource b d b') :
    b'.Balances (declarations ++ [d]) := by
  cases hd with
  | repeated _ =>
    exact h.report rfl (by simp [Draft.report]) (List.Subset.refl _) (List.Subset.refl _)
  | second _ _ =>
    exact h.report rfl (by simp [Draft.report]) (List.subset_cons_self ..) (List.Subset.refl _)
  | unfit _ _ _ =>
    refine h.report rfl (by simp [Draft.report, register]) (List.subset_cons_self ..) ?_
    simp only [Draft.report, register]
    split
    · exact List.subset_cons_self ..
    · exact List.Subset.refl _
  | built hnew hrival hresolve => exact h.built hnew hrival hresolve

theorem balances_new (native : NativeSchema) :
    ({ schema := ofNative native } : Draft).Balances [] where
  counted := rfl
  ordered := List.Sublist.refl _
  distinct := List.nodup_nil
  oneDefault _ := Nat.zero_le 1
  fits := List.forall_mem_nil _
  seen := List.forall_mem_nil _
  noted := List.forall_mem_nil _

theorem Balances.foldl_declare (h : b.Balances declarations) (more : List TypeDeclaration) :
    (more.foldl (declare resource) b).Balances (declarations ++ more) := by
  induction more generalizing b declarations with
  | nil => simpa using h
  | cons d more ih =>
    have hd := h.declares (declares_declare resource b d)
    simpa using ih hd

end Draft

/-! ### Where the types come from -/

namespace Draft

/-- All types were made of classes of a schema, each from the first declaration of its kind and
intent. -/
structure Stems (s : Schema) (resource : CapabilitySet) (b : Draft)
    (declarations : List TypeDeclaration) : Prop where
  classes : b.schema.classes = s.classes
  seen : ∀ d ∈ declarations, d.id ∈ b.seen
  declared : ∀ t ∈ b.schema.types, ∃ d, declarations.find? (fun d => d.id == t.id) = some d ∧
    s.resolve resource d = .ok t

variable {b : Draft} {declarations : List TypeDeclaration}

theorem Stems.declare (h : b.Stems s resource declarations) (d : TypeDeclaration) :
    (b.declare resource d).Stems s resource (declarations ++ [d]) := by
  have hseen : ∀ d' ∈ declarations ++ [d], d'.id ∈ d.id :: b.seen := by
    refine List.forall_mem_append.2 ⟨fun d' hd' => List.mem_cons_of_mem _ (h.seen d' hd'),
      List.forall_mem_singleton.2 List.mem_cons_self⟩
  have hearlier : ∀ t ∈ b.schema.types, ∃ d',
      (declarations ++ [d]).find? (fun d => d.id == t.id) = some d' ∧
        s.resolve resource d' = .ok t := by
    intro t ht
    obtain ⟨d', hd', hresolve⟩ := h.declared t ht
    exact ⟨d', by rw [List.find?_append, hd']; rfl, hresolve⟩
  have hd := declares_declare resource b d
  generalize b.declare resource d = b' at hd
  cases hd with
  | repeated hrepeats =>
    refine ⟨h.classes, fun d' hd' => ?_, hearlier⟩
    rcases List.mem_cons.1 (hseen d' hd') with heq | hmem
    · exact heq ▸ hrepeats
    · exact hmem
  | second _ _ => exact ⟨h.classes, hseen, hearlier⟩
  | unfit _ _ _ => exact ⟨h.classes, hseen, hearlier⟩
  | @built t hnew _ hresolve =>
    refine ⟨h.classes, hseen, List.forall_mem_append.2 ⟨hearlier, List.forall_mem_singleton.2 ?_⟩⟩
    have hid : t.id = d.id := (fits_of_resolve hresolve).1
    have hnone : declarations.find? (fun d => d.id == t.id) = none := by
      refine List.find?_eq_none.2 fun d' hd' hsame => hnew ?_
      rw [← hid, ← eq_of_beq hsame]
      exact h.seen d' hd'
    refine ⟨d, ?_, resolve_congr h.classes resource d ▸ hresolve⟩
    rw [List.find?_append, hnone, hid]
    simp

theorem Stems.foldl_declare (h : b.Stems s resource declarations) (more : List TypeDeclaration) :
    (more.foldl (Draft.declare resource) b).Stems s resource (declarations ++ more) := by
  induction more generalizing b declarations with
  | nil => simpa using h
  | cons d more ih => simpa using ih (h.declare d)

end Draft

/-- Every type is what the first declaration of its kind and intent is resolved to. -/
theorem exists_declaration_of_build {native : NativeSchema} {declarations : List TypeDeclaration}
    (ht : t ∈ (build native declarations resource).schema.types) :
    ∃ d, declarations.find? (fun d => d.id == t.id) = some d ∧
      (ofNative native).resolve resource d = .ok t := by
  have hnew : ({ schema := ofNative native } : Draft).Stems (ofNative native) resource [] :=
    ⟨rfl, List.forall_mem_nil _, List.forall_mem_nil _⟩
  exact (hnew.foldl_declare declarations).declared t ht

/-! ### All declarations accounted for -/

/-- **Building a schema accounts for every declaration, and the schema is in order**: there are as
many declarations as types and errors together; the types come in the order of their declarations,
no kind and intent comes twice, and no kind has two defaults; and every type is made of a class of
the schema, attribute by attribute, with auxiliary classes that are there. -/
theorem build_accounts (native : NativeSchema) (declarations : List TypeDeclaration)
    (resource : CapabilitySet) :
    (build native declarations resource).Accounts declarations :=
  ((Draft.balances_new native).foldl_declare declarations).toAccounts

end Reconciler.Schema
