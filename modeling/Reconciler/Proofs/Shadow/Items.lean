/-
What a delta does to the items of a shadow, one at a time.

* `Shadow.content`: what a shadow says of one item;
* `Delta.ofItem`: the modifications of one item, in their order.

Main statements:
* `Delta.content_appliedTo`: what becomes of an item is up to its own modifications;
* `ReconcileContext.ofItem_itemsDelta`: the modifications of an item are those that it itself calls
  for;
* `ReconcileContext.itemsDelta_appliedTo`: once they are applied, no item calls for any, but for the
  time of the copy.

Design notes:
* All items but attributes are replaced by what was observed, written as JSON.  That must read back:
  names of auxiliary classes must be such as a text can stand for, and times must be named by their
  texts.
-/
import Reconciler.Shadow.Reconcile

namespace Reconciler

/-! ### One item -/

/-- What an item consists of. -/
abbrev ItemPath.Content : ItemPath → Type
  | .attributeValues _ => List Json
  | .name => Option String
  | .auxiliaryClasses => SortedSet ItemName
  | .presence => Bool
  | .production => Option Bool
  | .activation _ => List Json
  | .cachingMetadata => Option CachingMetadata

/-- What a shadow says of one item. -/
def Shadow.content (s : Shadow) : (path : ItemPath) → path.Content
  | .attributeValues name => s.valuesAt name
  | .name => s.name
  | .auxiliaryClasses => s.auxiliaryClasses
  | .presence => s.isPresent
  | .production => s.production
  | .activation p => p.valuesOf s.activation
  | .cachingMetadata => s.cachingMetadata

namespace ActivationProperty

/-- What is known of one property decides what a value makes of it. -/
theorem valuesOf_set_congr (p : ActivationProperty) (a b : Activation) (value : Option Json) :
    p.valuesOf (p.set a value) = p.valuesOf (p.set b value) := by
  cases p <;> rfl

end ActivationProperty

namespace ItemDelta

variable {m : ItemDelta} {path : ItemPath} {s t : Shadow}

/-- A modification leaves other items alone. -/
theorem content_applyTo_of_ne (h : m.path ≠ path) :
    (m.applyTo s).content path = s.content path := by
  cases hm : m.path with
  | attributeValues name =>
    cases path with
    | attributeValues other =>
      have hne : other ≠ name := by
        rintro rfl
        exact h hm
      exact (valuesAt_applyTo hm s other).trans (if_neg hne)
    | _ => simp only [applyTo, hm, Shadow.content]
  | activation p =>
    cases path with
    | activation q =>
      have hne : q ≠ p := by
        rintro rfl
        exact h hm
      simp only [applyTo, hm, Shadow.content, ActivationProperty.valuesOf_set_of_ne hne]
    | _ => simp only [applyTo, hm, Shadow.content, Shadow.valuesAt]
  | _ =>
    -- All other items have a path of their own, which has no parameter.
    cases path <;>
      first
      | exact absurd hm h
      | simp only [applyTo, hm, Shadow.content, Shadow.valuesAt]

/-- What a modification makes of its item depends on nothing else. -/
theorem content_applyTo_congr (h : m.path = path) (e : s.content path = t.content path) :
    (m.applyTo s).content path = (m.applyTo t).content path := by
  cases path with
  | attributeValues name =>
    have he : s.valuesAt name = t.valuesAt name := e
    show (m.applyTo s).valuesAt name = (m.applyTo t).valuesAt name
    rw [valuesAt_applyTo h, valuesAt_applyTo h, he]
  | activation p =>
    have he : p.valuesOf s.activation = p.valuesOf t.activation := e
    simp only [Shadow.content, applyTo, h, he]
    exact ActivationProperty.valuesOf_set_congr ..
  | _ =>
    simp only [Shadow.content] at e
    simp only [Shadow.content, applyTo, h, e]

end ItemDelta

namespace Delta

/-- The modifications of one item. -/
def ofItem (d : Delta) (path : ItemPath) : Delta := d.filter fun m => m.path = path

theorem mem_ofItem_iff {d : Delta} {path : ItemPath} {m : ItemDelta} :
    m ∈ d.ofItem path ↔ m ∈ d ∧ m.path = path := by
  rw [ofItem, List.mem_filter, decide_eq_true_iff]

theorem ofItem_append (d e : Delta) (path : ItemPath) :
    ofItem (d ++ e) path = d.ofItem path ++ e.ofItem path :=
  List.filter_append ..

theorem ofItem_eq_nil {d : Delta} {path : ItemPath} (h : ∀ m ∈ d, m.path ≠ path) :
    d.ofItem path = [] :=
  List.filter_eq_nil_iff.2 fun m hm => by simpa using h m hm

theorem ofItem_eq_self {d : Delta} {path : ItemPath} (h : ∀ m ∈ d, m.path = path) :
    d.ofItem path = d :=
  List.filter_eq_self.2 fun m hm => by simpa using h m hm

/-- What becomes of an item is up to its own modifications. -/
theorem content_appliedTo (d : Delta) (s : Shadow) (path : ItemPath) :
    (d.appliedTo s).content path = ((d.ofItem path).appliedTo s).content path := by
  -- The shadows part ways at the first modification that is left out, except in the item itself.
  have step : ∀ s t, s.content path = t.content path →
      (d.appliedTo s).content path = ((d.ofItem path).appliedTo t).content path := by
    induction d with
    | nil => exact fun s t h => h
    | cons m d ih =>
      intro s t h
      by_cases hp : m.path = path
      · rw [ofItem, List.filter_cons_of_pos (by simpa using hp)]
        exact ih _ _ (ItemDelta.content_applyTo_congr hp h)
      · rw [ofItem, List.filter_cons_of_neg (by simpa using hp)]
        exact ih _ _ ((ItemDelta.content_applyTo_of_ne hp).trans h)
  exact step s s rfl

/-- Modifications that each lead to the same content of an item lead there together. -/
theorem content_appliedTo_of_forall {d : Delta} (path : ItemPath) {content : path.Content}
    (h : ∀ m ∈ d, ∀ s : Shadow, (m.applyTo s).content path = content) (hne : d ≠ [])
    (s : Shadow) : (d.appliedTo s).content path = content := by
  induction d generalizing s with
  | nil => exact absurd rfl hne
  | cons m d ih =>
    show (appliedTo d (m.applyTo s)).content path = content
    by_cases hd : d = []
    · rw [hd]
      exact h m List.mem_cons_self s
    · exact ih (fun m' hm' => h m' (List.mem_cons_of_mem _ hm')) hd _

theorem ofItem_of_path {d : Delta} {own : ItemPath} (h : ∀ m ∈ d, m.path = own)
    (path : ItemPath) : d.ofItem path = if path = own then d else [] := by
  split
  · next e => exact ofItem_eq_self (e ▸ h)
  · next hne => exact ofItem_eq_nil fun m hm e => hne (e.symm.trans (h m hm))

end Delta

/-! ### Values that read back -/

/-- The text of the instant names it. -/
def Instant.ReadsBack (t : Instant) : Prop := ofText? t.toText = some t

instance (t : Instant) : Decidable t.ReadsBack := inferInstanceAs (Decidable (_ = _))

/-- The texts of the times that are known name them. -/
def Activation.ReadsBack (a : Activation) : Prop :=
  (∀ t ∈ a.validFrom, t.ReadsBack) ∧ ∀ t ∈ a.validTo, t.ReadsBack

instance (a : Activation) : Decidable a.ReadsBack := inferInstanceAs (Decidable (_ ∧ _))

theorem Instant.ReadsBack.decode?_encode {t : Instant} (h : t.ReadsBack) :
    decode? (encode t : Json) = some t := by
  unfold ReadsBack at h
  simp only [decode?, encode, Json.text?, Option.bind_eq_bind, Option.bind_some, h]

/-- Properties read back from the values that they are written as. -/
theorem ActivationProperty.valuesOf_set_head? {a : Activation} (h : a.ReadsBack)
    (p : ActivationProperty) (b : Activation) :
    p.valuesOf (p.set b (p.valuesOf a).head?) = p.valuesOf a := by
  have first : ∀ {α : Type} [Codec α] (u : Option α),
      (∀ x ∈ u, decode? (encode x : Json) = some x) →
      ((u.toList.map encode).head? >>= decode?) = u := by
    intro α _ u hu
    cases u with
    | none => rfl
    | some x => exact hu x rfl
  cases p with
  | administrativeStatus =>
    simp only [valuesOf, set]
    rw [first a.administrativeStatus fun x _ => Named.ofName?_name' x]
  | validFrom =>
    simp only [valuesOf, set]
    rw [first a.validFrom fun t ht => (h.1 t ht).decode?_encode]
  | validTo =>
    simp only [valuesOf, set]
    rw [first a.validTo fun t ht => (h.2 t ht).decode?_encode]
  | lockoutStatus =>
    simp only [valuesOf, set]
    rw [first a.lockoutStatus fun x _ => Named.ofName?_name' x]

theorem ItemName.decode?_encode {n : ItemName} (h : n.WellFormed) :
    decode? (encode n : Json) = some n := by
  show (ItemName.ofText? n.toText).toOption = some n
  rw [show ItemName.ofText? n.toText = .ok n from h]
  rfl

theorem ItemName.filterMap_decode?_map_encode {names : List ItemName}
    (h : ∀ n ∈ names, n.WellFormed) :
    (names.map encode).filterMap decode? = names := by
  induction names with
  | nil => rfl
  | cons n names ih =>
    rw [List.map_cons, List.filterMap_cons_some (ItemName.decode?_encode (h n List.mem_cons_self)),
      ih fun m hm => h m (List.mem_cons_of_mem _ hm)]

/-! ### The modifications of each item -/

namespace ReconcileContext

variable {ctx : ReconcileContext} {retention : Retention} {s : Shadow} {known : Option Delta}
variable {o : Observation} {lifecycle : LifecycleState} {m : ItemDelta} {d : Delta}

theorem path_of_mem_nameDelta (h : m ∈ ctx.nameDelta s o) : m.path = .name := by
  unfold nameDelta at h
  split at h
  · cases h
  · split at h
    · cases h
    · rw [List.mem_singleton.1 h]

theorem path_of_mem_auxiliaryDelta (h : m ∈ auxiliaryDelta s o) : m.path = .auxiliaryClasses := by
  unfold auxiliaryDelta at h
  split at h
  · cases h
  · rw [List.mem_singleton.1 h]

theorem path_of_mem_presenceDelta (h : m ∈ presenceDelta s lifecycle) : m.path = .presence := by
  unfold presenceDelta at h
  split at h
  · rw [List.mem_singleton.1 h]
  · cases h

theorem path_of_mem_productionDelta (h : m ∈ productionDelta s o) : m.path = .production := by
  unfold productionDelta at h
  split at h
  · cases h
  · split at h
    · cases h
    · rw [List.mem_singleton.1 h]

theorem mem_activationDelta_iff :
    m ∈ activationDelta s o ↔ ∃ p : ActivationProperty,
      p.valuesOf o.activation ≠ p.valuesOf s.activation ∧
        m = { path := .activation p, replace := some (p.valuesOf o.activation) } := by
  rw [activationDelta, List.mem_filterMap]
  constructor
  · rintro ⟨p, -, h⟩
    dsimp only at h
    split at h
    · cases h
    · next hne => exact ⟨p, hne, (Option.some.inj h).symm⟩
  · rintro ⟨p, hne, rfl⟩
    exact ⟨p, p.mem_all, if_neg hne⟩

theorem path_of_mem_stampDelta (h : m ∈ ctx.stampDelta retention known o) :
    m.path = .cachingMetadata := by
  unfold stampDelta at h
  split at h
  · cases h
  · rw [List.mem_singleton.1 h]

theorem path_of_mem_cacheDelta (h : m ∈ ctx.cacheDelta retention s known o) :
    (∃ p, m.path = .activation p) ∨ m.path = .cachingMetadata := by
  unfold cacheDelta at h
  split at h
  · split at h
    · rw [List.mem_singleton.1 h]
      exact .inr rfl
    · cases h
  · rcases List.mem_append.1 h with h | h
    · obtain ⟨p, -, rfl⟩ := mem_activationDelta_iff.1 h
      exact .inl ⟨p, rfl⟩
    · exact .inr (path_of_mem_stampDelta h)

/-- The modifications of an item are those that it itself calls for. -/
theorem ofItem_itemsDelta (path : ItemPath) :
    (ctx.itemsDelta retention s known o lifecycle).ofItem path =
      match path with
      | .attributeValues _ => []
      | .name => ctx.nameDelta s o
      | .auxiliaryClasses => auxiliaryDelta s o
      | .presence => presenceDelta s lifecycle
      | .production => productionDelta s o
      | .activation _ | .cachingMetadata =>
        (ctx.cacheDelta retention s known o).ofItem path := by
  have hcache : ∀ other : ItemPath, (∀ p, other ≠ .activation p) → other ≠ .cachingMetadata →
      (ctx.cacheDelta retention s known o).ofItem other = [] := by
    intro other ha hc
    refine Delta.ofItem_eq_nil fun m hm e => ?_
    rcases path_of_mem_cacheDelta hm with ⟨p, h⟩ | h
    · exact ha p (e.symm.trans h)
    · exact hc (e.symm.trans h)
  simp only [itemsDelta, Delta.ofItem_append,
    Delta.ofItem_of_path (d := ctx.nameDelta s o) fun _ => path_of_mem_nameDelta,
    Delta.ofItem_of_path (d := auxiliaryDelta s o) fun _ => path_of_mem_auxiliaryDelta,
    Delta.ofItem_of_path (d := presenceDelta s lifecycle) fun _ => path_of_mem_presenceDelta,
    Delta.ofItem_of_path (d := productionDelta s o) fun _ => path_of_mem_productionDelta]
  cases path <;> simp [hcache]

/-! ### Items once their modifications are applied -/

theorem nameDelta_appliedTo (h : d.ofItem .name = ctx.nameDelta s o) :
    ctx.nameDelta (d.appliedTo s) o = [] := by
  have hname : (d.appliedTo s).name = ((ctx.nameDelta s o).appliedTo s).name :=
    h ▸ d.content_appliedTo s .name
  unfold nameDelta at hname ⊢
  cases hd : ctx.definition.deriveName? o.values with
  | none => rfl
  | some derived =>
    rw [hd] at hname
    dsimp only at hname ⊢
    split at hname
    · next e => exact if_pos (hname.trans e)
    · exact if_pos hname

theorem covers_refl (names : SortedSet ItemName) : covers names names = true := by
  rw [covers, List.all_eq_true]
  exact fun n hn => List.any_eq_true.2 ⟨n, hn, n.agrees_refl⟩

theorem auxiliaryDelta_appliedTo (hread : ∀ n ∈ o.auxiliaryClasses.toList, n.WellFormed)
    (h : d.ofItem .auxiliaryClasses = auxiliaryDelta s o) :
    auxiliaryDelta (d.appliedTo s) o = [] := by
  have hclasses : (d.appliedTo s).auxiliaryClasses =
      ((auxiliaryDelta s o).appliedTo s).auxiliaryClasses :=
    h ▸ d.content_appliedTo s .auxiliaryClasses
  unfold auxiliaryDelta at hclasses ⊢
  split at hclasses
  · next e =>
    rw [hclasses]
    exact if_pos e
  · -- The classes were replaced, so they are those observed as far as their texts read back.
    have hset : (d.appliedTo s).auxiliaryClasses = o.auxiliaryClasses := by
      rw [hclasses]
      show SortedSet.ofList ((o.auxiliaryClasses.toList.map encode).filterMap decode?) = _
      rw [ItemName.filterMap_decode?_map_encode hread]
      exact SortedSet.ofList_toList _
    rw [hset, covers_refl]
    rfl

theorem presenceDelta_appliedTo (h : d.ofItem .presence = presenceDelta s lifecycle) :
    presenceDelta (d.appliedTo s) lifecycle = [] := by
  have hpresent : (d.appliedTo s).isPresent = ((presenceDelta s lifecycle).appliedTo s).isPresent :=
    h ▸ d.content_appliedTo s .presence
  unfold presenceDelta at hpresent ⊢
  split at hpresent
  · have htrue : (d.appliedTo s).isPresent = true := hpresent
    rw [htrue, Bool.not_true, Bool.and_false]
    rfl
  · next e =>
    rw [hpresent]
    exact if_neg e

theorem productionDelta_appliedTo (h : d.ofItem .production = productionDelta s o) :
    productionDelta (d.appliedTo s) o = [] := by
  have hproduction : (d.appliedTo s).production = ((productionDelta s o).appliedTo s).production :=
    h ▸ d.content_appliedTo s .production
  unfold productionDelta at hproduction ⊢
  cases ho : o.production with
  | none => rfl
  | some production =>
    rw [ho] at hproduction
    dsimp only at hproduction ⊢
    split at hproduction
    · next e => exact if_pos (hproduction.trans e)
    · exact if_pos hproduction

/-- Times and states that read back are no different when they were written. -/
theorem valuesOf_appliedTo {p : ActivationProperty} (hread : o.activation.ReadsBack)
    (h : d.ofItem (.activation p) = (activationDelta s o).ofItem (.activation p)) :
    p.valuesOf (d.appliedTo s).activation = p.valuesOf o.activation := by
  have hvalues : p.valuesOf (d.appliedTo s).activation =
      p.valuesOf (((activationDelta s o).ofItem (.activation p)).appliedTo s).activation :=
    h ▸ d.content_appliedTo s (.activation p)
  have hown : ∀ m ∈ (activationDelta s o).ofItem (.activation p),
      p.valuesOf o.activation ≠ p.valuesOf s.activation ∧
        m = { path := .activation p, replace := some (p.valuesOf o.activation) } := by
    intro m hm
    obtain ⟨hm, hpath⟩ := Delta.mem_ofItem_iff.1 hm
    obtain ⟨q, hne, rfl⟩ := mem_activationDelta_iff.1 hm
    obtain rfl : q = p := ItemPath.activation.inj hpath
    exact ⟨hne, rfl⟩
  rw [hvalues]
  by_cases e : p.valuesOf o.activation = p.valuesOf s.activation
  · -- Nothing was written.
    have hnil : (activationDelta s o).ofItem (.activation p) = [] :=
      List.eq_nil_iff_forall_not_mem.2 fun m hm => (hown m hm).1 e
    rw [hnil, e]
    rfl
  · have hmem : { path := .activation p, replace := some (p.valuesOf o.activation) } ∈
        (activationDelta s o).ofItem (.activation p) :=
      Delta.mem_ofItem_iff.2 ⟨mem_activationDelta_iff.2 ⟨p, e, rfl⟩, rfl⟩
    refine Delta.content_appliedTo_of_forall (.activation p) (fun m hm t => ?_)
      (List.ne_nil_of_mem hmem) s
    rw [(hown m hm).2]
    exact p.valuesOf_set_head? hread t.activation

theorem activationDelta_appliedTo (hread : o.activation.ReadsBack)
    (h : ∀ p, d.ofItem (.activation p) = (activationDelta s o).ofItem (.activation p)) :
    activationDelta (d.appliedTo s) o = [] := by
  refine List.eq_nil_iff_forall_not_mem.2 fun m hm => ?_
  obtain ⟨p, hne, -⟩ := mem_activationDelta_iff.1 hm
  exact hne (valuesOf_appliedTo hread (h p)).symm

/-- A copy of identifiers only does not keep its time. -/
theorem cachingMetadata_appliedTo
    (h : d.ofItem .cachingMetadata =
      (ctx.cacheDelta .identifiersOnly s known o).ofItem .cachingMetadata) :
    (d.appliedTo s).cachingMetadata = none := by
  have hmetadata : (d.appliedTo s).cachingMetadata =
      (((ctx.cacheDelta .identifiersOnly s known o).ofItem .cachingMetadata).appliedTo
        s).cachingMetadata :=
    h ▸ d.content_appliedTo s .cachingMetadata
  rw [hmetadata]
  unfold cacheDelta
  cases hs : s.cachingMetadata with
  | none => exact hs
  | some metadata => rfl

/-- A copy that is kept has the modifications of its times and states. -/
theorem ofItem_activation_cacheDelta (p : ActivationProperty) :
    (ctx.cacheDelta .readable s known o).ofItem (.activation p) =
      (activationDelta s o).ofItem (.activation p) := by
  have hstamp : (ctx.stampDelta .readable known o).ofItem (.activation p) = [] := by
    refine Delta.ofItem_eq_nil fun m hm e => ?_
    rw [path_of_mem_stampDelta hm] at e
    cases e
  rw [cacheDelta, Delta.ofItem_append, hstamp, List.append_nil]

/-- Nothing is lacking in a copy of which all values were observed. -/
theorem isLacking_of_complete (h : ∀ p ∈ ctx.persisted retention o, p.2.incomplete = false) :
    ctx.isLacking retention known o = false := by
  rw [isLacking, Bool.and_eq_false_iff]
  refine .inr (List.any_eq_false.2 fun p hp => ?_)
  rw [h p hp]
  exact Bool.false_ne_true

/-- Once its modifications are applied, no item calls for any, but for the time of the copy. -/
theorem itemsDelta_appliedTo (hclasses : ∀ n ∈ o.auxiliaryClasses.toList, n.WellFormed)
    (hread : o.activation.ReadsBack)
    (hcomplete : ∀ p ∈ ctx.persisted retention o, p.2.incomplete = false)
    (h : ∀ path, (∀ name, path ≠ .attributeValues name) →
      d.ofItem path = (ctx.itemsDelta retention s known o lifecycle).ofItem path)
    (later : Instant) (known' : Option Delta) :
    { ctx with now := later }.itemsDelta retention (d.appliedTo s) known' o lifecycle =
      match retention with
      | .identifiersOnly => []
      | .readable =>
        let metadata : CachingMetadata := { retrievedAt := later }
        [{ path := .cachingMetadata, replace := some [encode metadata] }] := by
  have hname : { ctx with now := later }.nameDelta (d.appliedTo s) o = [] := by
    show ctx.nameDelta (d.appliedTo s) o = []
    exact nameDelta_appliedTo ((h _ (by simp)).trans (ofItem_itemsDelta _))
  have hauxiliary : auxiliaryDelta (d.appliedTo s) o = [] :=
    auxiliaryDelta_appliedTo hclasses ((h _ (by simp)).trans (ofItem_itemsDelta _))
  have hpresence : presenceDelta (d.appliedTo s) lifecycle = [] :=
    presenceDelta_appliedTo ((h _ (by simp)).trans (ofItem_itemsDelta _))
  have hproduction : productionDelta (d.appliedTo s) o = [] :=
    productionDelta_appliedTo ((h _ (by simp)).trans (ofItem_itemsDelta _))
  rw [itemsDelta, hname, hauxiliary, hpresence, hproduction]
  cases retention with
  | identifiersOnly =>
    have hnone : (d.appliedTo s).cachingMetadata = none :=
      cachingMetadata_appliedTo ((h _ (by simp)).trans (ofItem_itemsDelta _))
    simp [cacheDelta, hnone]
  | readable =>
    have hactivation : activationDelta (d.appliedTo s) o = [] := by
      refine activationDelta_appliedTo hread fun p => ?_
      have hown := (h (.activation p) (by simp)).trans (ofItem_itemsDelta _)
      exact hown.trans (ofItem_activation_cacheDelta p)
    -- The time of the copy does not matter to what is persisted.
    have hlacking : { ctx with now := later }.isLacking .readable known' o = false :=
      @isLacking_of_complete { ctx with now := later } .readable known' o hcomplete
    simp [cacheDelta, hactivation, stampDelta, hlacking]

end ReconcileContext

end Reconciler
