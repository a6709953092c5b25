/-
How new values are written makes no difference to the shadow.

The values of an attribute of which none is stored are written by replacement if the attribute is
kept in the index only, or if there are many of them, and are added otherwise.

* `CompositeDefinition.unindexed`: a definition none of whose attributes is index-only;
* `ReconcileContext.AlikeButForm`: contexts that may only differ in when they write by replacement;
* `ReconcileContext.byReplacement`: the one among them that always does.

Main statements:
* `ReconcileContext.map_appliedTo_attributeDelta`: an attribute is left with the same values;
* `ReconcileContext.map_appliedTo_mapM`: so are all attributes, one after another;
* `ReconcileContext.map_appliedTo_delta_congr`: contexts that are alike but for the form lead to the
  same shadow, or fail alike.

Design notes:
* Values are added to what the attribute holds by then.  That is nothing, because every attribute
  that is kept is stored under a name of its own; nothing else is asked of names, and of rules
  nothing at all.
-/
import Reconciler.Proofs.Shadow.Repetition

namespace Reconciler

/-! ### Definitions without index-only attributes -/

/-- The attribute with full values kept. -/
def AttributeDefinition.unindexed (a : AttributeDefinition) : AttributeDefinition :=
  { a with indexOnly := false }

/-- The class with full values kept of all attributes. -/
def ObjectClass.unindexed (c : ObjectClass) : ObjectClass :=
  { c with attributes := c.attributes.map AttributeDefinition.unindexed }

/-- The type with full values kept of all attributes, also of those of its class. -/
def ObjectType.unindexed (t : ObjectType) : ObjectType :=
  { t with
    objectClass := t.objectClass.unindexed
    attributes := t.attributes.map AttributeDefinition.unindexed }

/-- The definition with full values kept of all attributes. -/
def ObjectDefinition.unindexed : ObjectDefinition → ObjectDefinition
  | ofClass c => ofClass c.unindexed
  | ofType t => ofType t.unindexed

namespace CompositeDefinition

/-- The definition with full values kept of all attributes. -/
def unindexed (d : CompositeDefinition) : CompositeDefinition where
  structural := d.structural.unindexed
  auxiliary := d.auxiliary.map ObjectClass.unindexed

theorem findAttribute?_unindexed_class (c : ObjectClass) (name : ItemName) :
    c.unindexed.findAttribute? name =
      (c.findAttribute? name).map AttributeDefinition.unindexed :=
  ItemName.find?_map (fun _ => rfl) c.attributes name

theorem findAttribute?_unindexed_structural (d : ObjectDefinition) (name : ItemName) :
    d.unindexed.findAttribute? name =
      (d.findAttribute? name).map AttributeDefinition.unindexed := by
  cases d with
  | ofClass c => exact findAttribute?_unindexed_class c name
  | ofType t =>
    show (ItemName.find? AttributeDefinition.name (t.attributes.map _) name <|>
        t.objectClass.unindexed.findAttribute? name) =
      (ItemName.find? AttributeDefinition.name t.attributes name <|>
        t.objectClass.findAttribute? name).map _
    have htype : ItemName.find? AttributeDefinition.name
        (t.attributes.map AttributeDefinition.unindexed) name =
          (ItemName.find? AttributeDefinition.name t.attributes name).map _ :=
      ItemName.find?_map (fun _ => rfl) t.attributes name
    rw [htype, findAttribute?_unindexed_class]
    cases ItemName.find? AttributeDefinition.name t.attributes name <;> rfl

theorem findAttribute?_unindexed (d : CompositeDefinition) (name : ItemName) :
    d.unindexed.findAttribute? name =
      (d.findAttribute? name).map AttributeDefinition.unindexed := by
  have hauxiliary : (d.auxiliary.map ObjectClass.unindexed).findSome? (·.findAttribute? name) =
      (d.auxiliary.findSome? (·.findAttribute? name)).map AttributeDefinition.unindexed := by
    rw [List.findSome?_map, List.map_findSome?]
    refine congrArg (List.findSome? · d.auxiliary) (funext fun c => ?_)
    exact findAttribute?_unindexed_class c name
  unfold findAttribute?
  show (d.structural.unindexed.findAttribute? name <|>
      (d.auxiliary.map ObjectClass.unindexed).findSome? (·.findAttribute? name)) = _
  rw [findAttribute?_unindexed_structural, hauxiliary]
  cases d.structural.findAttribute? name <;> rfl

theorem isIdentifier_unindexed (d : CompositeDefinition) (name : ItemName) :
    d.unindexed.isIdentifier name = d.isIdentifier name := by
  obtain ⟨structural, auxiliary⟩ := d
  cases structural <;> rfl

theorem deriveName?_unindexed (d : CompositeDefinition) (attributes : AttributeValues) :
    d.unindexed.deriveName? attributes = d.deriveName? attributes := by
  obtain ⟨structural, auxiliary⟩ := d
  cases structural <;> rfl

end CompositeDefinition

namespace ReconcileContext

variable {ctx other : ReconcileContext} {retention : Retention} {s t : Shadow}
variable {known : Option Delta} {o : Observation} {lifecycle : LifecycleState}
variable {p : AttributeDefinition × ObservedAttribute}

/-- The contexts differ at most in the number of values from which on they are written by
replacement and in which attributes are index-only. -/
structure AlikeButForm (ctx other : ReconcileContext) : Prop where
  strategy : ctx.strategy = other.strategy
  definition : ctx.definition.unindexed = other.definition.unindexed
  rules : ctx.rules = other.rules
  now : ctx.now = other.now

/-- The context in which any number of new values is written by replacement. -/
def byReplacement (ctx : ReconcileContext) : ReconcileContext :=
  { ctx with definition := ctx.definition.unindexed, largeValueSetThreshold := 0 }

theorem AlikeButForm.byReplacement_eq (h : ctx.AlikeButForm other) :
    ctx.byReplacement = other.byReplacement := by
  simp only [byReplacement, h.strategy, h.definition, h.rules, h.now]

/-! ### What is kept -/

theorem keeps?_byReplacement (ctx : ReconcileContext) (retention : Retention)
    (e : ItemName × ObservedAttribute) :
    ctx.byReplacement.keeps? retention e =
      (ctx.keeps? retention e).map fun p => (p.1.unindexed, p.2) := by
  have hfound : ctx.byReplacement.definition.findAttribute? e.1 =
      (ctx.definition.findAttribute? e.1).map AttributeDefinition.unindexed :=
    ctx.definition.findAttribute?_unindexed e.1
  unfold keeps?
  rw [hfound]
  cases ctx.definition.findAttribute? e.1 with
  | none => rfl
  | some a =>
    have hkept : ctx.byReplacement.isPersisted retention a.unindexed =
        ctx.isPersisted retention a := by
      unfold isPersisted
      exact congrArg (· || _) (ctx.definition.isIdentifier_unindexed a.name)
    simp only [Option.map_some, hkept]
    split <;> rfl

theorem persisted_byReplacement (ctx : ReconcileContext) (retention : Retention)
    (o : Observation) :
    ctx.byReplacement.persisted retention o =
      (ctx.persisted retention o).map fun p => (p.1.unindexed, p.2) := by
  rw [persisted_eq, persisted_eq, List.map_filterMap]
  exact List.filterMap_congr fun e _ => ctx.keeps?_byReplacement retention e

theorem handledNames_byReplacement (ctx : ReconcileContext) (retention : Retention) (s : Shadow)
    (o : Observation) :
    ctx.byReplacement.handledNames retention s o = ctx.handledNames retention s o := by
  rw [handledNames, persisted_byReplacement, List.map_map]
  rfl

theorem staleDelta_byReplacement (ctx : ReconcileContext) (retention : Retention) (s : Shadow)
    (o : Observation) :
    ctx.byReplacement.staleDelta retention s o = ctx.staleDelta retention s o := by
  unfold staleDelta
  rw [handledNames_byReplacement]

theorem itemsDelta_byReplacement (ctx : ReconcileContext) (retention : Retention) (s : Shadow)
    (known : Option Delta) (o : Observation) (lifecycle : LifecycleState) :
    ctx.byReplacement.itemsDelta retention s known o lifecycle =
      ctx.itemsDelta retention s known o lifecycle := by
  have hname : ctx.byReplacement.nameDelta s o = ctx.nameDelta s o := by
    unfold nameDelta
    rw [show ctx.byReplacement.definition.deriveName? o.values =
      ctx.definition.deriveName? o.values from ctx.definition.deriveName?_unindexed o.values]
  have hlacking : ctx.byReplacement.isLacking retention known o =
      ctx.isLacking retention known o := by
    rw [isLacking, persisted_byReplacement, List.any_map]
    rfl
  have hcache : ctx.byReplacement.cacheDelta retention s known o =
      ctx.cacheDelta retention s known o := by
    unfold cacheDelta stampDelta
    cases retention with
    | identifiersOnly => rfl
    | readable =>
      rw [hlacking]
      rfl
  rw [itemsDelta, hname, hcache]
  rfl

/-! ### What becomes of attributes -/

/-- Values that are new to an attribute are written to it in either form. -/
theorem applyTo_fillDelta (ctx : ReconcileContext) (a : AttributeDefinition) {name : ItemName}
    (rule : MatchingRule) (values : List Json) (ht : t.valuesAt name = []) :
    (ctx.fillDelta a name (rule.normalForms values)).applyTo t =
      { t with
        attributes := ItemDelta.setValues t.attributes name (rule.normalForms values) } := by
  have hpath : (ctx.fillDelta a name (rule.normalForms values)).path = .attributeValues name := by
    unfold fillDelta
    split <;> rfl
  rw [ItemDelta.applyTo_attribute hpath, ht, modified_fillDelta]

/-- An attribute is left with the same values, in every shadow that has stored the same of it. -/
theorem map_appliedTo_attributeDelta (known : Option Delta)
    (ht : t.valuesAt (s.storedName p.1.name) = s.valuesAt (s.storedName p.1.name)) :
    (ctx.byReplacement.attributeDelta s known p.1.unindexed p.2).map (Delta.appliedTo · t) =
      (ctx.attributeDelta s known p.1 p.2).map (Delta.appliedTo · t) := by
  cases hi : p.2.incomplete with
  | true =>
    rw [attributeDelta_of_incomplete hi, attributeDelta, hi]
    rfl
  | false =>
    rw [attributeDelta_of_complete hi, attributeDelta, hi]
    show (ctx.byReplacement.completeDelta s p.1.unindexed (s.storedName p.1.name) p.2.values).map
      _ = _
    cases hr : ctx.ruleOf p.1 with
    | error e =>
      have hr' : ctx.byReplacement.ruleOf p.1.unindexed = .error e := hr
      unfold completeDelta
      rw [hr, hr']
      rfl
    | ok rule =>
      have hr' : ctx.byReplacement.ruleOf p.1.unindexed = .ok rule := hr
      rw [completeDelta_of_ruleOf hr, completeDelta_of_ruleOf hr']
      by_cases hstored : s.valuesAt (s.storedName p.1.name) = []
      · -- Only here the form matters, and the attribute is empty.
        rw [hstored] at ht ⊢
        simp only [List.isEmpty_nil, if_true]
        split
        · rfl
        · show Except.ok ((ctx.byReplacement.fillDelta p.1.unindexed _ _).applyTo t) =
            Except.ok ((ctx.fillDelta p.1 _ _).applyTo t)
          rw [applyTo_fillDelta ctx.byReplacement _ rule _ ht, applyTo_fillDelta ctx _ rule _ ht]
      · have hsome : ¬(s.valuesAt (s.storedName p.1.name)).isEmpty = true := by simpa using hstored
        rw [if_neg hsome, if_neg hsome]
        rfl

/-- What becomes of the first attribute is what the others start from. -/
theorem map_appliedTo_mapM_cons {α ε : Type} (f : α → Except ε Delta) (x : α) (xs : List α)
    (t : Shadow) :
    ((x :: xs).mapM f).map (fun parts => Delta.appliedTo parts.flatten t) =
      ((f x).map (Delta.appliedTo · t)).bind fun t' =>
        (xs.mapM f).map fun parts => Delta.appliedTo parts.flatten t' := by
  rw [List.mapM_cons]
  cases f x with
  | error e => rfl
  | ok part =>
    cases xs.mapM f with
    | error e => rfl
    | ok parts =>
      show Except.ok (Delta.appliedTo (part :: parts).flatten t) = _
      rw [List.flatten_cons, Delta.appliedTo_append]
      rfl

/-- Two ways to modify attributes one after another lead to one shadow if they do so with each
attribute and each attribute has a name of its own. -/
theorem map_appliedTo_mapM {α ε : Type} {f g : α → Except ε Delta} {nameOf : α → ItemName}
    (hpath : ∀ x part, f x = .ok part → ∀ m ∈ part, m.path = .attributeValues (nameOf x))
    (hstep : ∀ x t, t.valuesAt (nameOf x) = s.valuesAt (nameOf x) →
      (g x).map (Delta.appliedTo · t) = (f x).map (Delta.appliedTo · t))
    {xs : List α} (hnames : (xs.map nameOf).Nodup)
    (ht : ∀ x ∈ xs, t.valuesAt (nameOf x) = s.valuesAt (nameOf x)) :
    (xs.mapM g).map (fun parts => Delta.appliedTo parts.flatten t) =
      (xs.mapM f).map fun parts => Delta.appliedTo parts.flatten t := by
  induction xs generalizing t with
  | nil => rfl
  | cons x xs ih =>
    rw [List.map_cons, List.nodup_cons] at hnames
    obtain ⟨hfirst, hrest⟩ := List.forall_mem_cons.1 ht
    rw [map_appliedTo_mapM_cons, map_appliedTo_mapM_cons, hstep x t hfirst]
    cases hf : f x with
    | error e => rfl
    | ok part =>
      -- The first attribute was modified, and the others have other names.
      refine ih hnames.2 fun y hy => ?_
      have hne : nameOf x ≠ nameOf y := fun e => hnames.1 (e ▸ List.mem_map_of_mem hy)
      have hnone : part.ofItem (.attributeValues (nameOf y)) = [] := by
        refine Delta.ofItem_eq_nil fun m hm e => hne ?_
        exact ItemPath.attributeValues.inj ((hpath x part hf m hm).symm.trans e)
      rw [Delta.valuesAt_appliedTo, hnone]
      exact hrest y hy

/-! ### The whole shadow -/

/-- A delta leads to what becomes of observed attributes, and then of all else. -/
theorem map_appliedTo_delta (hr : ctx.strategy.retention = .ok retention) :
    (ctx.delta s o known lifecycle).map (Delta.appliedTo · s) =
      match ((ctx.persisted retention o).mapM fun p =>
          ctx.attributeDelta s known p.1 p.2).map fun parts => Delta.appliedTo parts.flatten s with
      | .error e => .error (.schemaViolation e)
      | .ok t =>
        .ok (Delta.appliedTo
          (ctx.staleDelta retention s o ++ ctx.itemsDelta retention s known o lifecycle) t) := by
  rw [delta, hr]
  dsimp only
  unfold attributesDelta
  cases (ctx.persisted retention o).mapM fun p => ctx.attributeDelta s known p.1 p.2 with
  | error e => rfl
  | ok parts =>
    show Except.ok (Delta.appliedTo (parts.flatten ++ ctx.staleDelta retention s o ++
      ctx.itemsDelta retention s known o lifecycle) s) = _
    rw [List.append_assoc, Delta.appliedTo_append]
    rfl

theorem map_appliedTo_delta_byReplacement
    (hnames : ∀ retention, ctx.strategy.retention = .ok retention →
      (ctx.handledNames retention s o).Nodup) :
    (ctx.byReplacement.delta s o known lifecycle).map (Delta.appliedTo · s) =
      (ctx.delta s o known lifecycle).map (Delta.appliedTo · s) := by
  cases hr : ctx.strategy.retention with
  | error e =>
    have hr' : ctx.byReplacement.strategy.retention = .error e := hr
    rw [delta, delta, hr, hr']
  | ok retention =>
    have hr' : ctx.byReplacement.strategy.retention = .ok retention := hr
    rw [map_appliedTo_delta hr, map_appliedTo_delta hr', staleDelta_byReplacement,
      itemsDelta_byReplacement, persisted_byReplacement, List.mapM_map]
    have hparts := map_appliedTo_mapM (s := s)
      (fun p part hpart m hm => ctx.mem_attributeDelta_path s known hpart hm)
      (fun p t ht => map_appliedTo_attributeDelta known ht)
      (hnames retention hr) fun p _ => rfl
    simp only [Function.comp_def]
    rw [hparts]

/-- **The form in which new values are written does not matter.**  Contexts that are alike but for
the form both fail, with the same error, or lead to the same shadow, if attributes that are kept are
stored under different names. -/
theorem map_appliedTo_delta_congr (h : ctx.AlikeButForm other)
    (hnames : ∀ retention, ctx.strategy.retention = .ok retention →
      (ctx.handledNames retention s o).Nodup) (known : Option Delta) (lifecycle : LifecycleState) :
    (ctx.delta s o known lifecycle).map (Delta.appliedTo · s) =
      (other.delta s o known lifecycle).map (Delta.appliedTo · s) := by
  have hnames' : ∀ retention, other.strategy.retention = .ok retention →
      (other.handledNames retention s o).Nodup := by
    intro retention hr
    rw [← handledNames_byReplacement, ← h.byReplacement_eq, handledNames_byReplacement]
    exact hnames retention (h.strategy ▸ hr)
  rw [← map_appliedTo_delta_byReplacement hnames, ← map_appliedTo_delta_byReplacement hnames',
    h.byReplacement_eq]

/-- As in `sampleContext`, with attributes that are kept in the index only. -/
def indexOnlyContext : ReconcileContext :=
  { sampleContext with
    definition :=
      { structural := .ofClass
          { name := .qualified "ri" "account"
            attributes :=
              [{ AttributeDefinition.new (.qualified "ri" "uid") with indexOnly := true },
                { AttributeDefinition.new (.qualified "ri" "groups") with
                  maxOccurs := none, matchingRule := some "trimmed", indexOnly := true }]
            primaryIdentifiers := [.qualified "ri" "uid"] } } }

/-- The text that names the account is added in one form and replaced in the other. -/
theorem map_appliedTo_delta_congr_sample : ∃ d e,
    sampleContext.delta sampleShadow sampleObservation none .live = .ok d ∧
      indexOnlyContext.delta sampleShadow sampleObservation none .live = .ok e ∧ d ≠ e ∧
      d.appliedTo sampleShadow = e.appliedTo sampleShadow := by
  obtain ⟨d, hd⟩ : ∃ d, sampleContext.delta sampleShadow sampleObservation none .live = .ok d :=
    ⟨_, rfl⟩
  obtain ⟨e, he⟩ : ∃ e, indexOnlyContext.delta sampleShadow sampleObservation none .live = .ok e :=
    ⟨_, rfl⟩
  have halike : sampleContext.AlikeButForm indexOnlyContext := ⟨rfl, rfl, rfl, rfl⟩
  have hnames : ∀ retention, sampleContext.strategy.retention = .ok retention →
      (sampleContext.handledNames retention sampleShadow sampleObservation).Nodup := by
    intro retention hr
    obtain rfl : Retention.readable = retention := Except.ok.inj hr
    decide +kernel
  have hsame := map_appliedTo_delta_congr halike hnames none .live
  rw [hd, he] at hsame
  refine ⟨d, e, hd, he, ?_, Except.ok.inj hsame⟩
  cases hd
  cases he
  decide +kernel

end ReconcileContext

end Reconciler
