/-
Refinements merged, against refinements applied one after the other.

A template may refine an attribute that the resource refines as well.  The two refinements are
merged and the result is applied; to apply first the one and then the other would be the other way.

* `AttributeRefinement.Outranks`: a setting of the template's limitation stands in the merged
  refinement where the resource has declared another;
* `AttributeRefinement.outranking`: all of them, as one override.

Main statements:
* `AttributeRefinement.get?_mergeLimitations`, `get?_refineOverrides`: both ways, layer by layer;
* `AttributeRefinement.modelOverride_mergedWith`: where they differ;
* `AttributeRefinement.applyTo_mergedWith`: merged refinements can be applied when the two can be
  applied in turn, with the same result but for what outranks the resource's own settings.

Design notes:
* A limitation of the model layer goes on top of the display settings that are declared with it.
  Merging puts together the limitations of both and the settings of both, so that a limitation of
  the template ends up on top of the settings of the resource.
-/
import Reconciler.Attribute.Refinement

namespace Reconciler

namespace LayerOverride

instance : Std.Associative mergedWith := ⟨mergedWith_assoc⟩

/-- One override, if there is one, on top of another, if there is one. -/
abbrev stacked : Option LayerOverride → Option LayerOverride → Option LayerOverride :=
  Option.merge mergedWith

theorem stacked_assoc (a b c : Option LayerOverride) :
    stacked (stacked a b) c = stacked a (stacked b c) :=
  (Option.associative_merge mergedWith).assoc a b c

end LayerOverride

namespace AttributeRefinement

open LayerOverride (stacked stacked_assoc)

variable {base top : AttributeRefinement} {given refined result : AttributeDefinition}

/-! ### Layer by layer -/

theorem get?_overlayAt (overrides : SortedMap Layer LayerOverride) (layer other : Layer)
    (o : LayerOverride) :
    (overlayAt overrides layer o).get? other =
      if other = layer then stacked (overrides.get? layer) (some o) else overrides.get? other := by
  rw [overlayAt, SortedMap.get?_insert]
  cases overrides.get? layer <;> rfl

/-- Limitations overlaid one after another, as far as they are for different layers. -/
theorem get?_foldl_overlayAt {limitations : List (Layer × LayerOverride)}
    (hascending : Assoc.Ascending limitations) (overrides : SortedMap Layer LayerOverride)
    (layer : Layer) :
    (limitations.foldl (fun acc e => overlayAt acc e.1 e.2) overrides).get? layer =
      stacked (overrides.get? layer) (Assoc.lookup layer limitations) := by
  induction limitations generalizing overrides with
  | nil => simp [stacked]
  | cons e rest ih =>
    obtain ⟨k, o⟩ := e
    rw [List.foldl_cons, ih (List.pairwise_cons.1 hascending).2, get?_overlayAt, Assoc.lookup_cons]
    by_cases h : layer = k
    · subst h
      have hno : Assoc.lookup layer rest = none := Assoc.lookup_tail_of_ascending hascending
      simp [stacked, hno]
    · simp [h]

theorem get?_mergeLimitations (base top : SortedMap Layer LayerOverride) (layer : Layer) :
    (mergeLimitations base top).get? layer = stacked (base.get? layer) (top.get? layer) :=
  get?_foldl_overlayAt top.ascending base layer

/-- A refinement leaves alone the layer of the connector. -/
theorem get?_refineOverrides (r : AttributeRefinement) (overrides : SortedMap Layer LayerOverride) :
    (r.refineOverrides overrides).get? .raw = overrides.get? .raw ∧
      (r.refineOverrides overrides).get? .model =
        stacked (overrides.get? .model) (some r.modelOverride) ∧
      (r.refineOverrides overrides).get? .presentation =
        stacked (overrides.get? .presentation) (r.limitations.get? .presentation) := by
  unfold refineOverrides
  cases r.limitations.get? .presentation <;> simp [get?_overlayAt, stacked]

/-! ### The model layer -/

/-- The limitation of the model layer, the empty one if there is none. -/
def modelLimitation (r : AttributeRefinement) : LayerOverride :=
  (r.limitations.get? .model).getD .empty

/-- The display settings that are declared for the attribute itself. -/
def declared (r : AttributeRefinement) : LayerOverride where
  displayName := r.displayName
  displayOrder := r.displayOrder
  hasOutboundMapping := r.outbound

theorem modelOverride_eq (r : AttributeRefinement) :
    r.modelOverride = r.declared.mergedWith r.modelLimitation := by
  unfold modelOverride modelLimitation
  cases r.limitations.get? .model
  · exact (LayerOverride.mergedWith_empty _).symm
  · rfl

theorem modelLimitation_mergedWith (base top : AttributeRefinement) :
    (base.mergedWith top).modelLimitation =
      base.modelLimitation.mergedWith top.modelLimitation := by
  unfold modelLimitation
  rw [show (base.mergedWith top).limitations = mergeLimitations base.limitations top.limitations
    from rfl, get?_mergeLimitations]
  cases base.limitations.get? .model <;> cases top.limitations.get? .model <;> simp [stacked]

theorem declared_mergedWith (base top : AttributeRefinement) :
    (base.mergedWith top).declared = base.declared.mergedWith top.declared := rfl

section Outranks

variable {α : Type}

/-- What stands in the way of a declared setting: the setting of the template's limitation, where
the resource does not limit the setting. -/
def outrank (limitation own ownLimitation : Option α) : Option α :=
  if own.isSome ∧ ownLimitation = none then limitation else none

/-- A declared setting does not come through: the template's limitation sets another. -/
def Outranks (limitation own ownLimitation : Option α) : Prop :=
  ownLimitation = none ∧ ∃ x y, own = some x ∧ limitation = some y ∧ y ≠ x

/-- The template's limitation above the resource's setting, and below it. -/
theorem or_eq_outrank_or (setting limitation own ownLimitation : Option α) :
    (ownLimitation.or limitation).or (own.or setting) =
      (outrank limitation own ownLimitation).or
        ((ownLimitation.or own).or (limitation.or setting)) := by
  cases own <;> cases ownLimitation <;> simp [outrank]

theorem outrank_or_eq_iff (setting limitation own ownLimitation : Option α) :
    (outrank limitation own ownLimitation).or ((ownLimitation.or own).or setting) =
        (ownLimitation.or own).or setting ↔ ¬ Outranks limitation own ownLimitation := by
  cases own <;> cases ownLimitation <;> cases limitation <;> simp [outrank, Outranks]

end Outranks

/-- What the limitation of `base` sets above the settings that `top` declares. -/
def outranking (base top : AttributeRefinement) : LayerOverride where
  displayName :=
    outrank base.modelLimitation.displayName top.displayName top.modelLimitation.displayName
  displayOrder :=
    outrank base.modelLimitation.displayOrder top.displayOrder top.modelLimitation.displayOrder
  hasOutboundMapping :=
    outrank base.modelLimitation.hasOutboundMapping top.outbound
      top.modelLimitation.hasOutboundMapping

/-- No setting that `top` declares is outranked. -/
structure Undisputed (base top : AttributeRefinement) : Prop where
  displayName :
    ¬ Outranks base.modelLimitation.displayName top.displayName top.modelLimitation.displayName
  displayOrder :
    ¬ Outranks base.modelLimitation.displayOrder top.displayOrder top.modelLimitation.displayOrder
  outbound :
    ¬ Outranks base.modelLimitation.hasOutboundMapping top.outbound
      top.modelLimitation.hasOutboundMapping

/-- Merged, the two refinements say what they say in turn, and above that what outranks the settings
of the second. -/
theorem modelOverride_mergedWith (base top : AttributeRefinement) :
    (base.mergedWith top).modelOverride =
      (base.modelOverride.mergedWith top.modelOverride).mergedWith (base.outranking top) := by
  simp only [modelOverride_eq, modelLimitation_mergedWith, declared_mergedWith]
  simp [LayerOverride.mergedWith, outranking, declared]
  exact ⟨or_eq_outrank_or _ _ _ _, or_eq_outrank_or _ _ _ _, or_eq_outrank_or _ _ _ _⟩

/-- What outranks the settings of the second shows, unless there is nothing of that kind. -/
theorem mergedWith_outranking_eq_iff {o inTurn : LayerOverride} {base top : AttributeRefinement}
    (h : inTurn = (o.mergedWith base.modelOverride).mergedWith top.modelOverride) :
    inTurn.mergedWith (base.outranking top) = inTurn ↔ base.Undisputed top := by
  have hfields : inTurn.mergedWith (base.outranking top) = inTurn ↔
      ¬ Outranks base.modelLimitation.displayName top.displayName
          top.modelLimitation.displayName ∧
        ¬ Outranks base.modelLimitation.displayOrder top.displayOrder
          top.modelLimitation.displayOrder ∧
        ¬ Outranks base.modelLimitation.hasOutboundMapping top.outbound
          top.modelLimitation.hasOutboundMapping := by
    simp [h, modelOverride_eq, LayerOverride.mergedWith, outranking, declared, outrank_or_eq_iff]
  rw [hfields]
  constructor
  · rintro ⟨h₁, h₂, h₃⟩
    exact ⟨h₁, h₂, h₃⟩
  · rintro ⟨h₁, h₂, h₃⟩
    exact ⟨h₁, h₂, h₃⟩

/-! ### Merged and in turn -/

theorem settle_mergedWith (base top : AttributeRefinement) (given : AttributeDefinition) :
    (base.mergedWith top).settle given = top.settle (base.settle given) := by
  have hgetD {α : Type} (x y : Option α) (d : α) : (x <|> y).getD d = x.getD (y.getD d) := by
    cases x <;> rfl
  simp only [settle, mergedWith, hgetD]
  simp [Option.or_assoc]

theorem refineOverrides_mergedWith (base top : AttributeRefinement)
    (overrides : SortedMap Layer LayerOverride) :
    (base.mergedWith top).refineOverrides overrides =
      overlayAt (top.refineOverrides (base.refineOverrides overrides)) .model
        (base.outranking top) := by
  refine SortedMap.ext_get? fun layer => ?_
  obtain ⟨hraw, hmodel, hpresentation⟩ := get?_refineOverrides (base.mergedWith top) overrides
  obtain ⟨hraw₁, hmodel₁, hpresentation₁⟩ := get?_refineOverrides base overrides
  obtain ⟨hraw₂, hmodel₂, hpresentation₂⟩ :=
    get?_refineOverrides top (base.refineOverrides overrides)
  rw [get?_overlayAt]
  cases layer with
  | raw => rw [hraw, if_neg (by decide), hraw₂, hraw₁]
  | model =>
    rw [hmodel, if_pos rfl, hmodel₂, hmodel₁, modelOverride_mergedWith, stacked_assoc,
      stacked_assoc, LayerOverride.mergedWith_assoc]
    rfl
  | presentation =>
    rw [hpresentation, if_neg (by decide), hpresentation₂, hpresentation₁, stacked_assoc]
    exact congrArg _ (get?_mergeLimitations _ _ _)

/-- The overrides of an attribute after both refinements. -/
theorem get?_model_refineOverrides (base top : AttributeRefinement)
    (overrides : SortedMap Layer LayerOverride) :
    ∃ o : LayerOverride, (top.refineOverrides (base.refineOverrides overrides)).get? .model =
      some ((o.mergedWith base.modelOverride).mergedWith top.modelOverride) := by
  refine ⟨(overrides.get? .model).getD .empty, ?_⟩
  rw [(get?_refineOverrides top _).2.1, (get?_refineOverrides base _).2.1]
  cases overrides.get? .model <;> simp [stacked]

theorem overlayAt_outranking_eq_iff (base top : AttributeRefinement)
    (overrides : SortedMap Layer LayerOverride) :
    overlayAt (top.refineOverrides (base.refineOverrides overrides)) .model (base.outranking top) =
        top.refineOverrides (base.refineOverrides overrides) ↔ base.Undisputed top := by
  obtain ⟨o, hmodel⟩ := get?_model_refineOverrides base top overrides
  rw [← mergedWith_outranking_eq_iff (o := o) rfl]
  constructor
  · intro h
    have hget := congrArg (SortedMap.get? · .model) h
    simpa [get?_overlayAt, hmodel, stacked] using hget
  · intro h
    refine SortedMap.ext_get? fun layer => ?_
    rw [get?_overlayAt]
    by_cases hlayer : layer = .model
    · rw [if_pos hlayer, hlayer, hmodel]
      exact congrArg some h
    · rw [if_neg hlayer]

/-- **Two refinements that can be applied in turn can be applied merged**, with the same result but
for the model layer: what the template's limitation sets there stands above what the resource has
declared for the attribute without limiting it.  The results are the same exactly when no declared
setting is outranked by another value. -/
theorem applyTo_mergedWith (hbase : base.applyTo given = .ok refined)
    (htop : top.applyTo refined = .ok result) :
    (base.mergedWith top).applyTo given =
        .ok { result with
          overrides := overlayAt result.overrides .model (base.outranking top) } ∧
      ((base.mergedWith top).applyTo given = .ok result ↔ base.Undisputed top) := by
  obtain ⟨hraw₁, -, rfl⟩ := applyTo_eq_ok_iff.1 hbase
  obtain ⟨hraw₂, hexcess, rfl⟩ := applyTo_eq_ok_iff.1 htop
  have hsettle : (base.mergedWith top).settle given = top.settle (base.settle given) :=
    settle_mergedWith base top given
  have hmerged : (base.mergedWith top).applyTo given =
      .ok { top.settle (base.settle given) with
        overrides := overlayAt (top.refineOverrides (base.refineOverrides given.overrides)) .model
          (base.outranking top) } := by
    refine applyTo_eq_ok_iff.2 ⟨?_, ?_, ?_⟩
    · simp only [SortedMap.contains, Option.isSome_eq_false_iff, Option.isNone_iff_eq_none]
        at hraw₁ hraw₂ ⊢
      exact (get?_mergeLimitations _ _ _).trans (by simp [hraw₁, hraw₂, stacked])
    · rw [hsettle]
      exact hexcess
    · rw [hsettle, refineOverrides_mergedWith]
  refine ⟨hmerged, ?_⟩
  rw [hmerged, ← overlayAt_outranking_eq_iff base top given.overrides]
  simp [Except.ok.injEq, settle]

/-! ### A template that limits the display name -/

/-- A mail address. -/
def sampleMail : AttributeDefinition := .new (.qualified ItemName.resourceScope "mail")

/-- The template limits the display name at the model layer. -/
def sampleBase : AttributeRefinement where
  name := some sampleMail.name
  limitations := SortedMap.empty.insert .model { displayName := some "Mail of the template" }

/-- The resource declares a display name for the attribute. -/
def sampleTop : AttributeRefinement where
  name := some sampleMail.name
  displayName := some "Mail of the resource"

theorem applyTo_mergedWith_sample : ∃ refined result,
    sampleBase.applyTo sampleMail = .ok refined ∧ sampleTop.applyTo refined = .ok result ∧
      ((sampleBase.mergedWith sampleTop).applyTo sampleMail = .ok result ↔
        sampleBase.Undisputed sampleTop) := by
  refine ⟨_, _, rfl, rfl, ?_⟩
  exact (@applyTo_mergedWith sampleBase sampleTop sampleMail _ _ rfl rfl).2

/-- Merged, the display name is that of the template; in turn, it is that of the resource. -/
theorem template_outranks : ∃ refined inTurn merged,
    sampleBase.applyTo sampleMail = .ok refined ∧ sampleTop.applyTo refined = .ok inTurn ∧
      (sampleBase.mergedWith sampleTop).applyTo sampleMail = .ok merged ∧
      (inTurn.propertiesAt .model).displayName = some "Mail of the resource" ∧
      (merged.propertiesAt .model).displayName = some "Mail of the template" :=
  ⟨_, _, _, rfl, rfl, rfl, rfl, rfl⟩

end AttributeRefinement

end Reconciler
