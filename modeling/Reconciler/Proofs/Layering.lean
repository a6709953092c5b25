/-
What shows of an attribute at each layer, after refinements one after another.

* `LayerProperty`: the properties of an attribute at a layer, one by one, with `setBy` for what an
  override sets one to and `shownIn` for what shows of it;
* `LayerProperty.setAtModel`, `setAtPresentation`: what a refinement sets a property to, at these
  layers.

Main statements:
* `LayerProperty.shownIn_apply`, `setBy_mergedWith`: overrides applied and merged, one property at a
  time;
* `AttributeRefinement.shownIn_model_of_applyTo`, `setBy_presentation_of_applyTo`: what one
  refinement does at a layer;
* `AttributeRefinement.layers_of_inTurn`: what shows after any number of them.

Design notes:
* Flags always show something, but an attribute may have no display name and no display order; what
  shows is therefore optional for all properties.
* At the presentation layer any override counts more than the model layer, however early it was
  declared.
-/
import Reconciler.Proofs.Results
import Reconciler.Proofs.Schema.Refining

namespace Reconciler

/-- A property of an attribute at a layer. -/
inductive LayerProperty where
  | ignored
  | canCreate
  | canRead
  | canUpdate
  | displayName
  | displayOrder
  | hasOutboundMapping
deriving DecidableEq, Repr

namespace LayerProperty

/-- The values that a property takes. -/
abbrev Value : LayerProperty → Type
  | .displayName => String
  | .displayOrder => Int32
  | .ignored | .canCreate | .canRead | .canUpdate | .hasOutboundMapping => Bool

/-- What an override sets a property to, if it does. -/
def setBy : (p : LayerProperty) → LayerOverride → Option p.Value
  | .ignored, o => o.ignored
  | .canCreate, o => o.canCreate
  | .canRead, o => o.canRead
  | .canUpdate, o => o.canUpdate
  | .displayName, o => o.displayName
  | .displayOrder, o => o.displayOrder
  | .hasOutboundMapping, o => o.hasOutboundMapping

/-- What shows of a property. -/
def shownIn : (p : LayerProperty) → LayerProperties → Option p.Value
  | .ignored, shown => some shown.ignored
  | .canCreate, shown => some shown.canCreate
  | .canRead, shown => some shown.canRead
  | .canUpdate, shown => some shown.canUpdate
  | .displayName, shown => shown.displayName
  | .displayOrder, shown => shown.displayOrder
  | .hasOutboundMapping, shown => some shown.hasOutboundMapping

/-- Where all properties show alike, nothing else is different. -/
theorem ext_shownIn {a b : LayerProperties} (h : ∀ p : LayerProperty, p.shownIn a = p.shownIn b) :
    a = b := by
  obtain ⟨a₁, a₂, a₃, a₄, a₅, a₆, a₇⟩ := a
  obtain ⟨b₁, b₂, b₃, b₄, b₅, b₆, b₇⟩ := b
  cases Option.some.inj (h .ignored)
  cases Option.some.inj (h .canCreate)
  cases Option.some.inj (h .canRead)
  cases Option.some.inj (h .canUpdate)
  cases h .displayName
  cases h .displayOrder
  cases Option.some.inj (h .hasOutboundMapping)
  rfl

variable (p : LayerProperty)

@[simp] theorem setBy_empty : p.setBy .empty = none := by cases p <;> rfl

theorem setBy_mergedWith (base top : LayerOverride) :
    p.setBy (base.mergedWith top) = (p.setBy top).or (p.setBy base) := by
  cases p <;> exact Option.orElse_eq_or

theorem shownIn_apply (shown : LayerProperties) (o : LayerOverride) :
    p.shownIn (shown.apply o) = (p.setBy o).or (p.shownIn shown) := by
  have hflag (x : Option Bool) (b : Bool) : some (x.getD b) = x.or (some b) := by
    cases x <;> rfl
  cases p with
  | displayName | displayOrder => exact Option.orElse_eq_or
  | _ => exact hflag _ _

/-- What a refinement sets a property to at the model layer: by its limitation, or else by what it
declares for the attribute itself. -/
def setAtModel (r : AttributeRefinement) : Option p.Value :=
  (p.setBy r.modelLimitation).or (p.setBy r.declared)

/-- What a refinement sets a property to at the presentation layer: by its limitation. -/
def setAtPresentation (r : AttributeRefinement) : Option p.Value :=
  (r.limitations.get? .presentation).bind p.setBy

theorem setBy_modelOverride (r : AttributeRefinement) :
    p.setBy r.modelOverride = p.setAtModel r := by
  rw [AttributeRefinement.modelOverride_eq, setBy_mergedWith]
  rfl

/-- Of stacked overrides the upper one counts first. -/
theorem bind_setBy_stacked (lower upper : Option LayerOverride) :
    (LayerOverride.stacked lower upper).bind p.setBy =
      (upper.bind p.setBy).or (lower.bind p.setBy) := by
  cases lower with
  | none => cases upper <;> simp
  | some a =>
    cases upper with
    | none => rfl
    | some b => exact p.setBy_mergedWith a b

end LayerProperty

namespace AttributeDefinition

variable (a : AttributeDefinition) (p : LayerProperty)

theorem setBy_overrideAt (layer : Layer) :
    p.setBy (a.overrideAt layer) = (a.overrides.get? layer).bind p.setBy := by
  unfold overrideAt
  cases a.overrides.get? layer with
  | none => exact p.setBy_empty
  | some o => rfl

theorem shownIn_model :
    p.shownIn (a.propertiesAt .model) =
      (p.setBy (a.overrideAt .model)).or (p.shownIn (a.propertiesAt .raw)) :=
  p.shownIn_apply _ _

theorem shownIn_presentation :
    p.shownIn (a.propertiesAt .presentation) =
      (p.setBy (a.overrideAt .presentation)).or (p.shownIn (a.propertiesAt .model)) :=
  p.shownIn_apply _ _

end AttributeDefinition

namespace AttributeRefinement

variable {r : AttributeRefinement} {rs : List AttributeRefinement}
variable {base given refined : AttributeDefinition}

/-! ### One refinement -/

/-- A refinement fails where it limits the raw layer or leaves fewer values allowed than needed. -/
theorem applyTo_isError_iff :
    (∃ problem, r.applyTo base = .error problem) ↔
      r.limitations.contains .raw = true ∨
        ∃ greatest, r.maxOccurs.getD base.maxOccurs = some greatest ∧
          greatest < r.minOccurs.getD base.minOccurs := by
  rw [Except.exists_eq_error_iff, applyTo_isOk_iff]
  simp only [not_and_or, Bool.not_eq_false, not_forall, UInt32.not_le, exists_prop]

/-- At the model layer, what a refinement sets comes before what showed there. -/
theorem shownIn_model_of_applyTo (h : r.applyTo base = .ok refined) (p : LayerProperty) :
    p.shownIn (refined.propertiesAt .model) =
      (p.setAtModel r).or (p.shownIn (base.propertiesAt .model)) := by
  obtain ⟨-, -, rfl⟩ := applyTo_eq_ok_iff.1 h
  have hmodel := (get?_refineOverrides r base.overrides).2.1
  rw [AttributeDefinition.shownIn_model, AttributeDefinition.shownIn_model,
    AttributeDefinition.setBy_overrideAt, AttributeDefinition.setBy_overrideAt, hmodel,
    p.bind_setBy_stacked, Option.bind_some, p.setBy_modelOverride]
  exact Option.or_assoc

/-- What a refinement sets at the presentation layer comes before what was set there. -/
theorem setBy_presentation_of_applyTo (h : r.applyTo base = .ok refined) (p : LayerProperty) :
    p.setBy (refined.overrideAt .presentation) =
      (p.setAtPresentation r).or (p.setBy (base.overrideAt .presentation)) := by
  obtain ⟨-, -, rfl⟩ := applyTo_eq_ok_iff.1 h
  have hpresentation := (get?_refineOverrides r base.overrides).2.2
  rw [AttributeDefinition.setBy_overrideAt, AttributeDefinition.setBy_overrideAt, hpresentation]
  exact p.bind_setBy_stacked _ _

/-- What was refined allows as many values as it needs. -/
theorem minOccurs_le_of_applyTo (h : r.applyTo base = .ok refined) {greatest : UInt32}
    (hbound : refined.maxOccurs = some greatest) : refined.minOccurs ≤ greatest := by
  have hfits := (applyTo_isOk_iff.1 ⟨refined, h⟩).2
  obtain ⟨-, -, rfl⟩ := applyTo_eq_ok_iff.1 h
  exact hfits greatest hbound

/-! ### Refinements in turn -/

/-- What the last refinement sets that sets anything comes before what showed at first. -/
theorem shownIn_model_of_inTurn (h : inTurn rs given = .ok refined) (p : LayerProperty) :
    p.shownIn (refined.propertiesAt .model) =
      (rs.reverse.findSome? p.setAtModel).or (p.shownIn (given.propertiesAt .model)) := by
  induction rs using List.reverseRecOn generalizing refined with
  | nil =>
    cases h
    rfl
  | append_singleton rs r ih =>
    obtain ⟨before, hbefore, hlast⟩ := inTurn_concat_eq_ok_iff.1 h
    rw [shownIn_model_of_applyTo hlast, ih hbefore, List.reverse_concat, List.findSome?_cons]
    cases p.setAtModel r <;> rfl

theorem setBy_presentation_of_inTurn (h : inTurn rs given = .ok refined) (p : LayerProperty) :
    p.setBy (refined.overrideAt .presentation) =
      (rs.reverse.findSome? p.setAtPresentation).or (p.setBy (given.overrideAt .presentation)) := by
  induction rs using List.reverseRecOn generalizing refined with
  | nil =>
    cases h
    rfl
  | append_singleton rs r ih =>
    obtain ⟨before, hbefore, hlast⟩ := inTurn_concat_eq_ok_iff.1 h
    rw [setBy_presentation_of_applyTo hlast, ih hbefore, List.reverse_concat, List.findSome?_cons]
    cases p.setAtPresentation r <;> rfl

/-- **What refinements do at each layer.**  A refinement fails just where it limits the raw layer or
leaves fewer values allowed than needed.  After some that succeed in turn, the attribute is still
the same and shows the same at the raw layer, and it allows as many values as it needs.  At the
model layer, a property is what the last refinement sets that sets it, with the limitation of a
refinement before its own settings.  At the presentation layer, the last limitation that sets it
comes first, then what was set there before all refinements, and only then the model layer. -/
theorem layers_of_inTurn :
    (∀ (r : AttributeRefinement) (base : AttributeDefinition),
      (∃ problem, r.applyTo base = .error problem) ↔
        r.limitations.contains .raw = true ∨
          ∃ greatest, r.maxOccurs.getD base.maxOccurs = some greatest ∧
            greatest < r.minOccurs.getD base.minOccurs) ∧
    ∀ (rs : List AttributeRefinement) (given refined : AttributeDefinition),
      rs ≠ [] → inTurn rs given = .ok refined →
        refined.name = given.name ∧ refined.valueType = given.valueType ∧
        refined.propertiesAt .raw = given.propertiesAt .raw ∧
        (∀ greatest, refined.maxOccurs = some greatest → refined.minOccurs ≤ greatest) ∧
        ∀ p : LayerProperty,
          p.shownIn (refined.propertiesAt .model) =
            (rs.reverse.findSome? p.setAtModel).or (p.shownIn (given.propertiesAt .model)) ∧
          p.shownIn (refined.propertiesAt .presentation) =
            (rs.reverse.findSome? p.setAtPresentation).or
              ((p.setBy (given.overrideAt .presentation)).or
                (p.shownIn (refined.propertiesAt .model))) := by
  refine ⟨fun r base => applyTo_isError_iff, fun rs given refined hne h => ?_⟩
  obtain ⟨hname, htype, hnative, -⟩ := inTurn_keeps h
  refine ⟨hname, htype, hnative, fun greatest hbound => ?_, fun p => ⟨?_, ?_⟩⟩
  · -- The last refinement has seen to it.
    obtain ⟨earlier, r, rfl⟩ := List.eq_nil_or_concat rs |>.resolve_left hne
    rw [List.concat_eq_append] at h
    obtain ⟨before, -, hlast⟩ := inTurn_concat_eq_ok_iff.1 h
    exact minOccurs_le_of_applyTo hlast hbound
  · exact shownIn_model_of_inTurn h p
  · rw [AttributeDefinition.shownIn_presentation, setBy_presentation_of_inTurn h p]
    exact Option.or_assoc

/-- A limitation of the presentation layer, from before the others. -/
def samplePresented : AttributeRefinement where
  name := some sampleMail.name
  limitations := SortedMap.empty.insert .presentation
    { displayName := some "Shown mail", canUpdate := some false }

/-- At the model layer the last display name shows, at the presentation layer the first one. -/
theorem layers_of_inTurn_sample : ∃ refined,
    inTurn [samplePresented, sampleBase, sampleTop] sampleMail = .ok refined ∧
      LayerProperty.displayName.shownIn (refined.propertiesAt .model) =
        some "Mail of the resource" ∧
      LayerProperty.displayName.shownIn (refined.propertiesAt .presentation) =
        some "Shown mail" ∧
      LayerProperty.canUpdate.shownIn (refined.propertiesAt .presentation) = some false := by
  refine ⟨_, rfl, ?_⟩
  obtain ⟨-, -, -, -, hlayers⟩ := layers_of_inTurn.2
    [samplePresented, sampleBase, sampleTop] sampleMail _ (List.cons_ne_nil _ _) rfl
  exact ⟨(hlayers .displayName).1, (hlayers .displayName).2, (hlayers .canUpdate).2⟩

end AttributeRefinement

end Reconciler
