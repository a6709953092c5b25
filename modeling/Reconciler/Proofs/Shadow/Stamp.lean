/-
Only full copies are stamped with their time.

* `ReconcileContext.stamp`: the modification that stamps a copy.

Main statements:
* `ReconcileContext.isLacking_eq_false_iff`: when a copy counts as full;
* `ReconcileContext.stamped_iff`: a passive copy is stamped, with nothing but the present time, just
  when it is full;
* `ReconcileContext.stamped_iff_of_unreported`: what was observed in part, with nothing known of the
  rest, is left alone, its copy is not stamped, and copies of identifiers have no time.

Design notes:
* What is lacking is found among the attributes that are kept; an attribute that is not kept may
  have been observed in part.
-/
import Reconciler.Proofs.Shadow.Convergence

namespace Reconciler.ReconcileContext

variable {ctx : ReconcileContext} {retention : Retention} {s : Shadow} {known : Option Delta}
variable {o : Observation} {lifecycle : LifecycleState} {d : Delta} {m : ItemDelta}

/-- The modification that stamps a copy with the present time. -/
def stamp (ctx : ReconcileContext) : ItemDelta :=
  let metadata : CachingMetadata := { retrievedAt := ctx.now }
  { path := .cachingMetadata, replace := some [encode metadata] }

/-- A copy is full if it is known what changed, or if all values of all attributes that are kept
were observed. -/
theorem isLacking_eq_false_iff :
    ctx.isLacking retention known o = false ↔
      known.isSome = true ∨ ∀ p ∈ ctx.persisted retention o, p.2.incomplete = false := by
  rw [isLacking, Bool.and_eq_false_iff, Option.isNone_eq_false_iff, List.any_eq_false]
  simp only [Bool.not_eq_true]

theorem mem_stampDelta_iff :
    m ∈ ctx.stampDelta retention known o ↔
      m = ctx.stamp ∧ ctx.isLacking retention known o = false := by
  unfold stampDelta
  cases ctx.isLacking retention known o with
  | true => simp
  | false => simp [stamp]

/-- A copy that is kept takes its time from the stamp only. -/
theorem ofItem_cachingMetadata_cacheDelta :
    (ctx.cacheDelta .readable s known o).ofItem .cachingMetadata =
      ctx.stampDelta .readable known o := by
  have hactivation : (activationDelta s o).ofItem .cachingMetadata = [] := by
    refine Delta.ofItem_eq_nil fun m hm e => ?_
    obtain ⟨p, -, rfl⟩ := mem_activationDelta_iff.1 hm
    cases e
  rw [cacheDelta, Delta.ofItem_append, hactivation, List.nil_append]
  exact Delta.ofItem_eq_self fun m hm => path_of_mem_stampDelta hm

/-- The time of a copy is modified as for any other item. -/
theorem ofItem_cachingMetadata_delta (hr : ctx.strategy.retention = .ok retention)
    (hd : ctx.delta s o known lifecycle = .ok d) :
    d.ofItem .cachingMetadata =
      (ctx.cacheDelta retention s known o).ofItem .cachingMetadata := by
  rw [ofItem_delta_of_ne hr hd (fun name => by simp), ofItem_itemsDelta]

/-- A passive copy is stamped, with nothing but the present time, just when it is full. -/
theorem stamped_iff (hs : ctx.strategy = .passive) (hd : ctx.delta s o known lifecycle = .ok d) :
    m ∈ d ∧ m.path = .cachingMetadata ↔
      m = ctx.stamp ∧
        (known.isSome = true ∨ ∀ p ∈ ctx.persisted .readable o, p.2.incomplete = false) := by
  have hr : ctx.strategy.retention = .ok .readable := by
    rw [hs]
    rfl
  rw [← isLacking_eq_false_iff, ← mem_stampDelta_iff,
    ← ofItem_cachingMetadata_cacheDelta (s := s), ← ofItem_cachingMetadata_delta hr hd,
    Delta.mem_ofItem_iff]

/-- **What was observed in part keeps its values, and its copy is not stamped.**  With nothing known
of the rest, no modification names an attribute that was observed in part; a passive copy has its
time, which is the present one, just when something is known or all values were observed; and no
time is left on copies of identifiers. -/
theorem stamped_iff_of_unreported (h : Unambiguous ctx.definition s o)
    (hr : ctx.strategy.retention = .ok retention) (hd : ctx.delta s o known lifecycle = .ok d) :
    (known = none → ∀ p ∈ ctx.persisted retention o, p.2.incomplete = true →
        ∀ m ∈ d, m.path ≠ .attributeValues (s.storedName p.1.name)) ∧
      (ctx.strategy = .passive →
        ((∃ m ∈ d, m.path = .cachingMetadata) ↔
          known.isSome = true ∨ ∀ p ∈ ctx.persisted retention o, p.2.incomplete = false) ∧
        ∀ m ∈ d, m.path = .cachingMetadata →
          m.replace = some [encode ({ retrievedAt := ctx.now } : CachingMetadata)]) ∧
      (ctx.strategy = .none → (d.appliedTo s).cachingMetadata = none) := by
  refine ⟨fun hknown p hp hincomplete m hm hpath => ?_, fun hs => ?_, fun hs => ?_⟩
  · have hnone : d.ofItem (.attributeValues (s.storedName p.1.name)) = [] :=
      ofItem_of_unreported h hr hd hp hincomplete (by simp [hknown])
    exact List.not_mem_nil (hnone ▸ Delta.mem_ofItem_iff.2 ⟨hm, hpath⟩)
  · obtain rfl : Retention.readable = retention := by
      rw [hs] at hr
      exact Except.ok.inj hr
    constructor
    · constructor
      · rintro ⟨m, hm, hpath⟩
        exact ((stamped_iff hs hd).1 ⟨hm, hpath⟩).2
      · intro hfull
        exact ⟨ctx.stamp, (stamped_iff hs hd).2 ⟨rfl, hfull⟩⟩
    · intro m hm hpath
      rw [((stamped_iff hs hd).1 ⟨hm, hpath⟩).1]
      rfl
  · obtain rfl : Retention.identifiersOnly = retention := by
      rw [hs] at hr
      exact Except.ok.inj hr
    exact cachingMetadata_appliedTo (ofItem_cachingMetadata_delta hr hd)

/-- Only some of the groups were observed. -/
def partialObservation : Observation :=
  { sampleObservation with
    attributes := .ofList [(.qualified "ri" "uid", { values := [.str "u"] }),
      (.qualified "ri" "groups", { values := [.str "c"], incomplete := true })] }

/-- The copy was kept in full so far. -/
def stampedShadow : Shadow :=
  { sampleShadow with cachingMetadata := some { retrievedAt := .epoch } }

theorem partial_unambiguous :
    Unambiguous sampleContext.definition stampedShadow partialObservation where
  defined := by decide +kernel
  stored := by decide +kernel
  observed := by decide +kernel

/-- With nothing known the groups stay and the copy is not stamped; it is once nothing is known to
have changed; and a copy of identifiers loses its time. -/
theorem stamped_iff_of_unreported_sample :
    (∃ d, sampleContext.delta stampedShadow partialObservation none .live = .ok d ∧
      (∀ m ∈ d, m.path ≠ .attributeValues (.unqualified "groups")) ∧
      ¬∃ m ∈ d, m.path = .cachingMetadata) ∧
    (∃ d, sampleContext.delta stampedShadow partialObservation (some []) .live = .ok d ∧
      ∃ m ∈ d, m.path = .cachingMetadata) ∧
    ∃ d, ({ sampleContext with strategy := .none } : ReconcileContext).delta stampedShadow
        partialObservation none .live = .ok d ∧
      (d.appliedTo stampedShadow).cachingMetadata = none := by
  refine ⟨?_, ?_, ?_⟩
  · obtain ⟨d, hd⟩ : ∃ d,
        sampleContext.delta stampedShadow partialObservation none .live = .ok d := ⟨_, rfl⟩
    have hgroups : ∃ p ∈ sampleContext.persisted .readable partialObservation,
        p.2.incomplete = true ∧ stampedShadow.storedName p.1.name = .unqualified "groups" := by
      decide +kernel
    obtain ⟨p, hp, hincomplete, hname⟩ := hgroups
    obtain ⟨hkept, hstamp, -⟩ := stamped_iff_of_unreported partial_unambiguous rfl hd
    refine ⟨d, hd, hname ▸ hkept rfl p hp hincomplete, fun hstamped => ?_⟩
    rcases (hstamp rfl).1.1 hstamped with hknown | hfull
    · cases hknown
    · exact absurd ((hfull p hp).symm.trans hincomplete) Bool.false_ne_true
  · obtain ⟨d, hd⟩ : ∃ d,
        sampleContext.delta stampedShadow partialObservation (some []) .live = .ok d := ⟨_, rfl⟩
    exact ⟨d, hd, ((stamped_iff_of_unreported partial_unambiguous rfl hd).2.1 rfl).1.2 (.inl rfl)⟩
  · let ctx : ReconcileContext := { sampleContext with strategy := .none }
    have h : Unambiguous ctx.definition stampedShadow partialObservation := partial_unambiguous
    obtain ⟨d, hd⟩ : ∃ d, ctx.delta stampedShadow partialObservation none .live = .ok d :=
      ⟨_, rfl⟩
    exact ⟨d, hd, (stamped_iff_of_unreported h rfl hd).2.2 rfl⟩

end Reconciler.ReconcileContext
