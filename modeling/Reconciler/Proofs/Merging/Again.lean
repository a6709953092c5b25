/-
What was merged over a configuration, merged over it a second time.

Every part of a configuration is merged by a law of its own: single settings win or are taken over,
settings go name by name or leaf by leaf, declarations are paired by kind and intent, and
refinements by name.  By each of these laws merging a second time changes nothing.

* `Configuration.Orderly`: settings are in order, and nothing is declared twice.

Main statements:
* `SortedMap.overlay_again`, `Settings.deepMerge_again`: maps of settings;
* `KeyedMerge.merge_again`: lists of entries, if it holds of the entries;
* `AttributeRefinement.mergedWith_again`, `TypeDeclaration.mergedWith_again`: what is paired;
* `Configuration.Orderly.mergedOver`: merging keeps configurations orderly;
* `Configuration.mergedOver_again`: whole configurations.

Design notes:
* An entry that only the list underneath has is merged with itself the second time, so that laws of
  entries come in pairs.
-/
import Reconciler.Proofs.Completion.Refinements
import Reconciler.Proofs.Merging.Entries
import Reconciler.Proofs.Merging.Settings

namespace Reconciler

/-! ### Settings -/

section Maps

variable {κ ν : Type} [Ord κ] [Std.TransOrd κ] [Std.LawfulEqOrd κ]

theorem SortedMap.overlay_again (base top : SortedMap κ ν) :
    base.overlay (base.overlay top) = base.overlay top := by
  classical
  refine SortedMap.ext_get? fun key => ?_
  simp [SortedMap.get?_overlay, Option.or_assoc]

theorem SortedMap.overlay_self (base : SortedMap κ ν) : base.overlay base = base := by
  classical
  refine SortedMap.ext_get? fun key => ?_
  simp [SortedMap.get?_overlay]

end Maps

theorem Settings.deepMerge_again {base top : Settings} (hbase : base.Tidy) (htop : top.Tidy) :
    deepMerge base (deepMerge base top) = deepMerge base top := by
  refine SortedMap.ext (Json.obj.inj ?_)
  rw [obj_deepMerge, obj_deepMerge]
  refine htop.object.mergeOver_again fun w hw => ?_
  cases hw
  exact hbase.object

/-! ### Lists of entries -/

namespace KeyedMerge

variable {α κ : Type} [DecidableEq κ] {key : α → κ} {belongs : α → α → Bool} {combine : α → α → α}
variable {base top : List α}

/-- Entries that are combined a second time stay as they are, and so does a merged list. -/
theorem merge_again (hbase : (base.map key).Nodup) (htop : (top.map key).Nodup)
    (hpairs : ∀ x, key x ∈ base.map key ∨ key x ∈ top.map key → PairsBy key belongs combine x)
    (hself : ∀ y ∈ base, combine y y = y)
    (hagain : ∀ y ∈ base, ∀ x ∈ top, key y = key x → combine y (combine y x) = combine y x) :
    merge belongs combine base (merge belongs combine base top) =
      merge belongs combine base top := by
  have honce : Unites key combine base top (merge belongs combine base top) :=
    unites_merge (fun x hx => hpairs x (.inr (List.mem_map_of_mem hx))) hbase htop
  have hmem : ∀ x ∈ merge belongs combine base top,
      key x ∈ base.map key ∨ key x ∈ top.map key := by
    intro x hx
    have hkey : key x ∈ (merge belongs combine base top).map key := List.mem_map_of_mem hx
    rw [honce.keys, List.mem_append] at hkey
    exact hkey.imp_right fun h => (List.mem_filter.1 h).1
  have htwice : Unites key combine base (merge belongs combine base top)
      (merge belongs combine base (merge belongs combine base top)) :=
    unites_merge (fun x hx => hpairs x (hmem x hx)) hbase honce.distinct
  refine eq_of_get?_eq htwice.distinct ?_ fun k => ?_
  · have hnone : (base.map key).filter (fun k => k ∉ base.map key) = [] :=
      List.filter_eq_nil_iff.2 fun k hk => by simpa using hk
    rw [htwice.keys, honce.keys, List.filter_append, hnone, List.nil_append, List.filter_filter]
    simp
  · rw [htwice.entry_eq, honce.entry_eq]
    cases hy : get? key k base with
    | none => cases get? key k top <;> rfl
    | some y =>
      obtain ⟨hy, hk⟩ := mem_of_get? hy
      cases hx : get? key k top with
      | none => exact congrArg some (hself y hy)
      | some x =>
        obtain ⟨hx, hk'⟩ := mem_of_get? hx
        exact congrArg some (hagain y hy x hx (hk.trans hk'.symm))

theorem merge_self (hbase : (base.map key).Nodup)
    (hpairs : ∀ x, key x ∈ base.map key → PairsBy key belongs combine x)
    (hself : ∀ y ∈ base, combine y y = y) : merge belongs combine base base = base := by
  -- The list itself is what comes of merging nothing over it.
  have hnone : (([] : List α).map key).Nodup := List.nodup_nil
  exact merge_again hbase hnone (fun x hx => hpairs x (hx.resolve_right List.not_mem_nil)) hself
    fun _ _ _ hx => absurd hx List.not_mem_nil

end KeyedMerge

/-! ### Refinements -/

namespace AttributeRefinement

variable {rs ss : List AttributeRefinement}

theorem mergeLimitations_again (base top : SortedMap Layer LayerOverride) :
    mergeLimitations base (mergeLimitations base top) = mergeLimitations base top := by
  refine SortedMap.ext_get? fun layer => ?_
  simp only [get?_mergeLimitations]
  cases base.get? layer <;> cases top.get? layer <;>
    simp [LayerOverride.stacked, ← LayerOverride.mergedWith_assoc]

theorem mergeLimitations_self (base : SortedMap Layer LayerOverride) :
    mergeLimitations base base = base :=
  mergeLimitations_again base .empty

theorem mergedWith_again (base top : AttributeRefinement) :
    base.mergedWith (base.mergedWith top) = base.mergedWith top := by
  simp [mergedWith, mergeLimitations_again, Option.or_assoc]

theorem mergedWith_self (base : AttributeRefinement) : base.mergedWith base = base := by
  simp [mergedWith, mergeLimitations_self]

end AttributeRefinement

/-! ### Declarations -/

namespace TypeDeclaration

variable {base top : List TypeDeclaration} {d e : TypeDeclaration}

theorem orElse_again {α : Type} (base top : List α) :
    orElse base (orElse base top) = orElse base top := by
  cases top <;> cases base <;> rfl

theorem orElse_self {α : Type} (base : List α) : orElse base base = base := by
  cases base <;> rfl

theorem Orderly.pairsBy_name (hd : d.Orderly) {r : AttributeRefinement}
    (hr : r.name ∈ d.attributes.map AttributeRefinement.name) :
    KeyedMerge.PairsBy AttributeRefinement.name refinesSame AttributeRefinement.mergedWith r := by
  obtain ⟨s, hs, hname⟩ := List.mem_map.1 hr
  exact AttributeRefinement.pairsBy_name (hname ▸ hd.named s hs)

theorem mergedWith_again (hd : d.Orderly) (he : e.Orderly) :
    d.mergedWith (d.mergedWith e) = d.mergedWith e := by
  have hattributes : KeyedMerge.merge refinesSame AttributeRefinement.mergedWith d.attributes
      (d.mergedWith e).attributes = (d.mergedWith e).attributes :=
    KeyedMerge.merge_again hd.distinct he.distinct
      (fun _ hr => hr.elim hd.pairsBy_name he.pairsBy_name)
      (fun r _ => r.mergedWith_self) fun r _ s _ _ => r.mergedWith_again s
  rw [mergedWith, hattributes]
  simp [mergedWith, orElse_again, SortedMap.overlay_again, Option.or_assoc]

theorem mergedWith_self (hd : d.Orderly) : d.mergedWith d = d := by
  have hattributes : KeyedMerge.merge refinesSame AttributeRefinement.mergedWith d.attributes
      d.attributes = d.attributes :=
    KeyedMerge.merge_self hd.distinct (fun _ => hd.pairsBy_name) fun r _ => r.mergedWith_self
  rw [mergedWith, hattributes]
  simp [orElse_self, SortedMap.overlay_self]

theorem merge_again (hbase : (base.map id).Nodup) (htop : (top.map id).Nodup)
    (hbase' : ∀ d ∈ base, d.Orderly) (htop' : ∀ e ∈ top, e.Orderly) :
    merge base (merge base top) = merge base top :=
  KeyedMerge.merge_again hbase htop (fun d _ => pairsBy_id d)
    (fun d hd => mergedWith_self (hbase' d hd))
    fun d hd e he _ => mergedWith_again (hbase' d hd) (htop' e he)

end TypeDeclaration

/-! ### Configurations -/

namespace Configuration

variable {child parent : Configuration}

/-- Members of connector settings are in order, as they are when they are read, no kind and intent
is declared twice, and declarations refine attributes by name, none of them twice. -/
structure Orderly (c : Configuration) : Prop where
  settings : c.connectorSettings.Tidy
  distinct : (c.declarations.map TypeDeclaration.id).Nodup
  refinements : ∀ d ∈ c.declarations, d.Orderly

theorem Orderly.mergedOver (hchild : child.Orderly) (hparent : parent.Orderly) :
    (child.mergedOver parent).Orderly where
  settings := Settings.Tidy.deepMerge hparent.settings hchild.settings
  distinct := (TypeDeclaration.nodup_merge_iff _ _).2 hparent.distinct
  refinements d hd := by
    have hunites := TypeDeclaration.unites_declarations hparent.distinct hchild.distinct
    rcases hunites.mem_cases hd with hbelow | hown | ⟨d', hd', e, he, rfl⟩
    · exact hparent.refinements d hbelow
    · exact hchild.refinements d hown
    · exact (hparent.refinements d' hd').mergedWith (hchild.refinements e he)

/-- What was merged over a configuration is not changed by merging it over that a second time. -/
theorem mergedOver_again (hchild : child.Orderly) (hparent : parent.Orderly) :
    (child.mergedOver parent).mergedOver parent = child.mergedOver parent := by
  have hsettings : Settings.deepMerge parent.connectorSettings
      (child.mergedOver parent).connectorSettings = (child.mergedOver parent).connectorSettings :=
    Settings.deepMerge_again hparent.settings hchild.settings
  have hdeclarations : TypeDeclaration.merge parent.declarations
      (child.mergedOver parent).declarations = (child.mergedOver parent).declarations :=
    TypeDeclaration.merge_again hparent.distinct hchild.distinct hparent.refinements
      hchild.refinements
  rw [mergedOver, hsettings, hdeclarations]
  simp [mergedOver, SortedMap.overlay_again, Option.or_assoc]

end Configuration

end Reconciler
