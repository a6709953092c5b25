/-
Capabilities with configured overrides on top.

An override is named by its capability and goes by itself: whatever else is overridden, it decides
the flag of this capability and lays its options over the declared ones.

* `CapabilityOverride.Legible`: the values that are overrides;
* `CapabilityOverride.flagOf`, `othersOf`: what an override asks for;
* `CapabilityOverride.laidOver`: a capability with an override on top.

Main statements:
* `CapabilityOverride.ofJson_eq_ok_iff`: what is read as an override;
* `CapabilitySet.withOverrides_isOk_iff`: overrides can be applied when each of them can;
* `CapabilitySet.get?_withOverrides`: what becomes of each capability;
* `CapabilitySet.withOverrides_outcome`: all of it, and that nothing changes a second time.

Design notes:
* Overrides are taken in the order of their names, but two of them never name one capability, so
  that the order only decides which error is told.
-/
import Mathlib.Data.List.Basic
import Reconciler.Capability
import Reconciler.Proofs.Results

namespace Reconciler

/-- Capabilities have different names. -/
theorem Capability.name_inj {a b : Capability} (h : a.name = b.name) : a = b := by
  have hb : Capability.ofName b.name = .ok b := Capability.ofName_eq_ok_iff.2 rfl
  rw [Capability.ofName_eq_ok_iff.2 h] at hb
  exact Except.ok.inj hb

namespace CapabilityOverride

variable {name : String} {v : Json} {o : CapabilityOverride}

/-! ### One override -/

/-- The value is an override: a truth value, or an object whose `enabled`, if any, is one. -/
def Legible (v : Json) : Prop :=
  (∃ b, v = .bool b) ∨
    ∃ members, v = .obj members ∧ ∀ w, v.get? "enabled" = some w → ∃ b, w = .bool b

/-- The flag that an override asks for: the truth value, or the one under `enabled`, or true. -/
def flagOf (v : Json) : Bool := (v.bool?.or ((v.get? "enabled").bind Json.bool?)).getD true

/-- The options that an override asks for: all members but `enabled`. -/
def othersOf : Json → List (String × Json)
  | .obj members => members.filter fun e => e.1 != "enabled"
  | _ => []

/-- Overrides are read just from legible values, and say what these ask for. -/
theorem ofJson_eq_ok_iff : ofJson name v = .ok o ↔ Legible v ∧ o = ⟨flagOf v, othersOf v⟩ := by
  cases v with
  | bool b => simp [ofJson, Legible, flagOf, othersOf, Json.bool?, eq_comm]
  | obj members =>
    cases hflag : Assoc.lookup "enabled" members with
    | none => simp [ofJson, Legible, flagOf, othersOf, Json.get?, Json.bool?, hflag, eq_comm]
    | some w =>
      cases w <;> simp [ofJson, Legible, flagOf, othersOf, Json.get?, Json.bool?, hflag, eq_comm]
  | _ => simp [ofJson, Legible]

/-- A capability with an override on top, declared or not. -/
def laidOver (declared : Option CapabilityConfig) (v : Json) : CapabilityConfig where
  enabled := flagOf v
  options := (declared.elim .empty (·.options)).overlay (.ofList (othersOf v))

theorem get?_options_laidOver (declared : Option CapabilityConfig) (v : Json) (name : String) :
    (laidOver declared v).options.get? name =
      ((SortedMap.ofList (othersOf v)).get? name).or (declared.bind (·.options.get? name)) := by
  unfold laidOver
  rw [SortedMap.get?_overlay]
  cases declared <;> exact Option.orElse_eq_or

/-- An override on top of itself says the same. -/
theorem laidOver_again (declared : Option CapabilityConfig) (v : Json) :
    laidOver (some (laidOver declared v)) v = laidOver declared v := by
  have hoptions : (laidOver (some (laidOver declared v)) v).options =
      (laidOver declared v).options := by
    refine SortedMap.ext_get? fun name => ?_
    rw [get?_options_laidOver, Option.bind_some, get?_options_laidOver, ← Option.or_assoc,
      Option.or_self]
  exact congrArg (CapabilityConfig.mk (flagOf v)) hoptions

end CapabilityOverride

namespace CapabilitySet

open CapabilityOverride (Legible flagOf othersOf laidOver)

variable {s t : CapabilitySet} {e : String × Json}

/-- Options put in one by one are laid over those that are there. -/
theorem foldl_insert_eq_overlay (options : List (String × Json)) (declared : Settings) :
    options.foldl (fun m e => m.insert e.1 e.2) declared = declared.overlay (.ofList options) := by
  have hentries (m : Settings) :
      (options.foldl (fun m e => m.insert e.1 e.2) m).entries =
        Assoc.overlay m.entries options := by
    induction options generalizing m with
    | nil => rfl
    | cons e rest ih => exact ih (m.insert e.1 e.2)
  refine SortedMap.ext_get? fun name => ?_
  rw [SortedMap.get?_overlay, SortedMap.get?_ofList, SortedMap.get?, hentries,
    Assoc.lookup_overlay]
  rfl

/-- What is laid over a capability of the set does not depend on its other capabilities. -/
theorem override_eq_insert (s : CapabilitySet) (c : Capability) (v : Json) :
    CapabilitySet.override s c ⟨flagOf v, othersOf v⟩ = s.insert c (laidOver (s.get? c) v) := by
  simp only [CapabilitySet.override, laidOver, foldl_insert_eq_overlay]
  cases s.get? c <;> rfl

/-- The set with one override on top, if it is one and names a capability. -/
def overrideEntry (s : CapabilitySet) (e : String × Json) :
    Except Misconfiguration CapabilitySet := do
  let c ← Capability.ofName e.1
  let o ← CapabilityOverride.ofJson e.1 e.2
  return CapabilitySet.override s c o

theorem withOverrides_eq_foldlM (s : CapabilitySet) (overrides : Settings) :
    s.withOverrides overrides = overrides.entries.foldlM overrideEntry s := rfl

theorem overrideEntry_eq_ok_iff :
    s.overrideEntry e = .ok t ↔
      ∃ c : Capability, c.name = e.1 ∧ Legible e.2 ∧ t = s.insert c (laidOver (s.get? c) e.2) := by
  unfold overrideEntry
  simp only [Except.bind_eq_ok_iff, Capability.ofName_eq_ok_iff,
    CapabilityOverride.ofJson_eq_ok_iff]
  constructor
  · rintro ⟨c, hname, o, ⟨hlegible, rfl⟩, h⟩
    cases h
    exact ⟨c, hname, hlegible, override_eq_insert s c e.2⟩
  · rintro ⟨c, hname, hlegible, rfl⟩
    exact ⟨c, hname, _, ⟨hlegible, rfl⟩, congrArg Except.ok (override_eq_insert s c e.2)⟩

/-! ### All overrides -/

/-- One override after another can be applied when each of them can. -/
theorem foldlM_overrideEntry_isOk_iff (entries : List (String × Json)) (s : CapabilitySet) :
    (∃ t, entries.foldlM overrideEntry s = .ok t) ↔
      ∀ e ∈ entries, (∃ c : Capability, c.name = e.1) ∧ Legible e.2 := by
  induction entries generalizing s with
  | nil => exact iff_of_true ⟨s, rfl⟩ (List.forall_mem_nil _)
  | cons e rest ih =>
    simp only [List.foldlM_cons, Except.bind_eq_ok_iff, overrideEntry_eq_ok_iff,
      List.forall_mem_cons]
    constructor
    · rintro ⟨t, next, ⟨c, hname, hlegible, -⟩, hrest⟩
      exact ⟨⟨⟨c, hname⟩, hlegible⟩, (ih next).1 ⟨t, hrest⟩⟩
    · rintro ⟨⟨⟨c, hname⟩, hlegible⟩, hrest⟩
      obtain ⟨t, ht⟩ := (ih (s.insert c (laidOver (s.get? c) e.2))).2 hrest
      exact ⟨t, _, ⟨c, hname, hlegible, rfl⟩, ht⟩

/-- Overrides can be applied when each of them names a capability and is legible. -/
theorem withOverrides_isOk_iff {overrides : Settings} :
    (∃ t, s.withOverrides overrides = .ok t) ↔
      ∀ e ∈ overrides.entries, (∃ c : Capability, c.name = e.1) ∧ Legible e.2 := by
  simp only [withOverrides_eq_foldlM]
  exact foldlM_overrideEntry_isOk_iff overrides.entries s

/-- As no name comes twice, a capability is as its one override leaves it. -/
theorem get?_foldlM_overrideEntry {entries : List (String × Json)}
    (hascending : Assoc.Ascending entries) (h : entries.foldlM overrideEntry s = .ok t)
    (c : Capability) :
    t.get? c = match Assoc.lookup c.name entries with
      | some v => some (laidOver (s.get? c) v)
      | none => s.get? c := by
  induction entries generalizing s with
  | nil =>
    cases h
    rfl
  | cons e rest ih =>
    obtain ⟨name, v⟩ := e
    rw [List.foldlM_cons, Except.bind_eq_ok_iff] at h
    obtain ⟨next, hnext, hrest⟩ := h
    obtain ⟨first, hname, -, rfl⟩ := overrideEntry_eq_ok_iff.1 hnext
    dsimp only at hname
    subst hname
    rw [ih (List.pairwise_cons.1 hascending).2 hrest, Assoc.lookup_cons, SortedMap.get?_insert]
    by_cases hc : c = first
    · subst hc
      rw [Assoc.lookup_tail_of_ascending hascending, if_pos rfl, if_pos rfl]
    · have hname : c.name ≠ first.name := fun hsame => hc (Capability.name_inj hsame)
      rw [if_neg hc, if_neg hname]

/-- What becomes of each capability. -/
theorem get?_withOverrides {overrides : Settings} (h : s.withOverrides overrides = .ok t)
    (c : Capability) :
    t.get? c = match overrides.get? c.name with
      | some v => some (laidOver (s.get? c) v)
      | none => s.get? c := by
  rw [withOverrides_eq_foldlM] at h
  exact get?_foldlM_overrideEntry overrides.ascending h c

/-- Applied a second time, overrides change nothing. -/
theorem withOverrides_again {overrides : Settings} (h : s.withOverrides overrides = .ok t) :
    t.withOverrides overrides = .ok t := by
  obtain ⟨again, hagain⟩ : ∃ again, t.withOverrides overrides = .ok again :=
    withOverrides_isOk_iff.2 (withOverrides_isOk_iff.1 ⟨t, h⟩)
  have hsame : again = t := by
    refine SortedMap.ext_get? fun c => ?_
    rw [get?_withOverrides hagain c, get?_withOverrides h c]
    cases overrides.get? c.name with
    | none => rfl
    | some v => exact congrArg some (CapabilityOverride.laidOver_again _ v)
  rw [hagain, hsame]

/-- **What overrides do.**  They fail just where one of them does not name a capability or is not
legible.  Otherwise a capability that none of them names is as it was; one that is named has the
flag of its override and, option by option, what the override asks for or else what was declared;
and to apply the overrides again changes nothing. -/
theorem withOverrides_outcome (s : CapabilitySet) (overrides : Settings) :
    ((∃ problem, s.withOverrides overrides = .error problem) ↔
      ∃ e ∈ overrides.entries, (∀ c : Capability, c.name ≠ e.1) ∨ ¬ Legible e.2) ∧
    ∀ t, s.withOverrides overrides = .ok t →
      (∀ c : Capability, overrides.get? c.name = none → t.get? c = s.get? c) ∧
      (∀ (c : Capability) v, overrides.get? c.name = some v →
        ∃ config, t.get? c = some config ∧ config.enabled = flagOf v ∧
          ∀ name, config.options.get? name =
            ((SortedMap.ofList (othersOf v)).get? name).or
              ((s.get? c).bind (·.options.get? name))) ∧
      t.withOverrides overrides = .ok t := by
  refine ⟨?_, fun t h => ⟨fun c hnone => ?_, fun c v hsome => ?_, withOverrides_again h⟩⟩
  · rw [Except.exists_eq_error_iff, withOverrides_isOk_iff]
    simp only [not_forall, exists_prop, not_and_or, not_exists, ne_eq]
  · rw [get?_withOverrides h c, hnone]
  · refine ⟨laidOver (s.get? c) v, ?_, rfl, CapabilityOverride.get?_options_laidOver _ v⟩
    rw [get?_withOverrides h c, hsome]

/-! ### Overrides of three capabilities -/

/-- Objects are created, and found page by page. -/
def sampleDeclared : CapabilitySet :=
  .ofList [(.create, { enabled := true }),
    (.pagedSearch, { enabled := true, options := .ofList [("defaultPageSize", .int 100)] })]

/-- Creation is switched off, pages are limited, and activation is emulated. -/
def sampleOverrides : Settings :=
  .ofList [("create", .bool false), ("pagedSearch", .obj [("maxPageSize", .int 500)]),
    ("activation", .obj [("emulated", .bool true), ("enabled", .bool true)])]

theorem withOverrides_outcome_sample : ∃ t,
    sampleDeclared.withOverrides sampleOverrides = .ok t ∧
      (∃ config, t.get? .create = some config ∧ config.enabled = false) ∧
      (∃ config, t.get? .pagedSearch = some config ∧ config.enabled = true ∧
        config.options.get? "defaultPageSize" = some (.int 100) ∧
        config.options.get? "maxPageSize" = some (.int 500)) ∧
      (∃ config, t.get? .activation = some config ∧ config.enabled = true ∧
        config.options.get? "enabled" = none) ∧
      t.get? .read = none ∧ t.withOverrides sampleOverrides = .ok t := by
  refine ⟨_, rfl, ?_⟩
  obtain ⟨hothers, hnamed, hagain⟩ := (withOverrides_outcome sampleDeclared sampleOverrides).2 _ rfl
  obtain ⟨create, hcreate, hflag, -⟩ := hnamed .create _ rfl
  obtain ⟨paged, hpaged, hpagedFlag, hpagedOptions⟩ := hnamed .pagedSearch _ rfl
  obtain ⟨activation, hactivation, hemulated, hoptions⟩ := hnamed .activation _ rfl
  exact ⟨⟨create, hcreate, hflag⟩,
    ⟨paged, hpaged, hpagedFlag, hpagedOptions "defaultPageSize", hpagedOptions "maxPageSize"⟩,
    ⟨activation, hactivation, hemulated, hoptions "enabled"⟩, hothers .read rfl, hagain⟩

end CapabilitySet

end Reconciler
