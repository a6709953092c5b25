/-
What cached resources stand for.

* `Store.HasSince`: what was read once is still there, or has become a later version;
* `CacheEntry.Faithful`: an entry holds what completing its resource gave, of which everything that
  was used is still there or has become a later version;
* `CacheEntry.Current`: an entry has the versions that the repository has;
* `Session.Sound`: all entries are faithful, and versions do not run ahead of writes.

Main statements:
* `CacheEntry.Faithful.result_eq`: a faithful entry that is current holds what completing its
  resource would give now;
* `Session.Sound.write`, `Session.Sound.put`, `Session.Sound.invalidate`, `Session.Sound.delete`:
  requests keep entries faithful;
* `Definitions.run_latest?`: what the cache hands out is current.

Design notes:
* A version says what was read only as long as the resource is not deleted, since a resource that
  is added again starts anew.  Deleting it drops all entries that depend on it, so that versions of
  what an entry depends on only grow.
* An entry of a resource that was stored as completed may list any templates; none of them counts.
-/
import Reconciler.Proofs.Completion.Chain

namespace Reconciler

/-! ### Stored resources over time -/

namespace Store

variable {s s' : Store} {oid key fresh : String} {r : Resource} {n : Nat}

/-- What was read under an OID is still there, or has become a later version. -/
def HasSince (s : Store) (oid : String) (r : Resource) : Prop :=
  ∃ now, s.find? oid = some now ∧ (now = r ∨ r.version < now.version)

/-- No version is ahead of a number of writes. -/
def Bounded (s : Store) (n : Nat) : Prop :=
  ∀ oid r, s.find? oid = some r → r.version.sequence ≤ n

theorem HasSince.of_find? (h : s.find? oid = some r) : s.HasSince oid r := ⟨r, h, .inl rfl⟩

/-- What still has its version is still the same. -/
theorem HasSince.eq_of_version (h : s.HasSince oid r) {now : Resource}
    (hnow : s.find? oid = some now) (hv : now.version = r.version) : now = r := by
  obtain ⟨now', hnow', hr⟩ := h
  rw [hnow] at hnow'
  cases hnow'
  refine hr.resolve_right fun hlt => ?_
  rw [hv, Version.lt_def] at hlt
  exact Nat.lt_irrefl _ hlt

theorem find?_of_add {x : Resource} (h : s.add fresh x = .ok (key, s')) : s.find? key = none := by
  simp only [add] at h
  split at h
  · cases h
  · next hnone =>
    cases h
    exact hnone

theorem HasSince.add (h : s.HasSince oid r) {x : Resource}
    (hadd : s.add fresh x = .ok (key, s')) : s'.HasSince oid r := by
  obtain ⟨now, hnow, hr⟩ := h
  refine ⟨now, ?_, hr⟩
  rw [read_add hadd, if_neg, hnow]
  rintro rfl
  rw [find?_of_add hadd] at hnow
  cases hnow

theorem HasSince.modify (h : s.HasSince oid r) {changes : List ResourceChange} {v : Version}
    (hmodify : s.modify key changes = .ok (v, s')) (hbound : s.Bounded n)
    (hn : n < Version.lastSequence) : s'.HasSince oid r := by
  obtain ⟨now, hnow, hr⟩ := h
  by_cases hkey : oid = key
  · -- Below the last version, the next one is later than all that was read.
    refine ⟨changed now changes, ?_, .inr ?_⟩
    · rw [read_modify hmodify, if_pos hkey, ← hkey, hnow]
      rfl
    · have hnext : now.version < now.version.next :=
        Version.lt_next _ (Nat.lt_of_le_of_lt (hbound oid now hnow) hn)
      rw [changed_version]
      rcases hr with rfl | hlt
      · exact hnext
      · exact Nat.lt_trans hlt hnext
  · refine ⟨now, ?_, hr⟩
    rw [read_modify hmodify, if_neg hkey, hnow]

theorem HasSince.delete (h : s.HasSince oid r) (hdelete : s.delete key = .ok s')
    (hne : oid ≠ key) : s'.HasSince oid r := by
  obtain ⟨now, hnow, hr⟩ := h
  refine ⟨now, ?_, hr⟩
  rw [read_delete hdelete, if_neg hne, hnow]

theorem Bounded.add (h : s.Bounded n) {x : Resource} (hadd : s.add fresh x = .ok (key, s')) :
    s'.Bounded n := by
  intro oid r hr
  rw [read_add hadd] at hr
  split at hr
  · cases hr
    exact Nat.zero_le n
  · exact h oid r hr

theorem Bounded.modify (h : s.Bounded n) {changes : List ResourceChange} {v : Version}
    (hmodify : s.modify key changes = .ok (v, s')) : s'.Bounded (n + 1) := by
  intro oid r hr
  rw [read_modify hmodify] at hr
  split at hr
  · obtain ⟨now, hnow, rfl⟩ := Option.map_eq_some_iff.1 hr
    have hle := h key now hnow
    rw [changed_version, Version.next]
    split
    · exact Nat.succ_le_succ hle
    · exact Nat.le_succ_of_le hle
  · exact Nat.le_succ_of_le (h oid r hr)

theorem Bounded.delete (h : s.Bounded n) (hdelete : s.delete key = .ok s') : s'.Bounded n := by
  intro oid r hr
  rw [read_delete hdelete] at hr
  split at hr
  · cases hr
  · exact h oid r hr

theorem Bounded.mono {m : Nat} (h : s.Bounded n) (hm : n ≤ m) : s.Bounded m :=
  fun oid r hr => Nat.le_trans (h oid r hr) hm

end Store

/-! ### Entries -/

namespace CacheEntry

open Session

variable {env : Surroundings} {mode : Completion.Mode} {s s' : Store} {oid : String}
variable {e : CacheEntry}

/-- An entry holds what completing its resource gave, by templates whose versions it notes, and none
of the resources used has gone since. -/
def Faithful (env : Surroundings) (mode : Completion.Mode) (s : Store) (oid : String)
    (e : CacheEntry) : Prop :=
  ∃ (raw : Resource) (chain : List Inheritance.Template) (o : Completion),
    raw.version = e.sourceVersion ∧ s.HasSince oid raw ∧
      (∀ t ∈ chain, e.ancestorVersions.get? t.1 = some t.2.version ∧ s.HasSince t.1 t.2) ∧
      Completion.ComesOut env mode raw chain o ∧ o.result = .ok e.definition

/-- The repository has the versions that an entry notes. -/
structure Current (s : Store) (oid : String) (e : CacheEntry) : Prop where
  own : (s.find? oid).map Resource.version = some e.sourceVersion
  templates : ∀ x v, e.ancestorVersions.get? x = some v →
    (s.find? x).map Resource.version = some v

/-- What completing would give now is in an entry that is faithful and current. -/
theorem Faithful.result_eq (h : e.Faithful env mode s oid) (hcurrent : e.Current s oid) :
    ∃ raw, s.find? oid = some raw ∧ ∀ (τ : Session) (c : Caller), τ.store = s →
      (peek env τ (Completion.run c mode raw)).result = .ok e.definition := by
  obtain ⟨raw, chain, o, hversion, hraw, hchain, hcomes, hresult⟩ := h
  -- Everything that was used is still as it was, since its version is.
  have same : ∀ {x : String} {r : Resource}, s.HasSince x r →
      (s.find? x).map Resource.version = some r.version → s.find? x = some r := by
    intro x r hr hv
    obtain ⟨now, hnow, hv⟩ := Option.map_eq_some_iff.1 hv
    rw [hnow, hr.eq_of_version hnow hv]
  refine ⟨raw, same hraw (hversion ▸ hcurrent.own), fun τ c hτ => ?_⟩
  rw [hcomes τ c fun t ht => ?_]
  · exact hresult
  · obtain ⟨hnoted, hsince⟩ := hchain t ht
    rw [hτ]
    exact same hsince (hcurrent.templates t.1 _ hnoted)

/-- An entry stays faithful as long as what it depends on stays or becomes a later version. -/
theorem Faithful.imp (h : e.Faithful env mode s oid)
    (hkeep : ∀ x r, x = oid ∨ e.ancestorVersions.contains x = true → s.HasSince x r →
      s'.HasSince x r) : e.Faithful env mode s' oid := by
  obtain ⟨raw, chain, o, hversion, hraw, hchain, hcomes, hresult⟩ := h
  refine ⟨raw, chain, o, hversion, hkeep oid raw (.inl rfl) hraw, fun t ht => ?_, hcomes, hresult⟩
  obtain ⟨hnoted, hsince⟩ := hchain t ht
  have hcontains : e.ancestorVersions.contains t.1 = true := by
    rw [SortedMap.contains, hnoted]
    rfl
  exact ⟨hnoted, hkeep t.1 t.2 (.inr hcontains) hsince⟩

end CacheEntry

/-! ### Requests -/

namespace Session

variable {env : Surroundings} {mode : Completion.Mode} {σ τ : Session} {oid : String}

/-- All entries are faithful, and versions do not run ahead of writes. -/
structure Sound (env : Surroundings) (mode : Completion.Mode) (σ : Session) : Prop where
  bounded : σ.store.Bounded σ.writes
  faithful : ∀ oid e, σ.cache.find? oid = some e → e.Faithful env mode σ.store oid

theorem Sound.quiet (h : Sound env mode σ) (hquiet : Quiet σ τ) : Sound env mode τ where
  bounded := by
    rw [hquiet.store_eq, hquiet.writes_eq]
    exact h.bounded
  faithful oid e he := by
    rw [hquiet.store_eq]
    exact h.faithful oid e (hquiet.entries oid e he)

/-- Entries stay faithful whatever is asked of the repository, short of deletion. -/
theorem Sound.write (h : Sound env mode σ) {r : StoreRequest} (hr : ∀ oid, r ≠ .delete oid)
    (hwrites : (σ.answer env (.store r)).2.writes < UInt64.size) :
    Sound env mode (σ.answer env (.store r)).2 := by
  rcases answer_store_cases env σ r with ⟨hstore, hcount⟩ | ⟨x, key, -, hadd, hcount⟩ |
    ⟨key, changes, v, -, hmodify, hcount⟩ | ⟨oid, rfl, -⟩
  · exact h.quiet ⟨hstore, rfl, hcount, fun _ _ h => h⟩
  · exact ⟨(h.bounded.add hadd).mono (writes_le_answer _ σ), fun oid e he =>
      (h.faithful oid e he).imp fun _ _ _ hsince => hsince.add hadd⟩
  · -- Since the last version is not reached, what is modified gets a later one.
    have hlast : σ.writes < Version.lastSequence := by
      rw [hcount] at hwrites
      exact Nat.lt_pred_of_succ_lt hwrites
    refine ⟨?_, fun oid e he => ?_⟩
    · rw [hcount]
      exact h.bounded.modify hmodify
    · exact (h.faithful oid e he).imp fun _ _ _ hsince => hsince.modify hmodify h.bounded hlast
  · exact absurd rfl (hr oid)

/-- What completing a resource gives now may be cached. -/
theorem Sound.put (h : Sound env mode σ) {d : Resource} {since : Option Ticket}
    (hd : ∀ now, (CacheEntry.of d now).Faithful env mode σ.store d.oid) :
    Sound env mode (σ.answer env (.cache (.put d since))).2 where
  bounded := h.bounded
  faithful oid e he := by
    show e.Faithful env mode σ.store oid
    have he : (σ.cache.put σ.world.clock d since).2.find? oid = some e := he
    -- An offer that is not taken leaves the entries as they are.
    by_cases hstored : (σ.cache.put σ.world.clock d since).1 = .stored
    · rw [DefinitionCache.find?_put hstored] at he
      split at he
      · next hoid =>
        cases he
        exact hoid ▸ hd _
      · exact h.faithful oid e he
    · rw [DefinitionCache.put_eq_of_ne_stored hstored] at he
      exact h.faithful oid e he

/-- No entry depends on a resource. -/
def Independent (σ : Session) (oid : String) : Prop :=
  ∀ key e, σ.cache.find? key = some e → key ≠ oid ∧ e.ancestorVersions.contains oid = false

theorem Sound.invalidate (h : Sound env mode σ) (oid : String) :
    Sound env mode (σ.answer env (.cache (.invalidate oid))).2 ∧
      (σ.answer env (.cache (.invalidate oid))).2.Independent oid := by
  have hfind : ∀ key e,
      (σ.answer env (.cache (.invalidate oid))).2.cache.find? key = some e →
        σ.cache.find? key = some e ∧ key ≠ oid ∧ e.ancestorVersions.contains oid = false := by
    intro key e he
    have he : (σ.cache.invalidate oid).2.find? key = some e := he
    rw [DefinitionCache.find?_invalidate] at he
    split at he
    · cases he
    · next hne =>
      obtain ⟨he, hno⟩ := Option.filter_eq_some_iff.1 he
      exact ⟨he, hne, by simpa using hno⟩
  exact ⟨h.quiet ⟨rfl, rfl, rfl, fun key e he => (hfind key e he).1⟩,
    fun key e he => (hfind key e he).2⟩

/-- A resource may be deleted once no entry depends on it. -/
theorem Sound.delete (h : Sound env mode σ) (hno : σ.Independent oid) :
    Sound env mode (σ.answer env (.store (.delete oid))).2 := by
  rcases answer_store_cases env σ (.delete oid) with ⟨hstore, hcount⟩ | ⟨_, _, hr, -⟩ |
    ⟨_, _, _, hr, -⟩ | ⟨_, hr, hdelete⟩
  · exact h.quiet ⟨hstore, rfl, hcount, fun _ _ h => h⟩
  · cases hr
  · cases hr
  · cases hr
    refine ⟨h.bounded.delete hdelete, fun key e he => ?_⟩
    obtain ⟨hkey, hfree⟩ := hno key e he
    -- What the entry depends on is not deleted.
    refine (h.faithful key e he).imp fun x r hx hsince => hsince.delete hdelete ?_
    rintro rfl
    rcases hx with rfl | hx
    · exact hkey rfl
    · rw [hfree] at hx
      cases hx

end Session

/-! ### The latest from the cache -/

namespace Definitions

open Session

variable {env : Surroundings} {σ : Session}

theorem run_currentVersion? (oid : String) (σ : Session) :
    run env (currentVersion? oid).run σ =
      (.ok ((σ.store.find? oid).map Resource.version),
        (σ.answer env (.store (.version oid))).2) := by
  have hreply : (σ.answer env (.store (.version oid))).1 = σ.store.version oid := rfl
  unfold currentVersion?
  show run env (Program.perform (.store (.version oid)) >>= _) σ = _
  rw [run_bind, run_perform, hreply, Store.version, Store.read_eq]
  cases σ.store.find? oid <;> rfl

/-- To ask for versions goes unnoticed, and tells that templates are current only if they are. -/
theorem run_templatesAreCurrent (env : Surroundings) (c : Caller) (oid : String)
    (used : List (String × Version)) (σ : Session) :
    ∃ current τ, run env (templatesAreCurrent c oid used).run σ = (.ok current, τ) ∧ Quiet σ τ ∧
      (current = true → ∀ t ∈ used, (σ.store.find? t.1).map Resource.version = some t.2) := by
  induction used generalizing σ with
  | nil => exact ⟨true, σ, rfl, .refl σ, fun _ => List.forall_mem_nil _⟩
  | cons t rest ih =>
    obtain ⟨template, version⟩ := t
    let τ := (σ.answer env (.store (.version template))).2
    have hquiet : Quiet σ τ := ⟨rfl, rfl, rfl, fun _ _ h => h⟩
    rw [templatesAreCurrent, run_action_bind, run_currentVersion?]
    dsimp only
    by_cases hv : (σ.store.find? template).map Resource.version = some version
    · rw [if_pos hv]
      obtain ⟨current, υ, hrun, hrest, hcurrent⟩ := ih τ
      refine ⟨current, υ, hrun, hquiet.trans hrest, fun h => ?_⟩
      exact List.forall_mem_cons.2 ⟨hv, hcurrent h⟩
    · rw [if_neg hv]
      exact ⟨false, τ, rfl, hquiet, fun h => by cases h⟩

theorem run_isCurrent (env : Surroundings) (c : Caller) (oid : String) (e : CacheEntry)
    (σ : Session) :
    ∃ current τ, run env (isCurrent c oid e).run σ = (.ok current, τ) ∧ Quiet σ τ ∧
      (current = true → e.Current σ.store oid) := by
  let τ := (σ.answer env (.store (.version oid))).2
  have hquiet : Quiet σ τ := ⟨rfl, rfl, rfl, fun _ _ h => h⟩
  unfold isCurrent
  rw [run_action_bind, run_currentVersion?]
  dsimp only
  by_cases hv : (σ.store.find? oid).map Resource.version = some e.sourceVersion
  · rw [if_pos hv]
    obtain ⟨current, υ, hrun, hrest, hcurrent⟩ :=
      run_templatesAreCurrent env c oid e.ancestorVersions.entries τ
    refine ⟨current, υ, hrun, hquiet.trans hrest, fun h => ⟨hv, fun x v hx => ?_⟩⟩
    exact hcurrent h (x, v) (SortedMap.mem_entries_iff.2 hx)
  · rw [if_neg hv]
    exact ⟨false, τ, rfl, hquiet, fun h => by cases h⟩

/-- To look for the latest never fails, and goes unnoticed but for an entry that may be dropped.
What is found is in an entry that is current. -/
theorem run_latest? (env : Surroundings) (c : Caller) (oid : String) (σ : Session) :
    ∃ found τ, run env (latest? c oid).run σ = (.ok found, τ) ∧ Quiet σ τ ∧
      ∀ d, found = some d →
        ∃ e, σ.cache.find? oid = some e ∧ e.Current σ.store oid ∧ e.definition = d := by
  have hfind : run env (liftM (Action.cache (.find oid)) : Action (Option CacheEntry)).run σ =
      (.ok (σ.cache.find? oid), σ) := rfl
  unfold latest?
  rw [run_action_bind, hfind]
  cases he : σ.cache.find? oid with
  | none => exact ⟨none, σ, rfl, .refl σ, fun d h => by cases h⟩
  | some e =>
    dsimp only
    obtain ⟨current, τ, hrun, hquiet, hcurrent⟩ := run_isCurrent env c oid e σ
    rw [run_action_bind, hrun]
    cases current with
    | true =>
      refine ⟨some e.definition, τ, rfl, hquiet, fun d h => ?_⟩
      exact ⟨e, rfl, hcurrent rfl, Option.some.inj h⟩
    | false =>
      let υ := (τ.answer env (.cache (.evict oid e.sourceVersion))).2
      have hevict : Quiet τ υ := by
        refine ⟨rfl, rfl, rfl, fun key entry h => ?_⟩
        have h : (τ.cache.evict oid e.sourceVersion).find? key = some entry := h
        rw [DefinitionCache.find?_evict] at h
        split at h
        · next hkey => exact hkey ▸ (Option.filter_eq_some_iff.1 h).1
        · exact h
      exact ⟨none, υ, rfl, hquiet.trans hevict, fun d h => by cases h⟩

end Definitions

end Reconciler
