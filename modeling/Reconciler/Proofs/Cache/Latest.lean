/-
What looking for the latest and completing come to when nothing interrupts them.

* `Outages.Honest`: the repository does not fail by saying that a resource is not there;
* `Outages.Barring`: a value is as it should be, unless the repository failed;
* `Resource.UpToDate`: the repository has the versions that a resource was completed from;
* `Definitions.Latest`: what becomes of looking for the latest;
* `Completion.Fits`: what was completed goes with the repository.

Main statements:
* `Definitions.isCurrent_ensures`: an entry counts as current just when it is;
* `Definitions.latest?_ensures`: what is current is handed out, and what is not is dropped;
* `Completion.run_ensures`: what was completed is up to date.

Design notes:
* A resource that was stored as completed may list any templates in any versions.  Completing leaves
  it as it is, so that what comes out need not be up to date.
-/
import Reconciler.Proofs.Cache.Offers
import Reconciler.Proofs.Cache.Freshness
import Reconciler.Proofs.Completion.Reach
import Reconciler.Proofs.Sequential

namespace Reconciler

open Program

/-! ### Failures of the repository -/

namespace Outages

/-- When it fails, the repository does not say that a resource is not there. -/
def Honest (outages : Outages) : Prop :=
  ∀ oid type key, ¬ outages (.version oid) (.notFound type key)

/-- A value is as it should be; there may be an error, if the repository can fail. -/
def Barring {α : Type} (outages : Outages) (holds : α → Prop) : Except ProvisioningError α → Prop
  | .ok a => holds a
  | .error _ => ∃ r e, outages r e

end Outages

variable {outages : Outages} {k : Contents} {c : Caller} {oid : String}

/-! ### The latest from the cache -/

namespace Definitions

theorem currentVersion?_ensures (honest : outages.Honest) (oid : String) (k : Contents) :
    (currentVersion? oid).run.Ensures (Exchange.Leads outages) Request.Looks
      (fun r k' => k' = k ∧ outages.Barring (· = (k.store.find? oid).map Resource.version) r)
      k := by
  refine ⟨trivial, fun reply k' hstep => ?_⟩
  rcases hstep.of_store with ⟨_, hreply, rfl⟩ | ⟨e, he, rfl, rfl⟩
  · have hversion : reply = k.store.version oid := hreply
    rw [hversion, Store.version, Store.read_eq]
    cases k.store.find? oid <;> exact ⟨rfl, rfl⟩
  · cases e with
    -- Only this failure would be taken for an answer.
    | notFound type key => exact (honest oid type key he).elim
    | _ => exact ⟨rfl, _, _, he⟩

theorem templatesAreCurrent_ensures (honest : outages.Honest) (c : Caller) (oid : String)
    (used : List (String × Version)) (k : Contents) :
    (templatesAreCurrent c oid used).run.Ensures (Exchange.Leads outages) Request.Looks
      (fun r k' => k' = k ∧ outages.Barring (fun current => current = true ↔
        ∀ p ∈ used, (k.store.find? p.1).map Resource.version = some p.2) r) k := by
  induction used with
  | nil => exact ⟨rfl, iff_of_true rfl (List.forall_mem_nil _)⟩
  | cons p used ih =>
    obtain ⟨template, v⟩ := p
    refine .action_bind (currentVersion?_ensures honest template k) (fun found k' h => ?_)
      fun _ _ h => h
    obtain ⟨rfl, rfl⟩ := h
    split
    · next hv =>
      refine ih.imp fun r k' h => h.imp_right fun hr => ?_
      cases r with
      | error _ => exact hr
      | ok current => exact hr.trans ⟨fun h => List.forall_mem_cons.2 ⟨hv, h⟩,
          fun h => (List.forall_mem_cons.1 h).2⟩
    · next hv =>
      refine ⟨trivial, fun _ k' hstep => ?_⟩
      obtain rfl := hstep.of_still trivial
      refine ⟨rfl, iff_of_false Bool.false_ne_true fun h => ?_⟩
      exact hv (h (template, v) List.mem_cons_self)

/-- An entry counts as current just when it is. -/
theorem isCurrent_ensures (honest : outages.Honest) (c : Caller) (oid : String) (e : CacheEntry)
    (k : Contents) :
    (isCurrent c oid e).run.Ensures (Exchange.Leads outages) Request.Looks
      (fun r k' => k' = k ∧ outages.Barring (fun current => current = true ↔
        e.Current k.store oid) r) k := by
  refine .action_bind (currentVersion?_ensures honest oid k) (fun found k' h => ?_) fun _ _ h => h
  obtain ⟨rfl, rfl⟩ := h
  split
  · next hown =>
    refine (templatesAreCurrent_ensures honest c oid _ k').imp fun r k' h =>
      h.imp_right fun hr => ?_
    cases r with
    | error _ => exact hr
    | ok current =>
      refine hr.trans ⟨fun h => ⟨hown, fun x v hx => ?_⟩, fun h p hp => ?_⟩
      · exact h (x, v) (SortedMap.mem_entries_iff.2 hx)
      · exact h.templates p.1 p.2 (SortedMap.mem_entries_iff.1 hp)
  · next hown => exact ⟨rfl, iff_of_false Bool.false_ne_true fun h => hown h.own⟩

/-- What becomes of looking for the latest: there is no entry; or there is one, which is current and
is handed out, or is not and is dropped; or the repository fails. -/
inductive Latest (outages : Outages) (oid : String) (k : Contents) :
    Except ProvisioningError (Option Resource) → Contents → Prop where
  | missing (h : k.cache.find? oid = none) : Latest outages oid k (.ok none) k
  | hit {e : CacheEntry} (h : k.cache.find? oid = some e) (current : e.Current k.store oid) :
      Latest outages oid k (.ok (some e.definition)) k
  | stale {e : CacheEntry} (h : k.cache.find? oid = some e) (outdated : ¬ e.Current k.store oid) :
      Latest outages oid k (.ok none) ⟨k.store, k.cache.evict oid e.sourceVersion⟩
  | failed {e : ProvisioningError} (h : ∃ r e, outages r e) : Latest outages oid k (.error e) k

/-- What is current is handed out, and what is not is dropped. -/
theorem latest?_ensures (honest : outages.Honest) (c : Caller) (oid : String) (k : Contents) :
    (latest? c oid).run.Ensures (Exchange.Leads outages) Request.Looks (Latest outages oid k)
      k := by
  have hfind : (Action.cache (.find oid)).Ensures (Exchange.Leads outages) Request.Looks
      (fun found k' => k.cache.find? oid = found ∧ k' = k) k := by
    refine ⟨trivial, fun reply k' hstep => ?_⟩
    obtain ⟨_, hreply, hk⟩ := hstep.of_cache
    exact ⟨hreply.symm, hk⟩
  refine .lift_bind hfind fun found k' h => ?_
  obtain ⟨hfound, rfl⟩ := h
  cases found with
  | none =>
    refine ⟨trivial, fun _ k'' hstep => ?_⟩
    obtain rfl := hstep.of_still trivial
    exact .missing hfound
  | some e =>
    refine .action_bind (isCurrent_ensures honest c oid e k') (fun current k'' h => ?_)
      fun _ k'' h => ?_
    · obtain ⟨rfl, hcurrent⟩ := h
      cases current with
      | true =>
        refine ⟨trivial, fun _ k hstep => ?_⟩
        obtain rfl := hstep.of_still trivial
        exact .hit hfound (hcurrent.1 rfl)
      | false =>
        refine ⟨trivial, fun _ k hevict => ⟨trivial, fun _ k' hremark => ?_⟩⟩
        obtain ⟨_, -, rfl⟩ := hevict.of_cache
        obtain rfl := hremark.of_still trivial
        exact .stale hfound fun h => Bool.false_ne_true (hcurrent.2 h)
    · obtain ⟨rfl, hfails⟩ := h
      exact .failed hfails

end Definitions

theorem Service.cached?_ensures {sv : Service} (honest : outages.Honest)
    (henabled : sv.tuning.cacheEnabled = true) (c : Caller) (oid : String) (k : Contents) :
    (sv.cached? c oid).run.Ensures (Exchange.Leads outages) Request.Looks
      (Definitions.Latest outages oid k) k := by
  unfold cached?
  rw [if_pos henabled]
  exact Definitions.latest?_ensures honest c oid k

/-! ### Completing -/

/-- The repository has the versions that a resource was completed from. -/
structure Resource.UpToDate (s : Store) (d : Resource) : Prop where
  own : (s.find? d.oid).map Resource.version = some d.version
  templates : ∀ x v, d.ancestorVersions.get? x = some v →
    (s.find? x).map Resource.version = some v

theorem CacheEntry.current_of_iff {s : Store} {d : Resource} (now : Instant) :
    (CacheEntry.of d now).Current s d.oid ↔ d.UpToDate s :=
  ⟨fun h => ⟨h.own, h.templates⟩, fun h => ⟨h.own, h.templates⟩⟩

namespace Completion

variable {mode : Mode} {raw : Resource}

/-- What was completed goes with the repository, and may be cached if it was fetched. -/
structure Fits (s : Store) (mode : Mode) (raw : Resource) (o : Completion) : Prop where
  oid_eq : o.definition.oid = raw.oid
  cacheable : mode.noFetch = false → o.isCacheable = true
  upToDate : s.find? raw.oid = some raw →
    o.definition.UpToDate s ∨ raw = o.definition ∧ raw.isCompleted = true

theorem fits_of_completed (s : Store) (mode : Mode) (h : raw.isCompleted = true) :
    Fits s mode raw ⟨raw, .success, []⟩ where
  oid_eq := rfl
  cacheable _ := by
    rw [isCacheable, Bool.and_eq_true]
    exact ⟨rfl, h⟩
  upToDate _ := .inr ⟨rfl, h⟩

/-- A completion that was answered from one repository throughout goes with it. -/
theorem fits_of_reaches {trace : List Exchange} {o : Completion} (hraw : raw.isCompleted = false)
    (h : (run c mode raw).Reaches trace (.done o)) (hleads : ∀ x ∈ trace, x.Leads outages k k)
    (hfatal : o.status.isFatal = false) : Fits k.store mode raw o where
  oid_eq := (read_of_reaches_run hraw h hfatal).1
  cacheable hfetch := by
    obtain ⟨hcacheable, -, -, -, hfails⟩ := run_gate hraw h
    rcases (course_of_run hraw h).cases_outcome with hgoes | ⟨hno, -⟩ | ⟨errors, hother⟩
    · exact hcacheable.2 hgoes
    · rw [hfetch] at hno
      cases hno
    -- A completion that fails for a reason gives no result.
    · obtain ⟨e, others, rfl⟩ := List.exists_cons_of_ne_nil hother.ne_nil
      have hresult : o.result = .ok o.definition := result_eq_ok_iff.2 ⟨hfatal, rfl⟩
      rw [hfails e others hother] at hresult
      cases hresult
  upToDate hstored := by
    obtain ⟨hoid, hversion, hread⟩ := read_of_reaches_run hraw h hfatal
    refine .inl ⟨?_, fun x v hx => ?_⟩
    · rw [hoid, hstored, hversion]
      rfl
    · obtain ⟨r, hr, hv⟩ := hread (x, v) (SortedMap.mem_entries_iff.2 hx)
      rw [(hleads _ hr).of_read, Option.map_some, hv]

/-- Completing changes nothing, and what was completed goes with the repository. -/
theorem run_ensures (c : Caller) (mode : Mode) (raw : Resource) (k : Contents) :
    (run c mode raw).Ensures (Exchange.Leads outages) Request.Reads
      (fun o k' => k' = k ∧ ∀ d, o.result = .ok d → o.definition = d ∧ Fits k.store mode raw o)
      k := by
  refine .of_still (run_reads c mode raw) (fun _ => Request.Reads.still) fun trace o h hleads =>
    ⟨rfl, fun d hd => ?_⟩
  obtain ⟨hfatal, hdefinition⟩ := result_eq_ok_iff.1 hd
  refine ⟨hdefinition, ?_⟩
  cases hraw : raw.isCompleted with
  | true =>
    rw [run_of_completed c mode hraw] at h
    cases h
    exact fits_of_completed k.store mode hraw
  | false => exact fits_of_reaches hraw h hleads hfatal

end Completion

end Reconciler
