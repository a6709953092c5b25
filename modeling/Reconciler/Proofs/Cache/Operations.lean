/-
Operations of a service with a cache and of one without.

* `Service.withCache`: the service with the cache, or without it.

Main statements:
* `Service.run_completeSince_uncached`: without the cache, completing gives what can be foreseen;
* `Service.agree_completeSince`: with the cache and without it, completing gives the same;
* `Service.agree_get`, `agree_search`, `agree_delete`, `agree_setAvailability`,
  `agree_testConnection`: so do the operations.

Design notes:
* What is completed must be what the repository has.  A search reads all resources before it
  completes the first, but completing one writes to no other.
-/
import Reconciler.Proofs.Cache.Agreement
import Reconciler.Proofs.Observing

namespace Reconciler

/-- The service with the cache, or without it. -/
def Service.withCache (sv : Service) (enabled : Bool) : Service :=
  { sv with tuning := { sv.tuning with cacheEnabled := enabled } }

namespace Service

open Session

variable {env : Surroundings} {mode : Completion.Mode} {sv : Service} {σ τ : Session}

/-! ### Availability -/

/-- The status that is known before only serves a remark. -/
theorem agree_recordAvailability (h : Related env mode σ τ) (c : Caller) (oid : String)
    (previous previous' : Option Availability) (status : Availability) (reason : Option String) :
    Agree env mode ((sv.withCache true).recordAvailability c oid previous status reason).run
      ((sv.withCache false).recordAvailability c oid previous' status reason).run σ τ := by
  unfold recordAvailability
  refine .lift_bind (agree_remark h c _ _ _) fun h => ?_
  refine .lift_bind (agree_now h) fun h => ?_
  refine .action_bind (agree_store h trivial) fun h _ _ => ?_
  exact .pure h _

theorem agree_setAvailability (h : Related env mode σ τ) (c : Caller) (oid : String)
    (status : Availability) (reason : Option String) (skipFetch : Bool) :
    Agree env mode ((sv.withCache true).setAvailability c oid status reason skipFetch).run
      ((sv.withCache false).setAvailability c oid status reason skipFetch).run σ τ := by
  unfold setAvailability
  cases skipFetch with
  | true =>
    rw [if_pos rfl, if_pos rfl]
    -- The caches may differ in what they know, but are left as they are.
    refine .left_action (run_lift _ σ) (.right_action (run_lift _ τ) ?_)
    refine .action_bind (agree_recordAvailability h c oid _ _ status reason) fun h _ _ => ?_
    exact .pure h _
  | false =>
    rw [if_neg Bool.false_ne_true, if_neg Bool.false_ne_true]
    refine .action_bind (agree_store h trivial) fun h stored _ => ?_
    split
    · refine .lift_bind (agree_remark h c _ _ _) fun h => ?_
      exact .pure h _
    · refine .action_bind (agree_recordAvailability h c oid _ _ status reason) fun h _ _ => ?_
      exact .pure h _

theorem agree_markDown {α : Type} {x y : Action α} (h : Agree env mode x.run y.run σ τ) (c : Caller)
    (oid : String) : Agree env mode (markDown c oid x) (markDown c oid y) σ τ := by
  unfold markDown
  refine h.bind fun h => ?_
  split
  · exact .pure h _
  · exact agree_remark h c _ _ _

/-! ### Completing -/

/-- A resource that was just completed may be cached. -/
theorem faithful_of_result {c : Caller} {raw d : Resource} (hraw : σ.store.find? raw.oid = some raw)
    (hresult : (peek env σ (Completion.run c mode raw)).result = .ok d) (now : Instant) :
    (CacheEntry.of d now).Faithful env mode σ.store d.oid := by
  obtain ⟨hstatus, hd⟩ := Completion.result_eq_ok_iff.1 hresult
  obtain ⟨hoid, hversion, chain, hstored, hnoted, hcomes⟩ := Completion.exists_chain hstatus
  rw [hd] at hoid hversion hnoted
  refine ⟨raw, chain, _, hversion.symm, ?_, fun t ht => ?_, hcomes, hresult⟩
  · rw [hoid]
    exact .of_find? hraw
  · exact ⟨hnoted t ht, .of_find? (hstored t ht)⟩

theorem completeSince_uncached (c : Caller) (noFetch : Bool) (ticket : Ticket) (raw : Resource) :
    (sv.withCache false).completeSince c noFetch ticket raw = (do
      let o ← Completion.run c (sv.mode noFetch) raw
      (sv.withCache false).settle c noFetch raw ticket o) := rfl

theorem settle_uncached (c : Caller) (noFetch : Bool) (raw : Resource) (ticket : Ticket)
    {o : Completion} {d : Resource} (h : o.result = .ok d) :
    (sv.withCache false).settle c noFetch raw ticket o = pure d := by
  have hno : ¬(o.isCacheable && (sv.withCache false).tuning.cacheEnabled) = true := by
    rw [withCache, Bool.and_false]
    exact Bool.false_ne_true
  unfold settle
  rw [h]
  dsimp only
  rw [if_neg hno]

/-- Without the cache, what can be completed is completed unnoticed. -/
theorem run_completeSince_uncached {c : Caller} {noFetch : Bool} {raw d : Resource}
    (h : (peek env τ (Completion.run c (sv.mode noFetch) raw)).result = .ok d) (ticket : Ticket) :
    ∃ υ, run env ((sv.withCache false).completeSince c noFetch ticket raw).run τ = (.ok d, υ) ∧
      Quiet τ υ := by
  obtain ⟨hvalue, hquiet⟩ := run_of_reading env (Completion.run_reads c (sv.mode noFetch) raw) τ
  refine ⟨_, ?_, hquiet⟩
  rw [completeSince_uncached, run_action_bind, run_lift, hvalue]
  dsimp only
  rw [settle_uncached c noFetch raw ticket h]
  rfl

/-- A completed resource that is cached stands for what completing its resource gives. -/
theorem agree_settle {noFetch : Bool} (h : Related env (sv.mode noFetch) σ τ) (c : Caller)
    {raw : Resource} (hraw : τ.store.find? raw.oid = some raw) {o : Completion}
    (ho : peek env τ (Completion.run c (sv.mode noFetch) raw) = o) (ticket ticket' : Ticket) :
    Agree env (sv.mode noFetch) ((sv.withCache true).settle c noFetch raw ticket o).run
      ((sv.withCache false).settle c noFetch raw ticket' o).run σ τ := by
  cases hresult : o.result with
  | ok d =>
    rw [settle_uncached c noFetch raw ticket' hresult]
    unfold settle
    rw [hresult]
    dsimp only
    split
    · have hstored : σ.store.find? raw.oid = some raw := by
        rw [h.store_eq]
        exact hraw
      have hresult : (peek env σ (Completion.run c (sv.mode noFetch) raw)).result = .ok d := by
        rw [peek_congr (Completion.run_reads c _ raw) h.store_eq, ho]
        exact hresult
      have hoffered : Related env (sv.mode noFetch)
          (run env (Definitions.offer d (some ticket)) σ).2 τ :=
        ⟨h.store_eq, h.readings_eq, h.writes_eq, h.sound.put (faithful_of_result hstored hresult)⟩
      exact .left_action (run_lift _ σ) (.pure hoffered _)
    · exact .pure h _
  | error e =>
    -- A failure is never cached, and marks the resource down on both sides.
    unfold settle
    rw [hresult]
    dsimp only
    split
    · refine .lift_bind (agree_markDown ?_ c raw.oid) fun h => .pure h _
      exact agree_recordAvailability h c raw.oid _ _ .down _
    · exact .pure h _

/-- What the cache hands out is what completing the resource would give without it. -/
theorem exists_run_latest? (h : Related env mode σ τ) (c : Caller) (oid : String) :
    ∃ found σ', run env (Definitions.latest? c oid).run σ = (.ok found, σ') ∧
      Related env mode σ' τ ∧
      ∀ d, found = some d → ∃ raw, τ.store.find? oid = some raw ∧
        ∀ (υ : Session) (c' : Caller), υ.store = τ.store →
          (peek env υ (Completion.run c' mode raw)).result = .ok d := by
  obtain ⟨found, σ', hrun, hquiet, hlatest⟩ := Definitions.run_latest? env c oid σ
  refine ⟨found, σ', hrun, h.left hquiet, fun d hd => ?_⟩
  obtain ⟨e, he, hcurrent, hdefinition⟩ := hlatest d hd
  have hresult := (h.sound.faithful oid e he).result_eq hcurrent
  rw [h.store_eq, hdefinition] at hresult
  exact hresult

/-- One side has the completed resource already, and the other completes it. -/
theorem agree_completed {p : Program (Except ProvisioningError Resource)} {c : Caller}
    {noFetch : Bool} {raw d : Resource} {ticket : Ticket} {σ' : Session}
    (hp : run env p σ = (.ok d, σ')) (h : Related env mode σ' τ)
    (hresult : (peek env τ (Completion.run c (sv.mode noFetch) raw)).result = .ok d) :
    Agree env mode p ((sv.withCache false).completeSince c noFetch ticket raw).run σ τ := by
  obtain ⟨τ', hrun, hquiet⟩ := run_completeSince_uncached hresult ticket
  exact .of_run hp hrun (h.right hquiet)

/-- The cache takes the place of a completion just when it stands for the same. -/
theorem agree_completeSince {noFetch : Bool} (h : Related env (sv.mode noFetch) σ τ) (c : Caller)
    {raw : Resource} (hraw : τ.store.find? raw.oid = some raw) (ticket ticket' : Ticket) :
    Agree env (sv.mode noFetch) ((sv.withCache true).completeSince c noFetch ticket raw).run
      ((sv.withCache false).completeSince c noFetch ticket' raw).run σ τ := by
  obtain ⟨found, σ', hfound, h', hlatest⟩ := exists_run_latest? h c raw.oid
  unfold completeSince
  refine .left_action hfound ?_
  split
  · next d hd =>
    obtain ⟨raw', hraw', hresult⟩ := hlatest d (Option.filter_eq_some_iff.1 hd).1
    rw [hraw] at hraw'
    cases hraw'
    exact agree_completed rfl h' (hresult τ c rfl)
  · -- Both sides ask the same of the same repository.
    have hreads := Completion.run_reads c (sv.mode noFetch) raw
    obtain ⟨hvalue, hquiet⟩ := run_of_reading env hreads τ
    refine .lift_bind (agree_of_reading h' hreads) fun h => ?_
    refine agree_settle h c ?_ ?_ ticket ticket'
    · exact (congrArg (·.find? raw.oid) hquiet.store_eq).trans hraw
    · exact (peek_congr hreads hquiet.store_eq).trans hvalue.symm

/-! ### Getting -/

/-- A read gives what the repository has, if it has anything. -/
theorem run_read (env : Surroundings) (oid : String) (τ : Session) :
    run env (Action.store (.read oid)).run τ =
      ((τ.store.read oid).mapError .ofStore, (τ.answer env (.store (.read oid))).2) := rfl

theorem find?_of_read {oid : String} {raw : Resource}
    (h : (run env (Action.store (.read oid)).run τ).1 = .ok raw) :
    τ.store.find? oid = some raw := by
  rw [run_read] at h
  cases hread : τ.store.read oid with
  | error e =>
    rw [hread] at h
    cases h
  | ok r =>
    rw [hread] at h
    cases h
    exact Store.find?_of_read hread

theorem run_read_of_find? {oid : String} {raw : Resource} (h : τ.store.find? oid = some raw) :
    run env (Action.store (.read oid)).run τ =
      (.ok raw, (τ.answer env (.store (.read oid))).2) := by
  rw [run_read, Store.read_eq, h]
  rfl

theorem get_uncached (c : Caller) (oid : String) (noFetch : Bool) :
    (sv.withCache false).get c oid noFetch = (do
      c.remark .debug s!"Getting resource {oid}"
      let ticket ← Action.cache .ticket
      let raw ← Action.store (.read oid)
      (sv.withCache false).completeSince c noFetch ticket raw) := rfl

theorem agree_get {noFetch : Bool} (h : Related env (sv.mode noFetch) σ τ) (c : Caller)
    (oid : String) :
    Agree env (sv.mode noFetch) ((sv.withCache true).get c oid noFetch).run
      ((sv.withCache false).get c oid noFetch).run σ τ := by
  rw [get_uncached]
  unfold get
  refine .lift_bind (agree_remark h c _ _ _) fun h => ?_
  refine .left_action (run_lift _ _) (.right_action (run_lift _ _) ?_)
  obtain ⟨found, σ', hfound, h', hlatest⟩ := exists_run_latest? h c oid
  refine .left_action hfound ?_
  cases found with
  | some d =>
    obtain ⟨raw, hraw, hresult⟩ := hlatest d rfl
    -- Without the cache the resource is read and completed now.
    refine .right_action (run_read_of_find? hraw) ?_
    exact agree_completed rfl (h'.right ⟨rfl, rfl, rfl, fun _ _ h => h⟩) (hresult _ c rfl)
  | none =>
    refine .action_bind (agree_store h' trivial) fun h raw hread => ?_
    have hraw := find?_of_read hread
    refine agree_completeSince h c ?_ _ _
    rw [Store.oid_of_find? hraw]
    exact hraw

/-! ### Searching -/

/-- A search finds no resource twice. -/
theorem pairwise_search (s : Store) (q : Query) :
    (s.search q).Pairwise fun a b => a.oid ≠ b.oid := by
  refine .sublist (q.page_sublist _) (.filter _ ?_)
  refine List.pairwise_map.2 (s.objects.ascending.imp_of_mem fun {a b} ha hb hlt => ?_)
  rw [s.keyed a ha, s.keyed b hb]
  intro heq
  rw [heq, Std.ReflOrd.compare_self] at hlt
  cases hlt

theorem settle_keepsTo (c : Caller) (noFetch : Bool) (raw : Resource) (ticket : Ticket)
    (o : Completion) : (sv.settle c noFetch raw ticket o).run.Asks (Request.KeepsTo raw.oid) := by
  unfold settle
  split
  · split
    · exact .lift_bind ⟨trivial, fun _ => ⟨trivial, fun _ => trivial⟩⟩ fun _ => trivial
    · trivial
  · split
    · refine .lift_bind ?_ fun _ => trivial
      exact (observes_markDown (observes_recordAvailability ..) c raw.oid).mono
        fun _ h => h.keepsTo
    · trivial

/-- To complete a resource writes at most to that resource. -/
theorem completeHit_keepsTo (c : Caller) (noFetch : Bool) (raw : Resource) :
    ((sv.withCache false).completeHit c noFetch raw).run.Asks (Request.KeepsTo raw.oid) := by
  have hreads : (Completion.run c (sv.mode noFetch) raw).Asks (Request.KeepsTo raw.oid) :=
    (Completion.run_reads c _ raw).mono fun _ h => h.keepsTo raw.oid
  have hcomplete : ((sv.withCache false).complete c noFetch raw).run.Asks
      (Request.KeepsTo raw.oid) := by
    refine .lift_bind ⟨trivial, fun _ => trivial⟩ fun ticket => ?_
    rw [completeSince_uncached]
    exact .lift_bind hreads fun o => settle_keepsTo c noFetch raw ticket o
  refine .bind hcomplete fun result => ?_
  split
  · trivial
  · exact ⟨trivial, fun _ => trivial⟩
  · trivial

theorem agree_completeHit {noFetch : Bool} (h : Related env (sv.mode noFetch) σ τ) (c : Caller)
    {raw : Resource} (hraw : τ.store.find? raw.oid = some raw) :
    Agree env (sv.mode noFetch) ((sv.withCache true).completeHit c noFetch raw).run
      ((sv.withCache false).completeHit c noFetch raw).run σ τ := by
  have hcomplete : Agree env (sv.mode noFetch) ((sv.withCache true).complete c noFetch raw).run
      ((sv.withCache false).complete c noFetch raw).run σ τ :=
    .left_action (run_lift _ σ) (.right_action (run_lift _ τ) (agree_completeSince h c hraw _ _))
  refine hcomplete.bind fun h => ?_
  split
  · exact .pure h _
  · exact (agree_remark h c _ _ _).bind fun h => .pure h _
  · exact .pure h _

/-- Resources are completed one after another; writing to one does not outdate the others. -/
theorem agree_completeHits {noFetch : Bool} (c : Caller) {found : List Resource}
    (hdistinct : found.Pairwise fun a b => a.oid ≠ b.oid) {σ τ : Session}
    (h : Related env (sv.mode noFetch) σ τ) (hfound : ∀ r ∈ found, τ.store.find? r.oid = some r) :
    Agree env (sv.mode noFetch) (found.mapM ((sv.withCache true).completeHit c noFetch)).run
      (found.mapM ((sv.withCache false).completeHit c noFetch)).run σ τ := by
  induction found generalizing σ τ with
  | nil => exact .pure h _
  | cons raw rest ih =>
    obtain ⟨hraw, hrest⟩ := List.forall_mem_cons.1 hfound
    obtain ⟨hother, hdistinct⟩ := List.pairwise_cons.1 hdistinct
    rw [List.mapM_cons, List.mapM_cons]
    -- Completing the first may mark it down, but the rest is stored as it was found.
    refine .action_bind (agree_completeHit h c hraw) fun h first _ => ?_
    refine .action_bind (ih hdistinct h fun r hr => ?_) fun h others _ => .pure h _
    rw [find?_run_of_keepsTo (completeHit_keepsTo c noFetch raw) (hother r hr).symm]
    exact hrest r hr

theorem agree_search {noFetch : Bool} (h : Related env (sv.mode noFetch) σ τ) (c : Caller)
    (q : Query) :
    Agree env (sv.mode noFetch) ((sv.withCache true).search c q noFetch).run
      ((sv.withCache false).search c q noFetch).run σ τ := by
  unfold search
  refine .action_bind (agree_store h trivial) fun h found hfound => ?_
  refine .lift_bind (agree_remark h c _ _ _) fun h => ?_
  cases hfound
  exact agree_completeHits c (pairwise_search τ.store q) h fun _ => Store.find?_of_mem_search

/-! ### Deleting -/

theorem run_invalidate (env : Surroundings) (oid : String) (σ : Session) :
    run env (Definitions.invalidate oid) σ = ((), (σ.answer env (.cache (.invalidate oid))).2) := by
  unfold Definitions.invalidate
  rw [run_bind]
  split <;> rfl

/-- Entries that depend on a resource are to leave the cache before it is deleted. -/
theorem agree_store_delete (h : Related env mode σ τ) {oid : String} (hno : σ.Independent oid) :
    Agree env mode (Action.store (.delete oid)).run (Action.store (.delete oid)).run σ τ := by
  intro _
  obtain ⟨hvalue, hstore, hcount⟩ := h.answer_store (r := .delete oid) fun _ e => by cases e
  exact ⟨congrArg (Except.mapError ProvisioningError.ofStore) hvalue, hstore, h.readings_eq, hcount,
    h.sound.delete hno⟩

theorem agree_delete (h : Related env mode σ τ) (c : Caller) (oid : String) :
    Agree env mode (delete c oid).run (delete c oid).run σ τ := by
  unfold delete
  refine .lift_bind (agree_remark h c _ _ _) fun h => ?_
  refine .left_action (run_lift _ _) (.right_action (run_lift _ _) ?_)
  obtain ⟨hsound, hno⟩ := h.sound.invalidate oid
  rw [run_invalidate, run_invalidate]
  refine agree_store_delete ?_ hno
  exact ⟨h.store_eq, h.readings_eq, h.writes_eq, hsound⟩

/-! ### Testing connections -/

theorem agree_testConnection (h : Related env mode σ τ) (c : Caller) (oid : String) :
    Agree env mode ((sv.withCache true).testConnection c oid).run
      ((sv.withCache false).testConnection c oid).run σ τ := by
  unfold testConnection
  refine .lift_bind (agree_remark h c _ _ _) fun h => ?_
  refine .action_bind (agree_store h trivial) fun h raw _ => ?_
  refine .action_bind (agree_of_reading h (configuredTarget_reads c raw)) fun h target _ => ?_
  refine .lift_bind (agree_of_reading h ⟨trivial, fun _ => trivial⟩) fun h => ?_
  split
  · refine .action_bind (agree_setAvailability h c oid _ _ false) fun h _ _ => ?_
    exact .pure h _
  · refine .lift_bind (agree_remark h c _ _ _) fun h => ?_
    refine .lift_bind (agree_markDown (agree_setAvailability h c oid _ _ true) c oid) fun h => ?_
    exact .pure h _

end Service

end Reconciler
