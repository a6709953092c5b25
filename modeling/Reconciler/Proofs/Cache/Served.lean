/-
What the next who wants a resource gets.

Whoever gets a resource leaves it in the cache, whatever was there before: nothing can stand in the
way of what was completed by an operation that nothing interrupts.

* `Exchange.Disturbs`: one of some resources is written, deleted or dropped from the cache;
* `Serves`: the next who wants a resource gets this one.

Main statements:
* `Serves.of_abstains`: a resource is left to be served, as long as nothing is disturbed that it
  depends on, and no single entry of the cache is changed;
* `Serves.of_latest`: whoever looks for the latest leaves it to be served;
* `Service.get_serves`: whoever gets a resource leaves it to be served.

Design notes:
* A resource that is stored as completed is handed out as it is.  It may list templates in versions
  that they do not have, so that it is dropped from the cache each time, and put there again.
-/
import Reconciler.Proofs.Cache.Latest
import Reconciler.Proofs.Cache.Representation

namespace Reconciler

open Program DefinitionCache

/-! ### Disturbances -/

/-- One of these resources is written or deleted, or is dropped from the cache. -/
def Exchange.Disturbs (oids : List String) : Exchange → Prop
  | ⟨.store (.add _), .ok key⟩ => key ∈ oids
  | ⟨.store (.modify key _), .ok _⟩ => key ∈ oids
  | ⟨.store (.delete key), .ok _⟩ => key ∈ oids
  | ⟨.cache r, _⟩ => r.Invalidates oids
  | _ => False

/-- Someone writes or deletes one of these resources, or drops it from the cache. -/
def Event.Disturbs (oids : List String) : Event → Prop
  | .asked _ x => x.Disturbs oids
  | _ => False

/-- A connector is called. -/
def Request.Calls : Request → Prop
  | .connector _ _ => True
  | _ => False

theorem Request.Looks.not_calls {r : Request} (h : r.Looks) : ¬ r.Calls := by
  cases r with
  | connector _ _ => exact h.elim
  | _ => exact id

/-- The request neither writes to the repository nor drops anything cached but by version. -/
def Request.isGentle : Request → Bool
  | .store (.add _) | .store (.modify _ _) | .store (.delete _) => false
  | .cache (.invalidate _) | .cache .invalidateAll => false
  | _ => true

theorem Exchange.not_disturbs_of_isGentle {x : Exchange} (h : x.request.isGentle = true)
    (oids : List String) : ¬ x.Disturbs oids := by
  obtain ⟨r, reply⟩ := x
  cases r with
  | store r =>
    cases r with
    | add _ => cases h
    | modify _ _ => cases h
    | delete _ => cases h
    | _ => exact id
  | cache r =>
    cases r with
    | invalidate _ => cases h
    | invalidateAll => cases h
    | _ => exact id
  | _ => exact id

/-- What is not disturbed stays in the repository as it is. -/
theorem Store.find?_answer_of_not_disturbs {s : Store} {fresh : String} {r : StoreRequest}
    {oids : List String} (h : ¬ Exchange.Disturbs oids ⟨.store r, (s.answer fresh r).1⟩)
    {oid : String} (hoid : oid ∈ oids) : (s.answer fresh r).2.find? oid = s.find? oid := by
  unfold answer at h ⊢
  cases r with
  | add x =>
    dsimp only at h ⊢
    cases hadd : s.add fresh x with
    | error e => rfl
    | ok added =>
      obtain ⟨key, next⟩ := added
      rw [hadd] at h
      have hne : oid ≠ key := by
        rintro rfl
        exact h hoid
      show next.find? oid = s.find? oid
      rw [read_add hadd, if_neg hne]
  | modify key changes =>
    dsimp only at h ⊢
    cases hmodify : s.modify key changes with
    | error e => rfl
    | ok modified =>
      rw [hmodify] at h
      have hne : oid ≠ key := fun he => h (he ▸ hoid)
      rw [read_modify hmodify, if_neg hne]
  | delete key =>
    dsimp only at h ⊢
    cases hdelete : s.delete key with
    | error e => rfl
    | ok next =>
      rw [hdelete] at h
      have hne : oid ≠ key := fun he => h (he ▸ hoid)
      rw [read_delete hdelete, if_neg hne]
  | _ => rfl

/-! ### What is served -/

/-- The next who wants a resource gets this one, which is completed from what is stored: nothing
else can be in its slot of the cache; and it is there and up to date, or is itself what is
stored. -/
structure Serves (d raw : Resource) (k : Contents) : Prop where
  stored : k.store.find? d.oid = some raw
  slot : ∀ e, k.cache.find? d.oid = some e → ∃ now, e = .of d now
  ready : ((k.cache.find? d.oid).isSome = true ∧ d.UpToDate k.store) ∨
    raw = d ∧ d.isCompleted = true

variable {outages : Outages} {k k' : Contents} {c : Caller} {oid : String} {d raw : Resource}

namespace Serves

theorem version_eq (h : Serves d raw k) : raw.version = d.version := by
  rcases h.ready with ⟨-, hcurrent⟩ | ⟨rfl, -⟩
  · have hown := hcurrent.own
    rw [h.stored, Option.map_some] at hown
    exact Option.some.inj hown
  · rfl

theorem of_store (h : Serves d raw k) {store : Store}
    (hsame : ∀ key ∈ sources d, store.find? key = k.store.find? key) :
    Serves d raw ⟨store, k.cache⟩ where
  stored := (hsame d.oid List.mem_cons_self).trans h.stored
  slot := h.slot
  ready := by
    refine h.ready.imp_left fun ⟨hslot, hcurrent⟩ => ⟨hslot, ?_, fun x v hx => ?_⟩
    · exact (congrArg _ (hsame d.oid List.mem_cons_self)).trans hcurrent.own
    · have hx' : x ∈ sources d := by
        refine mem_sources_iff.2 (.inr ?_)
        rw [SortedMap.contains, hx]
        rfl
      exact (congrArg _ (hsame x hx')).trans (hcurrent.templates x v hx)

theorem of_cache (h : Serves d raw k) {cache : DefinitionCache}
    (hsame : cache.find? d.oid = k.cache.find? d.oid) : Serves d raw ⟨k.store, cache⟩ where
  stored := h.stored
  slot e he := h.slot e (hsame ▸ he)
  ready := h.ready.imp_left fun ⟨hslot, hcurrent⟩ => ⟨hsame ▸ hslot, hcurrent⟩

/-- What is stored as completed is served in any case. -/
theorem of_completed (h : Serves d raw k) (hraw : raw = d ∧ d.isCompleted = true)
    {cache : DefinitionCache}
    (hslot : ∀ e, cache.find? d.oid = some e →
      k.cache.find? d.oid = some e ∨ ∃ now, e = .of d now) : Serves d raw ⟨k.store, cache⟩ where
  stored := h.stored
  slot e he := (hslot e he).elim (h.slot e) id
  ready := .inr hraw

/-- An exchange that neither puts anything into the cache nor evicts anything there leaves a
resource to be served, unless it disturbs something that the resource depends on. -/
theorem of_abstains (h : Serves d raw k) {x : Exchange} (hx : x.request.Abstains)
    (hleads : x.Leads outages k k') (hcalm : ¬ x.Disturbs (sources d)) : Serves d raw k' := by
  obtain ⟨r, reply⟩ := x
  cases r with
  | store r =>
    rcases hleads.of_store with ⟨fresh, rfl, rfl⟩ | ⟨_, -, -, rfl⟩
    · exact h.of_store fun key hkey => Store.find?_answer_of_not_disturbs hcalm hkey
    · exact h
  | cache r =>
    obtain ⟨now, rfl, rfl⟩ := hleads.of_cache
    cases r with
    | ticket => exact h
    | find _ => exact h
    | put _ _ => exact hx.elim
    | evict _ _ => exact hx.elim
    | invalidate key =>
      have hkey : key ∉ sources d := hcalm
      rw [mem_sources_iff, not_or] at hkey
      refine h.of_cache ?_
      show (k.cache.invalidate key).2.find? d.oid = k.cache.find? d.oid
      rw [find?_invalidate, if_neg (Ne.symm hkey.1)]
      cases he : k.cache.find? d.oid with
      | none => rfl
      | some e =>
        obtain ⟨now, rfl⟩ := h.slot e he
        exact Option.filter_eq_some_iff.2 ⟨rfl, by simpa [CacheEntry.of] using hkey.2⟩
    | invalidateAll => exact (hcalm trivial).elim
  | _ =>
    obtain rfl := hleads.of_still trivial
    exact h

/-- What looks for the latest of this resource finds it, or it is stored as completed. -/
theorem of_latest (h : Serves d raw k) {r : Except ProvisioningError (Option Resource)}
    (hlatest : Definitions.Latest outages d.oid k r k') :
    Serves d raw k' ∧
      outages.Barring (fun found => found = some d ∨
        found = none ∧ raw = d ∧ d.isCompleted = true) r := by
  cases hlatest with
  | missing hnone =>
    refine ⟨h, .inr ⟨rfl, h.ready.resolve_left fun ⟨hslot, _⟩ => ?_⟩⟩
    rw [hnone] at hslot
    cases hslot
  | hit he current =>
    obtain ⟨now, rfl⟩ := h.slot _ he
    exact ⟨h, .inl rfl⟩
  | stale he outdated =>
    obtain ⟨now, rfl⟩ := h.slot _ he
    -- A stale entry of this resource can only be one that is stored as completed.
    have hraw := h.ready.resolve_left fun ⟨_, hcurrent⟩ =>
      outdated ((CacheEntry.current_of_iff now).2 hcurrent)
    refine ⟨h.of_completed hraw fun e he => .inl ?_, .inr ⟨rfl, hraw⟩⟩
    rw [find?_evict, if_pos rfl] at he
    exact (Option.filter_eq_some_iff.1 he).1
  | failed hfails => exact ⟨h, hfails⟩

/-- What looks for the latest of another resource leaves this one. -/
theorem of_latest_ne (h : Serves d raw k) {r : Except ProvisioningError (Option Resource)}
    (hlatest : Definitions.Latest outages oid k r k') (hoid : oid ≠ d.oid) : Serves d raw k' := by
  cases hlatest with
  | stale he _ =>
    refine h.of_cache ?_
    rw [find?_evict, if_neg (Ne.symm hoid)]
  | _ => exact h

/-- What is put into the cache under another OID leaves this resource. -/
theorem of_put_ne (h : Serves d raw k) {other : Resource} (hoid : other.oid ≠ d.oid) (now : Instant)
    (since : Option Ticket) : Serves d raw ⟨k.store, (k.cache.put now other since).2⟩ := by
  refine h.of_cache ?_
  by_cases hstored : (k.cache.put now other since).1 = .stored
  · rw [find?_put hstored, if_neg (Ne.symm hoid)]
  · rw [put_eq_of_ne_stored hstored]

/-- What is stored as completed may be put into the cache again. -/
theorem of_put_self (h : Serves d raw k) (hraw : raw = d ∧ d.isCompleted = true) (now : Instant)
    (since : Option Ticket) : Serves d raw ⟨k.store, (k.cache.put now d since).2⟩ := by
  refine h.of_completed hraw fun e he => ?_
  by_cases hstored : (k.cache.put now d since).1 = .stored
  · rw [find?_put hstored, if_pos rfl] at he
    exact .inr ⟨now, (Option.some.inj he).symm⟩
  · rw [put_eq_of_ne_stored hstored] at he
    exact .inl he

end Serves

/-- A proper entry that is current is what is served. -/
theorem exists_serves_of_current {e : CacheEntry} (he : k.cache.find? oid = some e)
    (htagged : e.Tagged oid) (hcurrent : e.Current k.store oid) :
    e.definition.oid = oid ∧ ∃ raw, Serves e.definition raw k := by
  obtain ⟨rfl, hversion, hancestors⟩ := htagged
  obtain ⟨raw, hraw, -⟩ := Option.map_eq_some_iff.1 hcurrent.own
  refine ⟨rfl, raw, hraw, fun e' he' => ?_, .inl ⟨?_, ?_, ?_⟩⟩
  · rw [he] at he'
    cases he'
    obtain ⟨definition, version, ancestors, now⟩ := e
    obtain rfl : definition.version = version := hversion
    obtain rfl : definition.ancestorVersions = ancestors := hancestors
    exact ⟨now, rfl⟩
  · rw [he]
    rfl
  · rw [hversion]
    exact hcurrent.own
  · rw [hancestors]
    exact hcurrent.templates

/-! ### Single requests -/

/-- Whether a connector was called does not matter. -/
theorem Program.Ensures.free {α : Type} {steps : Contents → Exchange → Contents → Prop}
    {asks : Request → Prop} {gives : α → Contents → Prop} {p : Program α}
    (h : p.Ensures steps asks gives k) : p.Ensures steps (fun _ => True) gives k :=
  h.mono (fun _ _ _ => id) (fun _ _ => trivial) fun _ _ => id

namespace Service

variable {sv : Service} {ticket : Ticket}

theorem remark_ensures (c : Caller) (level : LogLevel) (text : String) (k : Contents) :
    (c.remark level text).Ensures (Exchange.Leads outages) (¬ ·.Calls) (fun _ k' => k' = k) k :=
  ⟨id, fun _ _ hstep => hstep.of_still trivial⟩

theorem ticket_ensures (k : Contents) :
    (Action.cache .ticket).Ensures (Exchange.Leads outages) (¬ ·.Calls)
      (fun ticket k' => ticket = k.cache.ticket ∧ k' = k) k := by
  refine ⟨id, fun reply k' hstep => ?_⟩
  obtain ⟨_, hreply, hk⟩ := hstep.of_cache
  exact ⟨hreply, hk⟩

/-- What was read is there; nothing is read if it is not there, or if the repository fails. -/
theorem read_ensures (oid : String) (k : Contents) :
    (Action.store (.read oid)).run.Ensures (Exchange.Leads outages) (¬ ·.Calls)
      (fun r k' => k' = k ∧ ((∃ raw, k.store.find? oid = some raw ∧ r = .ok raw) ∨
        ∃ e, r = .error e ∧ (k.store.find? oid = none ∨ ∃ r e, outages r e))) k := by
  refine ⟨id, fun reply k' hstep => ?_⟩
  rcases hstep.of_store with ⟨_, hreply, rfl⟩ | ⟨e, he, rfl, rfl⟩
  · have hread : reply = k.store.read oid := hreply
    rw [hread, Store.read_eq]
    cases hfind : k.store.find? oid with
    | none => exact ⟨rfl, .inr ⟨_, rfl, .inl rfl⟩⟩
    | some raw => exact ⟨rfl, .inl ⟨raw, rfl, rfl⟩⟩
  · exact ⟨rfl, .inr ⟨_, rfl, .inr ⟨_, _, he⟩⟩⟩

theorem offer_ensures (d : Resource) (since : Option Ticket) (k : Contents) :
    (Definitions.offer d since).Ensures (Exchange.Leads outages) (¬ ·.Calls)
      (fun _ k' => ∃ now, k' = ⟨k.store, (k.cache.put now d since).2⟩) k := by
  refine ⟨id, fun reply k' hput => ⟨id, fun _ k'' hremark => ?_⟩⟩
  obtain ⟨now, -, rfl⟩ := hput.of_cache
  exact ⟨now, hremark.of_still trivial⟩

/-! ### Getting it for the first time -/

/-- What was completed under a ticket that is still good goes into a slot that is free. -/
theorem settle_serves (c : Caller) (henabled : sv.tuning.cacheEnabled = true) {o : Completion}
    (hstored : k.store.find? raw.oid = some raw) (hfree : k.cache.find? raw.oid = none)
    (hgood : ∀ oids, k.cache.invalidations.since ticket oids = false)
    (ho : ∀ d, o.result = .ok d →
      o.definition = d ∧ Completion.Fits k.store (sv.mode false) raw o) :
    (sv.settle c false raw ticket o).run.Ensures (Exchange.Leads outages) (fun _ => True)
      (fun r k' => ∀ d, r = .ok d → d.oid = raw.oid ∧ Serves d raw k') k := by
  unfold settle
  split
  · next d hresult =>
    obtain ⟨rfl, hfits⟩ := ho d hresult
    have hcacheable := hfits.cacheable rfl
    rw [if_pos (by rw [hcacheable, henabled]; rfl)]
    refine .lift_bind (offer_ensures o.definition (some ticket) k).free fun _ k' hput => ?_
    obtain ⟨now, rfl⟩ := hput
    rintro d he
    cases he
    rw [← hfits.oid_eq] at hstored hfree
    have hcompleted : o.definition.isCompleted = true := by
      rw [Completion.isCacheable, Bool.and_eq_true] at hcacheable
      exact hcacheable.2
    -- The slot is free, so the offer is not refused for a later version.
    have htaken : (k.cache.put now o.definition (some ticket)).1 = .stored := by
      refine (outcomeOf_eq_stored_iff k.cache o.definition ticket).2 ⟨hcompleted, ?_, ?_⟩
      · rw [hgood]
        exact Bool.false_ne_true
      · intro e he
        rw [hfree] at he
        cases he
    have hslot : (k.cache.put now o.definition (some ticket)).2.find? o.definition.oid =
        some (.of o.definition now) := by rw [find?_put htaken, if_pos rfl]
    refine ⟨hfits.oid_eq, hstored, fun e he => ?_, ?_⟩
    · rw [hslot] at he
      exact ⟨now, (Option.some.inj he).symm⟩
    · rw [hfits.oid_eq] at hstored
      refine (hfits.upToDate hstored).imp (fun hcurrent => ⟨?_, hcurrent⟩) fun hraw => ?_
      · show ((k.cache.put now o.definition (some ticket)).2.find? o.definition.oid).isSome = true
        rw [hslot]
        rfl
      · exact ⟨hraw.1, hcompleted⟩
  · next e _ =>
    have hgives : ∀ k', ∀ d, (.error e : Except ProvisioningError Resource) = .ok d →
        d.oid = raw.oid ∧ Serves d raw k' := by
      intro k' d he
      cases he
    split
    · have hmark : (markDown c raw.oid (sv.recordAvailability c raw.oid raw.availability .down
          (some e.message))).Asks Request.Abstains :=
        abstains_markDown ..
      have hany : (markDown c raw.oid (sv.recordAvailability c raw.oid raw.availability .down
          (some e.message))).Ensures (Exchange.Leads outages) (fun _ => True) (fun _ _ => True) k :=
        .of_asks hmark (fun _ _ => trivial) (fun _ _ _ _ _ _ => trivial) trivial
      exact .lift_bind hany fun _ k' _ => hgives k'
    · exact hgives k

/-- What is completed while its slot is free is left to be served. -/
theorem completeSince_serves (honest : outages.Honest) (henabled : sv.tuning.cacheEnabled = true)
    (c : Caller) (hstored : k.store.find? raw.oid = some raw)
    (hfree : k.cache.find? raw.oid = none)
    (hgood : ∀ oids, k.cache.invalidations.since ticket oids = false) :
    (sv.completeSince c false ticket raw).run.Ensures (Exchange.Leads outages) (fun _ => True)
      (fun r k' => ∀ d, r = .ok d → d.oid = raw.oid ∧ Serves d raw k') k := by
  refine .action_bind (cached?_ensures honest henabled c raw.oid k).free
    (fun found k' hlatest => ?_) fun e k' _ d he => ?_
  · cases hlatest with
    | hit he _ =>
      rw [hfree] at he
      cases he
    | stale he _ =>
      rw [hfree] at he
      cases he
    | missing =>
      refine .lift_bind (Completion.run_ensures c (sv.mode false) raw k).free fun o k' ho => ?_
      obtain ⟨rfl, ho⟩ := ho
      exact settle_serves c henabled hstored hfree hgood ho
  · cases he

/-- What is read and completed while its slot is free is left to be served. -/
theorem read_completeSince_serves (honest : outages.Honest)
    (henabled : sv.tuning.cacheEnabled = true) (c : Caller) (hfree : k.cache.find? oid = none)
    (hgood : ∀ oids, k.cache.invalidations.since ticket oids = false) :
    (Action.store (.read oid) >>= sv.completeSince c false ticket).run.Ensures
      (Exchange.Leads outages) (fun _ => True)
      (fun r k' => ∀ d, r = .ok d → d.oid = oid ∧ ∃ raw, Serves d raw k') k := by
  refine .action_bind (read_ensures oid k).free (fun raw k' hread => ?_) fun e k' _ d he => ?_
  · obtain ⟨rfl, ⟨_, hstored, he⟩ | ⟨_, he, -⟩⟩ := hread
    · cases he
      have hoid : raw.oid = oid := Store.oid_of_find? hstored
      rw [← hoid] at hstored hfree
      refine (completeSince_serves honest henabled c hstored hfree hgood).imp fun r k' h d hd => ?_
      obtain ⟨hsame, hserves⟩ := h d hd
      exact ⟨hsame.trans hoid, raw, hserves⟩
    · cases he
  · cases he

/-- **Whoever got a resource leaves it to be served.** -/
theorem get_serves (honest : outages.Honest) (henabled : sv.tuning.cacheEnabled = true) (c : Caller)
    (oid : String) (hproper : k.cache.Proper) (hcounted : k.cache.invalidations.Counted) :
    (sv.get c oid false).run.Ensures (Exchange.Leads outages) (fun _ => True)
      (fun r k' => ∀ d, r = .ok d → d.oid = oid ∧ ∃ raw, Serves d raw k') k := by
  refine .lift_bind (remark_ensures c _ _ k).free fun _ k' hk => ?_
  subst hk
  refine .lift_bind (ticket_ensures k').free fun ticket k'' ht => ?_
  obtain ⟨rfl, rfl⟩ := ht
  have hgood : ∀ oids, k''.cache.invalidations.since k''.cache.ticket oids = false :=
    hcounted.since_now
  refine .action_bind (cached?_ensures honest henabled c oid k'').free (fun found k hlatest => ?_)
    fun e k _ d he => ?_
  · cases hlatest with
    | hit he current =>
      rintro d hd
      cases hd
      exact exists_serves_of_current he (hproper oid _ he).toTagged current
    | missing hfree => exact read_completeSince_serves honest henabled c hfree hgood
    -- Dropping what is stale frees the slot, and is no invalidation that would spoil the ticket.
    | stale he _ =>
      refine read_completeSince_serves honest henabled c ?_ ?_
      · rw [find?_evict, if_pos rfl, he]
        simp [Option.filter]
      · rw [invalidations_evict]
        exact hgood
  · cases he

end Service

end Reconciler
