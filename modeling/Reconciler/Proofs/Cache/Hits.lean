/-
A cached read is a hit.

Whoever got a resource has left it to be served.  It stays so until something is written or dropped
that it depends on, and whoever gets it then is handed out the same without a call of a connector.

* `Keeps`: a program leaves a resource to be served, as long as nothing is disturbed;
* `Operation.Meddles`: an operation fills or empties a slot of the cache by itself.

Main statements:
* `Service.get_hits`: what is served is got without a call of a connector;
* `Operation.keeps`: whatever else is done leaves it to be served;
* `Interleaving.get_after_get`: so whoever gets it after it was got before gets the same.

Design notes:
* Whether the resource is got without fetch the next time makes no difference.
* A repository may fail meanwhile, but must not say then that it does not have a resource: what is
  not there is not the latest, and is dropped.
-/
import Reconciler.Proofs.Cache.Served

namespace Reconciler

open Program DefinitionCache

variable {outages : Outages} {k k' : Contents} {c : Caller} {oid : String} {d raw : Resource}

/-! ### Getting what is served -/

namespace Service

variable {sv : Service} {noFetch : Bool} {ticket : Ticket}

theorem cached?_serves (honest : outages.Honest) (henabled : sv.tuning.cacheEnabled = true)
    (c : Caller) (h : Serves d raw k) :
    (sv.cached? c d.oid).run.Ensures (Exchange.Leads outages) (¬ ·.Calls)
      (fun r k' => Serves d raw k' ∧ outages.Barring (fun found => found = some d ∨
        found = none ∧ raw = d ∧ d.isCompleted = true) r) k :=
  (cached?_ensures honest henabled c d.oid k).mono (fun _ _ _ => id)
    (fun _ => Request.Looks.not_calls) fun _ _ => h.of_latest

/-- What is served is handed out instead of completing what was read, without a call. -/
theorem completeSince_hits (honest : outages.Honest) (henabled : sv.tuning.cacheEnabled = true)
    (c : Caller) (noFetch : Bool) (ticket : Ticket) (h : Serves d raw k) :
    (sv.completeSince c noFetch ticket raw).run.Ensures (Exchange.Leads outages) (¬ ·.Calls)
      (fun r k' => Serves d raw k' ∧ outages.Barring (· = d) r) k := by
  have hoid : raw.oid = d.oid := Store.oid_of_find? h.stored
  have hcached := cached?_serves honest henabled c h
  rw [← hoid] at hcached
  refine .action_bind hcached (fun found k' hfound => ?_) fun _ _ h => h
  obtain ⟨h, hfound⟩ := hfound
  rcases hfound with rfl | ⟨rfl, hraw⟩
  · have hsame : (some d).filter (·.version == raw.version) = some d :=
      Option.filter_eq_some_iff.2 ⟨rfl, beq_iff_eq.2 h.version_eq.symm⟩
    rw [hsame]
    exact ⟨h, rfl⟩
  · -- What is stored as completed is completed without a call, and goes into the cache again.
    obtain ⟨rfl, hcompleted⟩ := hraw
    have hsettle : (sv.settle c noFetch raw ticket ⟨raw, .success, []⟩).run.Ensures
        (Exchange.Leads outages) (¬ ·.Calls)
        (fun r k' => Serves raw raw k' ∧ outages.Barring (· = raw) r) k' := by
      have hresult : (⟨raw, .success, []⟩ : Completion).result = .ok raw := rfl
      unfold settle
      rw [hresult]
      dsimp only
      split
      · refine .lift_bind (offer_ensures raw (some ticket) k') fun _ k'' hput => ?_
        obtain ⟨now, rfl⟩ := hput
        exact ⟨h.of_put_self ⟨rfl, hcompleted⟩ now (some ticket), rfl⟩
      · exact ⟨h, rfl⟩
    show ((liftM (Completion.run c (sv.mode noFetch) raw) : Action Completion) >>=
      sv.settle c noFetch raw ticket).run.Ensures _ _ _ k'
    rw [Completion.run_of_completed c _ hcompleted]
    exact hsettle

/-- **What is served is got without a call of a connector.** -/
theorem get_hits (honest : outages.Honest) (henabled : sv.tuning.cacheEnabled = true) (c : Caller)
    (noFetch : Bool) (h : Serves d raw k) :
    (sv.get c d.oid noFetch).run.Ensures (Exchange.Leads outages) (¬ ·.Calls)
      (fun r k' => Serves d raw k' ∧ outages.Barring (· = d) r) k := by
  refine .lift_bind (remark_ensures c _ _ k) fun _ k' hk => ?_
  subst hk
  refine .lift_bind (ticket_ensures k') fun ticket k'' ht => ?_
  obtain ⟨-, rfl⟩ := ht
  refine .action_bind (cached?_serves honest henabled c h) (fun found k' hfound => ?_)
    fun _ _ h => h
  obtain ⟨h, hfound⟩ := hfound
  rcases hfound with rfl | ⟨rfl, -⟩
  · exact ⟨h, rfl⟩
  · refine .action_bind (read_ensures d.oid k') (fun read k'' hread => ?_) fun e k'' hread => ?_
    · obtain ⟨rfl, ⟨_, hstored, he⟩ | ⟨_, he, -⟩⟩ := hread
      · cases he
        rw [h.stored] at hstored
        cases hstored
        exact completeSince_hits honest henabled c noFetch ticket h
      · cases he
    · obtain ⟨rfl, ⟨_, _, he⟩ | ⟨_, _, hnone | hfails⟩⟩ := hread
      · cases he
      · rw [h.stored] at hnone
        cases hnone
      · exact ⟨h, hfails⟩

end Service

/-! ### Leaving it to be served -/

/-- An exchange is possible, and disturbs nothing that a resource depends on. -/
def Exchange.LeadsCalmly (outages : Outages) (d : Resource) (k : Contents) (x : Exchange)
    (k' : Contents) : Prop :=
  x.Leads outages k k' ∧ ¬ x.Disturbs (sources d)

/-- A program leaves a resource to be served, as long as nothing is disturbed that it depends on. -/
def Keeps (outages : Outages) (d raw : Resource) {α : Type} (p : Program α) : Prop :=
  ∀ k, Serves d raw k →
    p.Ensures (Exchange.LeadsCalmly outages d) (fun _ => True) (fun _ => Serves d raw) k

namespace Keeps

variable {α β : Type}

theorem bind {p : Program α} {f : α → Program β} (hp : Keeps outages d raw p)
    (hf : ∀ a, Keeps outages d raw (f a)) : Keeps outages d raw (p >>= f) :=
  fun k h => (hp k h).bind fun a k' h => hf a k' h

theorem action_bind {x : Action α} {f : α → Action β} (hx : Keeps outages d raw x.run)
    (hf : ∀ a, Keeps outages d raw (f a).run) : Keeps outages d raw (x >>= f).run :=
  fun k h => .action_bind (hx k h) (fun a k' h => hf a k' h) fun _ _ h => h

theorem lift_bind {p : Program α} {f : α → Action β} (hp : Keeps outages d raw p)
    (hf : ∀ a, Keeps outages d raw (f a).run) : Keeps outages d raw (liftM p >>= f).run :=
  fun k h => .lift_bind (hp k h) fun a k' h => hf a k' h

/-- What neither puts anything into the cache nor evicts anything there leaves it to be served. -/
theorem of_abstains {p : Program α} (hp : p.Asks Request.Abstains) : Keeps outages d raw p :=
  fun _ h => .of_asks hp (fun _ _ => trivial)
    (fun _ _ _ hx hstep h => h.of_abstains hx hstep.1 hstep.2) h

/-- So does what ensures it whether or not anything is disturbed. -/
theorem of_ensures {p : Program α} {asks : Request → Prop} {gives : Contents → α → Contents → Prop}
    (hp : ∀ k, Serves d raw k → p.Ensures (Exchange.Leads outages) asks (gives k) k)
    (hgives : ∀ k, Serves d raw k → ∀ a k', gives k a k' → Serves d raw k') :
    Keeps outages d raw p :=
  fun k h => (hp k h).mono (fun _ _ _ hstep => hstep.1) (fun _ _ => trivial) (hgives k h)

theorem remark (c : Caller) (level : LogLevel) (text : String) :
    Keeps outages d raw (c.remark level text) := .of_abstains ⟨trivial, fun _ => trivial⟩

theorem ticket : Keeps outages d raw (Action.cache .ticket) :=
  .of_abstains ⟨trivial, fun _ => trivial⟩

end Keeps

/-- Looking for the latest leaves a resource to be served, be it the same or another. -/
theorem Definitions.latest?_keeps (honest : outages.Honest) (c : Caller) (oid : String) :
    Keeps outages d raw (Definitions.latest? c oid).run := by
  refine .of_ensures (fun k _ => latest?_ensures honest c oid k) fun k h r k' hlatest => ?_
  by_cases hoid : oid = d.oid
  · subst hoid
    exact (h.of_latest hlatest).1
  · exact h.of_latest_ne hlatest hoid

namespace Service

variable {sv : Service} {noFetch : Bool} {ticket : Ticket} {other : Resource} {o : Completion}

theorem cached?_keeps (honest : outages.Honest) (sv : Service) (c : Caller) (oid : String) :
    Keeps outages d raw (sv.cached? c oid).run := by
  unfold cached?
  split
  · exact Definitions.latest?_keeps honest c oid
  · exact fun _ h => h

/-- What is put into the cache under another OID is not in the way. -/
theorem settle_keeps (c : Caller) (ho : ∀ d', o.result = .ok d' → d'.oid ≠ d.oid) :
    Keeps outages d raw (sv.settle c noFetch other ticket o).run := by
  unfold settle
  split
  · next d' hresult =>
    have hoffer : Keeps outages d raw (Definitions.offer d' (some ticket)) := by
      refine .of_ensures (fun k _ => offer_ensures d' (some ticket) k) fun k h _ k' hput => ?_
      obtain ⟨now, rfl⟩ := hput
      exact h.of_put_ne (ho d' hresult) now (some ticket)
    split
    · exact .lift_bind hoffer fun _ _ h => h
    · exact fun _ h => h
  · next e _ =>
    split
    · have hmark : (markDown c other.oid (sv.recordAvailability c other.oid other.availability .down
          (some e.message))).Asks Request.Abstains :=
        abstains_markDown ..
      exact .lift_bind (.of_abstains hmark) fun _ _ h => h
    · exact fun _ h => h

/-- Whatever is completed leaves a resource to be served, but for what is not stored under its
OID. -/
theorem completeSince_keeps (honest : outages.Honest) (henabled : sv.tuning.cacheEnabled = true)
    (c : Caller) (hother : other.oid = d.oid → other = raw) :
    Keeps outages d raw (sv.completeSince c noFetch ticket other).run := by
  -- Either it is the resource itself, which is served again, or it goes into another slot.
  by_cases hoid : other.oid = d.oid
  · obtain rfl := hother hoid
    exact .of_ensures (fun _ h => completeSince_hits honest henabled c noFetch ticket h)
      fun _ _ _ _ h => h.1
  · refine .action_bind (cached?_keeps honest sv c other.oid) fun found => ?_
    split
    · exact fun _ h => h
    · intro k h
      have hrun : (Completion.run c (sv.mode noFetch) other).Ensures
          (Exchange.LeadsCalmly outages d) (fun _ => True)
          (fun o k' => Serves d raw k' ∧ ∀ d', o.result = .ok d' → d'.oid ≠ d.oid) k := by
        refine (Completion.run_ensures c (sv.mode noFetch) other k).mono
          (fun _ _ _ hstep => hstep.1) (fun _ _ => trivial) fun o k' ho => ?_
        obtain ⟨rfl, ho⟩ := ho
        refine ⟨h, fun d' hd' => ?_⟩
        obtain ⟨rfl, hfits⟩ := ho d' hd'
        rw [hfits.oid_eq]
        exact hoid
      exact .lift_bind hrun fun o k' h => settle_keeps c h.2 k' h.1

theorem complete_keeps (honest : outages.Honest) (henabled : sv.tuning.cacheEnabled = true)
    (c : Caller) (hother : other.oid = d.oid → other = raw) :
    Keeps outages d raw (sv.complete c noFetch other).run := by
  exact .lift_bind .ticket fun _ => completeSince_keeps honest henabled c hother

/-- What is read is stored under its OID. -/
theorem get_keeps (honest : outages.Honest) (henabled : sv.tuning.cacheEnabled = true) (c : Caller)
    (oid : String) (noFetch : Bool) : Keeps outages d raw (sv.get c oid noFetch).run := by
  refine .lift_bind (.remark c _ _) fun _ => .lift_bind .ticket fun ticket => ?_
  refine .action_bind (cached?_keeps honest sv c oid) fun found => ?_
  split
  · exact fun _ h => h
  · intro k h
    refine .action_bind ((read_ensures oid k).mono (fun _ _ _ hstep => hstep.1)
      (fun _ _ => trivial) fun _ _ => id) (fun other k' hread => ?_) fun e k' hread => ?_
    · obtain ⟨rfl, ⟨_, hstored, he⟩ | ⟨_, he, -⟩⟩ := hread
      · cases he
        refine completeSince_keeps honest henabled c (fun hoid => ?_) k' h
        have hother : k'.store.find? d.oid = some other := by
          rw [← hoid, Store.oid_of_find? hstored]
          exact hstored
        exact Option.some.inj (hother.symm.trans h.stored)
      · cases he
    · obtain ⟨rfl, -⟩ := hread
      exact h

theorem completeHit_keeps (honest : outages.Honest) (henabled : sv.tuning.cacheEnabled = true)
    (c : Caller) (hother : other.oid = d.oid → other = raw) :
    Keeps outages d raw (sv.completeHit c noFetch other).run := by
  refine .bind (complete_keeps honest henabled c hother) fun result => ?_
  split
  · exact fun _ h => h
  · exact .bind (.remark c _ _) fun _ _ h => h
  · exact fun _ h => h

theorem completeHits_keeps (honest : outages.Honest) (henabled : sv.tuning.cacheEnabled = true)
    (c : Caller) {found : List Resource}
    (hfound : ∀ other ∈ found, other.oid = d.oid → other = raw) :
    Keeps outages d raw (found.mapM (sv.completeHit c noFetch)).run := by
  induction found with
  | nil => exact fun _ h => h
  | cons other rest ih =>
    obtain ⟨hother, hrest⟩ := List.forall_mem_cons.1 hfound
    rw [List.mapM_cons]
    refine .action_bind (completeHit_keeps honest henabled c hother) fun _ => ?_
    exact .action_bind (ih hrest) fun _ _ h => h

/-- What a search finds is stored under its OID, and stays so while others are completed. -/
theorem search_keeps (honest : outages.Honest) (henabled : sv.tuning.cacheEnabled = true)
    (c : Caller) (q : Query) : Keeps outages d raw (sv.search c q noFetch).run := by
  intro k h
  have hsearch : (Action.store (.search q)).run.Ensures (Exchange.LeadsCalmly outages d)
      (fun _ => True) (fun r k' => k' = k ∧ ∀ found, r = .ok found →
        ∀ other ∈ found, k.store.find? other.oid = some other) k := by
    refine ⟨trivial, fun reply k' hstep => ?_⟩
    rcases hstep.1.of_store with ⟨_, hreply, rfl⟩ | ⟨e, -, rfl, rfl⟩
    · have hfound : reply = .ok (k.store.search q) := hreply
      subst hfound
      refine ⟨rfl, fun found hok other hmem => ?_⟩
      cases hok
      exact Store.find?_of_mem_search hmem
    · refine ⟨rfl, fun found hok => ?_⟩
      cases hok
  refine .action_bind hsearch (fun found k' hfound => ?_) fun _ _ hfound => hfound.1 ▸ h
  obtain ⟨rfl, hfound⟩ := hfound
  refine Keeps.lift_bind (.remark c _ _) (fun _ => ?_) k' h
  refine completeHits_keeps honest henabled c fun other hmem hoid => ?_
  have hother := hfound found rfl other hmem
  rw [hoid] at hother
  exact Option.some.inj (hother.symm.trans h.stored)

end Service

namespace Operation

/-- The operation fills or empties the slot of a resource by itself, or completes what it is given
under its OID. -/
def Meddles (oid : String) : Operation → Prop
  | complete raw _ => raw.oid = oid
  | atCache (.put d _) => d.oid = oid
  | atCache (.evict key _) => key = oid
  | _ => False

/-- **Whatever else is done leaves a resource to be served.** -/
theorem keeps {sv : Service} (honest : outages.Honest) (henabled : sv.tuning.cacheEnabled = true)
    (c : Caller) {op : Operation} (hop : ¬ op.Meddles d.oid) :
    Keeps outages d raw (op.action sv c).run := by
  cases op with
  | get oid noFetch => exact Service.get_keeps honest henabled c oid noFetch
  | complete other noFetch =>
    exact Service.complete_keeps honest henabled c fun hoid => absurd hoid hop
  | search q noFetch => exact Service.search_keeps honest henabled c q
  | runScript oid script =>
    obtain ⟨rest, heq, hrest⟩ := Service.exists_runScript_eq sv c oid script
    show Keeps outages d raw (sv.runScript c oid script).run
    rw [heq]
    exact .action_bind (Service.get_keeps honest henabled c oid false)
      fun r => .of_abstains ((hrest r).mono fun _ h => h.abstains)
  | cachedLatest oid => exact Definitions.latest?_keeps honest c oid
  | atCache r =>
    cases r with
    | put other since =>
      refine fun k h => ⟨trivial, fun _ k' hstep => ?_⟩
      obtain ⟨now, -, rfl⟩ := hstep.1.of_cache
      exact h.of_put_ne hop now since
    | evict key version =>
      refine fun k h => ⟨trivial, fun _ k' hstep => ?_⟩
      obtain ⟨_, -, rfl⟩ := hstep.1.of_cache
      refine h.of_cache ?_
      show (k.cache.evict key version).find? d.oid = k.cache.find? d.oid
      rw [find?_evict, if_neg fun he => hop he.symm]
    | _ => exact .of_abstains (abstains sv c id)
  | _ => exact .of_abstains (abstains sv c id)

end Operation

/-! ### Histories -/

namespace Interleaving

variable {sv : Service} {s m n : State} {before reading later : List Event} {id : Nat}

/-- What an operation that nothing interrupts got is left to be served, by all that follow. -/
theorem exists_serves_of_get (honest : outages.Honest) (henabled : sv.tuning.cacheEnabled = true)
    (hempty : s.world.cache = {})
    (hfirst : Run sv outages s (before ++ .started id c (.get oid false) ::
      (reading ++ [.finished id (.get oid false) (.ok d)])) m)
    (hreading : ∀ e ∈ reading, e.IsOf id) (hlater : Run sv outages m later n)
    (hsequential : Sequential later)
    (hothers : ∀ j c' op, .started j c' op ∈ later → ¬ op.Meddles oid)
    (hcalm : ∀ e ∈ later, ¬ e.Disturbs (sources d)) :
    d.oid = oid ∧ ∃ raw, Serves d raw n.world.contents := by
  -- By the time it is got, the cache is as any history leaves it that begins with an empty one.
  obtain ⟨k, hbefore, hget⟩ := run_append_iff.1 hfirst
  have hproper : k.world.cache.Proper := by
    refine hbefore.properCache (proper_of_empty fun key => ?_)
    rw [hempty]
    rfl
  have hcounted : k.world.cache.invalidations.Counted :=
    hbefore.counted (hempty ▸ Invalidations.counted_new)
  obtain ⟨hgot, -⟩ := ensured_of_run hget hreading
    (Service.get_serves honest henabled c oid hproper hcounted) fun _ _ _ _ h => h
  obtain ⟨rfl, raw, hserves⟩ := hgot d rfl
  have hkept : ∀ j c' op, .started j c' op ∈ later → Keeps outages d raw (op.action sv c').run :=
    fun j c' op hop => Operation.keeps honest henabled c' (hothers j c' op hop)
  have hcalmly : ∀ j x, .asked j x ∈ later → ∀ k k', x.Leads outages k k' →
      Exchange.LeadsCalmly outages d k x k' := fun j x hx _ _ h => ⟨h, hcalm _ hx⟩
  exact ⟨rfl, raw, hsequential.keeps hlater hkept hcalmly hserves⟩

/-- **A cached read is a hit.**  Someone gets a resource without being interrupted, whatever has
happened before, and more is done after that, one operation after another.  If nothing is written,
deleted or dropped meanwhile on which the resource depends, then whoever gets it next gets the same
from a repository that works by then, and no connector is called for it. -/
theorem get_after_get (honest : outages.Honest) (henabled : sv.tuning.cacheEnabled = true)
    (hempty : s.world.cache = {})
    (hfirst : Run sv outages s (before ++ .started id c (.get oid false) ::
      (reading ++ [.finished id (.get oid false) (.ok d)])) m)
    (hreading : ∀ e ∈ reading, e.IsOf id) (hlater : Run sv outages m later n)
    (hsequential : Sequential later)
    (hothers : ∀ j c' op, .started j c' op ∈ later → ¬ op.Meddles oid)
    (hcalm : ∀ e ∈ later, ¬ e.Disturbs (sources d)) :
    (∀ c' noFetch connectors,
      (World.run connectors (sv.get c' oid noFetch).run n.world).1 = .ok d) ∧
    ∀ j c' noFetch again outcome t, (∀ e ∈ again, e.IsOf j) →
      Run sv (fun _ _ => False) n (.started j c' (.get oid noFetch) ::
        (again ++ [.finished j (.get oid noFetch) outcome])) t →
      outcome = .ok d ∧ ∀ x, .asked j x ∈ again → ¬ x.request.Calls := by
  obtain ⟨rfl, raw, hserves⟩ := exists_serves_of_get honest henabled hempty hfirst hreading hlater
    hsequential hothers hcalm
  -- With a repository that does not fail, there is no other way than to get the resource.
  have hnever : Outages.Honest fun _ _ => False := fun _ _ _ h => h
  have hvalue : ∀ r : Except ProvisioningError Resource,
      Outages.Barring (fun _ _ => False) (· = d) r → r = .ok d := by
    intro r hr
    cases r with
    | ok d' => rw [show d' = d from hr]
    | error e =>
      obtain ⟨_, _, hfails⟩ := hr
      exact hfails.elim
  constructor
  · intro c' noFetch connectors
    obtain ⟨⟨-, hgot⟩, -⟩ :=
      (Service.get_hits hnever henabled c' noFetch hserves).of_run connectors
    exact hvalue _ hgot
  · intro j c' noFetch again outcome t hof hrun
    obtain ⟨⟨-, hgot⟩, hcalls⟩ := ensured_of_run hrun hof
      (Service.get_hits hnever henabled c' noFetch hserves) fun _ _ _ _ h => h
    exact ⟨hvalue outcome hgot, hcalls⟩

/-- The service gets a resource. -/
def sampleGet (oid : String) : Program (Except ProvisioningError Resource) :=
  (Service.get { templateLimit := 3 } default oid).run

/-- Someone gets a resource with all that it inherits. -/
def sampleGot : Except ProvisioningError Resource × World :=
  World.run Completion.sampleConnectors (sampleGet "heir") sampleStart.world

/-- What is exchanged until the resource is there. -/
def sampleReading : List Event :=
  (World.trace Completion.sampleConnectors (sampleGet "heir") sampleStart.world).map (.asked 0)

/-- Nothing else happens meanwhile. -/
def sampleHeld : State := sampleStart.move sampleGot.2 0 none

/-- Then someone gets its template. -/
def sampleOther : Except ProvisioningError Resource × World :=
  World.run Completion.sampleConnectors (sampleGet "directory") sampleHeld.world

/-- What is exchanged until the template is there. -/
def sampleTrace : List Exchange :=
  World.trace Completion.sampleConnectors (sampleGet "directory") sampleHeld.world

/-- All that happens after the resource was got. -/
def sampleLater : List Event :=
  .started 1 default (.get "directory" false) ::
    (sampleTrace.map (.asked 1) ++ [.finished 1 (.get "directory" false) sampleOther.1])

theorem run_sampleGot : Run { templateLimit := 3 } (fun _ _ => False) sampleStart
    ([] ++ .started 0 default (.get "heir" false) ::
      (sampleReading ++ [.finished 0 (.get "heir" false) sampleGot.1])) sampleHeld :=
  run_alone _ _ _ _ _ rfl

theorem run_sampleLater : Run { templateLimit := 3 } (fun _ _ => False) sampleHeld sampleLater
    (sampleHeld.move sampleOther.2 1 none) :=
  run_alone _ _ _ _ _ rfl

theorem sampleLater_calm (oids : List String) : ∀ e ∈ sampleLater, ¬ e.Disturbs oids := by
  have hgentle : ∀ x ∈ sampleTrace, x.request.isGentle = true := by decide +kernel
  refine List.forall_mem_cons.2 ⟨id, List.forall_mem_append.2 ⟨fun e he => ?_, ?_⟩⟩
  · obtain ⟨x, hx, rfl⟩ := List.mem_map.1 he
    exact Exchange.not_disturbs_of_isGentle (hgentle x hx) oids
  · exact List.forall_mem_singleton.2 id

/-- After that, the resource is got again although no connector can be reached. -/
theorem get_after_get_sample : ∃ d, sampleGot.1 = .ok d ∧
    (World.run (fun _ _ => .error (.unreachable "no route")) (sampleGet "heir")
      sampleOther.2).1 = .ok d := by
  obtain ⟨d, hd⟩ : ∃ d, sampleGot.1 = .ok d := by
    have hok : sampleGot.1.toOption.isSome = true := by decide +kernel
    cases hgot : sampleGot.1 with
    | ok d => exact ⟨d, rfl⟩
    | error e =>
      rw [hgot] at hok
      cases hok
  have hfirst := run_sampleGot
  rw [hd] at hfirst
  have hothers : ∀ j c op, .started j c op ∈ sampleLater → ¬ op.Meddles "heir" := by
    intro j c op hop
    rcases List.mem_cons.1 hop with hop | hop
    · cases hop
      exact id
    · simp at hop
  refine ⟨d, hd, ?_⟩
  exact (get_after_get (fun _ _ _ h => h) rfl rfl hfirst (Event.isOf_of_mem_map 0 _) run_sampleLater
    (.operation (Event.isOf_of_mem_map 1 _) .nil) hothers (sampleLater_calm _)).1 default false _

end Interleaving

end Reconciler
