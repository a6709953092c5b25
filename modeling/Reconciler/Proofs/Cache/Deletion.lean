/-
What the cache has of a resource after it was deleted.

A deletion drops the resource and all that used it as a template from the cache, and only then
deletes it from the repository.  Whoever was shown the resource before that may offer something made
of it at any time later.  The offer is refused if it goes by a ticket that was taken before the
resource was dropped, and taken otherwise.

* `DefinitionCache.Without`: nothing in the cache depends on a resource;
* `Interleaving.Behind`: a resource was deleted, and nobody who had seen it goes by a later ticket.

Main statements:
* `Interleaving.Run.exists_deletion`: a deletion that succeeds has dropped the resource before;
* `Interleaving.Run.not_handed_out`: what depends on something that is gone is not handed out;
* `Interleaving.Run.not_mem_sources`: what is behind is no source of anything that is put in;
* `Interleaving.deleted_stays_out`: so nothing in the cache depends on it from then on;
* `Interleaving.deleted_gets_back`: a search that had seen the resource puts it back.

Design notes:
* Who reads a resource takes a ticket first.  A search takes its tickets one by one after it has
  seen all that it is to complete; and a ticket may be taken while the deletion is under way.
* Operations are told apart by their numbers; one that takes over a number counts as the same here.
-/
import Reconciler.Proofs.Cache.Origins

namespace Reconciler

open Program

/-! ### What depends on a resource -/

/-- Nothing in the cache is a resource or has used it as a template. -/
def DefinitionCache.Without (c : DefinitionCache) (oid : String) : Prop :=
  ∀ key entry, c.find? key = some entry →
    key ≠ oid ∧ entry.ancestorVersions.contains oid = false

theorem DefinitionCache.without_invalidate (c : DefinitionCache) (oid : String) :
    (c.invalidate oid).2.Without oid := by
  intro key entry hentry
  rw [find?_invalidate] at hentry
  split at hentry
  · cases hentry
  · next hne =>
    have hfree := (Option.filter_eq_some_iff.1 hentry).2
    exact ⟨hne, by simpa using hfree⟩

/-- What is no source of a resource is neither itself nor a template of it. -/
theorem DefinitionCache.not_mem_sources {d : Resource} {oid : String} (h : oid ∉ sources d) :
    d.oid ≠ oid ∧ d.ancestorVersions.contains oid = false := by
  rw [sources, List.mem_cons, not_or] at h
  obtain ⟨hown, hkeys⟩ := h
  refine ⟨Ne.symm hown, ?_⟩
  rw [← Bool.not_eq_true]
  exact fun hcontains => hkeys (SortedMap.mem_keys_iff.2 hcontains)

/-- What an offer is made of was given to an operation, or shown to it. -/
theorem Backed.had_source {brought : Resource → Prop} {past : List Exchange} {d : Resource}
    {since : Option Ticket} (h : Backed brought past d since) {oid : String}
    (hoid : oid ∈ DefinitionCache.sources d) : ∃ r, Had brought past r ∧ r.oid = oid := by
  rcases List.mem_cons.1 hoid with rfl | htemplate
  · obtain ⟨r, hr, he, -⟩ := h.own
    exact ⟨r, hr, he⟩
  · obtain ⟨p, hp, rfl⟩ := List.mem_map.1 htemplate
    obtain ⟨x, hx, r, hr, he, -⟩ := h.templates p hp
    exact ⟨r, .inr ⟨x, hx, hr⟩, he⟩

/-! ### The course of a deletion -/

/-- A deletion that succeeds has the cache drop the resource, and the repository delete it last. -/
theorem Service.exists_of_reaches_delete {c : Caller} {oid : String} {trace : List Exchange}
    (h : (delete c oid).run.Reaches trace (.done (.ok ()))) :
    ∃ before dropped between, trace = before ++ ⟨.cache (.invalidate oid), dropped⟩ ::
      (between ++ [⟨.store (.delete oid), .ok ()⟩]) := by
  obtain ⟨_, _, hremark, h⟩ := yields_lift_bind_iff.1 (yields_nil_iff.2 h)
  obtain ⟨remarked, _, rfl, -, rfl⟩ := hremark
  obtain ⟨_, _, hinvalidate, reply, _, rfl, hreply, rfl⟩ := yields_lift_bind_iff.1 h
  obtain ⟨_, _, hdrop, hremark⟩ := yields_bind_iff.1 hinvalidate
  obtain ⟨dropped, _, rfl, rfl, rfl⟩ := hdrop
  cases reply with
  | error e => cases hreply
  | ok _ =>
    refine ⟨[⟨_, remarked⟩], dropped, ?_⟩
    -- That something was dropped may have been remarked on.
    split at hremark
    · obtain ⟨said, _, rfl, -, rfl⟩ := hremark
      exact ⟨[⟨_, said⟩], rfl⟩
    · obtain ⟨-, rfl⟩ := hremark
      exact ⟨[], rfl⟩

namespace Event

/-- A resource and all that used it as a template are dropped from the cache. -/
abbrev drop (id : Nat) (oid : String) (dropped : Dropped) : Event :=
  asked id ⟨.cache (.invalidate oid), dropped⟩

/-- A resource is deleted from the repository. -/
abbrev delete (id : Nat) (oid : String) : Event := asked id ⟨.store (.delete oid), .ok ()⟩

/-- The resource that was deleted successfully, and by which operation. -/
def deleted? : Event → Option (Nat × String)
  | finished id (.delete oid) (.ok ()) => some (id, oid)
  | _ => none

/-- What is started is to get, to search or to delete something. -/
def readsOrDeletes : Event → Bool
  | started _ _ (.get _ _) => true
  | started _ _ (.search _ _) => true
  | started _ _ (.delete _) => true
  | started _ _ _ => false
  | _ => true

/-- Something is dropped from the cache. -/
def isDrop : Event → Bool
  | asked _ ⟨.cache (.invalidate _), _⟩ => true
  | _ => false

/-- A ticket is taken. -/
def isTicket : Event → Bool
  | asked _ ⟨.cache .ticket, _⟩ => true
  | _ => false

/-- An offer is refused because of what was dropped. -/
def isRefused : Event → Bool
  | asked _ ⟨.cache (.put _ _), .invalidated⟩ => true
  | _ => false

theorem deleted?_eq_some {e : Event} {id : Nat} {oid : String} (h : e.deleted? = some (id, oid)) :
    e = finished id (.delete oid) (.ok ()) := by
  unfold deleted? at h
  split at h
  · cases h
    rfl
  · cases h

end Event

namespace Interleaving

variable {sv : Service} {outages : Outages} {s t : State} {e : Event} {id : Nat} {oid : String}
variable {events early between late : List Event} {dropped : Dropped}

/-- A deletion that succeeds has dropped the resource from the cache before it deleted it. -/
theorem Run.exists_deletion (h : Run sv outages s events t) (hidle : ∀ id, s.underWay id = none)
    (hfinished : .finished id (.delete oid) (.ok ()) ∈ events) :
    ∃ early dropped between late, events =
      early ++ .drop id oid dropped :: (between ++ .delete id oid :: late) := by
  obtain ⟨past, rest, rfl⟩ := List.append_of_mem hfinished
  obtain ⟨m, n, hpast, hfinish, -⟩ := h.exists_step
  have hm : m.underWay id = some ⟨.delete oid, .done (.ok ())⟩ := by
    cases hfinish with
    | finish hm => exact hm
  obtain ⟨before, c, since, rfl, -, hreaches⟩ := hpast.exists_started hidle hm
  -- What was exchanged since the start shows both requests in their order.
  obtain ⟨_, dropped, _, htrace⟩ := Service.exists_of_reaches_delete hreaches
  obtain ⟨first, second, rfl, -, hsecond⟩ := Event.exists_of_exchangesOf_eq htrace
  obtain ⟨between, last, rfl, -, -⟩ := Event.exists_of_exchangesOf_eq hsecond
  refine ⟨before ++ .started id c (.delete oid) :: first, dropped, between,
    last ++ .finished id (.delete oid) (.ok ()) :: rest, ?_⟩
  simp

/-! ### The repository after a deletion -/

/-- What is deleted is gone. -/
theorem Step.find?_of_delete (h : Step sv outages s (.delete id oid) t) :
    t.world.store.find? oid = none := by
  rcases h.store_cases with ⟨-, hno⟩ | ⟨_, _, _, _, he, -⟩ | ⟨_, _, _, _, he, -⟩ |
    ⟨_, key, he, hdelete⟩
  · exact absurd rfl (hno id oid)
  · cases he
  · cases he
  · cases he
    rw [Store.read_delete hdelete, if_pos rfl]

/-- What is gone stays gone unless it is added. -/
theorem Step.absent (h : Step sv outages s e t) (hs : s.world.store.find? oid = none)
    (hadd : ∀ id x, e ≠ .asked id ⟨.store (.add x), .ok oid⟩) :
    t.world.store.find? oid = none := by
  rcases h.store_cases with ⟨hstore, -⟩ | ⟨j, x, key, fresh, rfl, hstore⟩ |
    ⟨_, key, changes, v, -, hmodify⟩ | ⟨_, key, -, hdelete⟩
  · rw [hstore, hs]
  · have hne : oid ≠ key := by
      rintro rfl
      exact hadd j x rfl
    rw [Store.read_add hstore, if_neg hne, hs]
  · rw [Store.read_modify hmodify]
    split
    · next he => rw [← he, hs, Option.map_none]
    · exact hs
  · rw [Store.read_delete hdelete, hs, ite_self]

theorem Run.absent (h : Run sv outages s events t) (hs : s.world.store.find? oid = none)
    (hadd : ∀ id x, .asked id ⟨.store (.add x), .ok oid⟩ ∉ events) :
    t.world.store.find? oid = none := by
  induction h with
  | nil => exact hs
  | cons step _ ih =>
    refine ih (step.absent hs fun id x he => hadd id x ?_) fun id x hx => hadd id x ?_
    · exact he ▸ List.mem_cons_self
    · exact List.mem_cons_of_mem _ hx

/-- Nothing is told of what is gone. -/
theorem Run.not_sees (h : Run sv outages s events t) (hs : s.world.store.find? oid = none)
    (hadd : ∀ id x, .asked id ⟨.store (.add x), .ok oid⟩ ∉ events) {x : Exchange}
    (hx : .asked id x ∈ events) (v : Version) : ¬ x.Sees oid v := by
  intro hsees
  obtain ⟨first, second, rfl⟩ := List.append_of_mem hx
  obtain ⟨m, n, hfirst, step, -⟩ := h.exists_step
  have hm : m.world.store.find? oid = none :=
    hfirst.absent hs fun id x hx => hadd id x (List.mem_append_left _ hx)
  have hversion := step.version_of_sees hsees
  rw [hm] at hversion
  cases hversion

/-- What depends on something that is gone is not handed out, though it be in the cache. -/
theorem Run.not_handed_out (h : Run sv outages s events t) (hs : s.world.store.find? oid = none)
    (hadd : ∀ id x, .asked id ⟨.store (.add x), .ok oid⟩ ∉ events) {c : Caller} {key : String}
    {d : Resource} (hanswers : (Definitions.latest? c key).run.Reaches
      (Event.exchangesOf id events) (.done (.ok (some d)))) :
    ∃ entry : CacheEntry, entry.definition = d ∧ key ≠ oid ∧
      entry.ancestorVersions.contains oid = false := by
  obtain ⟨entry, checks, rfl, htrace, hchecks⟩ :=
    Definitions.exists_checks_of_yields (yields_nil_iff.2 hanswers)
  have htold : ∀ v, ⟨.store (.version oid), .ok v⟩ ∉ Event.exchangesOf id events :=
    fun v hv => h.not_sees hs hadd (Event.mem_exchangesOf.1 hv) v (.inr rfl)
  rw [htrace] at htold
  refine ⟨entry, rfl, ?_, ?_⟩
  · rintro rfl
    exact htold _ (List.mem_cons_of_mem _ List.mem_cons_self)
  · cases hused : entry.ancestorVersions.get? oid with
    | none =>
      rw [SortedMap.contains, hused]
      rfl
    | some v =>
      -- The versions of templates are asked for, too.
      have hcheck := List.mem_append_left [] (hchecks _ (SortedMap.mem_entries_iff.2 hused))
      exact absurd (List.mem_cons_of_mem _ (List.mem_cons_of_mem _ hcheck)) (htold v)

/-! ### The cache after a deletion -/

/-- What the cache does without stays out as long as nothing that depends on it is put in. -/
theorem Step.without (h : Step sv outages s e t) (hs : s.world.cache.Without oid)
    (hput : ∀ id d since, e = .asked id ⟨.cache (.put d since), .stored⟩ →
      oid ∉ DefinitionCache.sources d) : t.world.cache.Without oid := by
  intro key entry hentry
  rcases h.entry_cases hentry with hbefore | ⟨id, d, since, now, rfl, -, rfl, rfl⟩
  · exact hs key entry hbefore
  · exact DefinitionCache.not_mem_sources (hput id d since rfl)

theorem Run.without (h : Run sv outages s events t) (hs : s.world.cache.Without oid)
    (hput : ∀ id d since, .asked id ⟨.cache (.put d since), .stored⟩ ∈ events →
      oid ∉ DefinitionCache.sources d) : t.world.cache.Without oid := by
  induction h with
  | nil => exact hs
  | cons step _ ih =>
    refine ih (step.without hs fun id d since he => hput id d since ?_) fun id d since hd =>
      hput id d since ?_
    · exact he ▸ List.mem_cons_self
    · exact List.mem_cons_of_mem _ hd

/-- When it has dropped a resource, the cache does without. -/
theorem Step.without_of_drop (h : Step sv outages s (.drop id oid dropped) t) :
    t.world.cache.Without oid := by
  rcases h.cache with ⟨_, r, now, he, hcache⟩ | ⟨hno, -⟩
  · cases he
    rw [hcache]
    exact s.world.cache.without_invalidate oid
  · exact absurd rfl (hno id (.invalidate oid) dropped)

/-- What goes by a ticket that was taken before a source of it was dropped is refused. -/
theorem Run.ne_stored_of_ticket {m n : State} {j : Nat} {d : Resource} {ticket : Ticket}
    {outcome : PutOutcome} {after : List Event}
    (h : Run sv outages s (early ++ .drop id oid dropped :: after) m)
    (hs : s.world.cache.invalidations.Counted)
    (hticket : .asked j ⟨.cache .ticket, ticket⟩ ∈ early)
    (hput : Step sv outages m (.asked j ⟨.cache (.put d (some ticket)), outcome⟩) n)
    (hoid : oid ∈ DefinitionCache.sources d) : outcome ≠ .stored := by
  obtain ⟨first, second, rfl⟩ := List.append_of_mem hticket
  have hrun : Run sv outages s (first ++ .asked j ⟨.cache .ticket, ticket⟩ ::
      (second ++ .drop id oid dropped :: after)) m := by simpa using h
  have hinvalidated : m.world.cache.invalidations.since ticket (DefinitionCache.sources d) = true :=
    (hrun.since_ticket_iff hs).2 ⟨.drop id oid dropped, by simp, _, rfl, hoid⟩
  rintro rfl
  exact ((DefinitionCache.outcomeOf_eq_stored_iff _ d ticket).1 hput.put.1.symm).2.1 hinvalidated

/-- Nobody who was shown a resource before it was deleted takes a ticket after it was dropped, and
it is not added again. -/
structure Behind (oid : String) (early between late : List Event) : Prop where
  apart : ∀ id x ticket, .asked id x ∈ early ++ between → (∃ r ∈ x.shown, r.oid = oid) →
    .asked id ⟨.cache .ticket, ticket⟩ ∉ between ++ late
  gone : ∀ id x, .asked id ⟨.store (.add x), .ok oid⟩ ∉ late

/-- The resource was shown before it was deleted, if at all. -/
theorem Run.shown_before {j : Nat} {x : Exchange} {r : Resource}
    (h : Run sv outages s (early ++ .drop id oid dropped :: (between ++ .delete id oid :: late)) t)
    (hgone : ∀ id x, .asked id ⟨.store (.add x), .ok oid⟩ ∉ late)
    (hx : .asked j x ∈ early ++ .drop id oid dropped :: (between ++ .delete id oid :: late))
    (hr : r ∈ x.shown) (hoid : r.oid = oid) : .asked j x ∈ early ++ between := by
  rw [List.append_cons, ← List.append_assoc] at h
  obtain ⟨m, n, -, hdelete, hlate⟩ := h.exists_step
  -- The deletion itself shows nothing, and after it there is nothing left to show.
  rcases List.mem_append.1 hx with hx | hx
  · exact List.mem_append_left _ hx
  rcases List.mem_cons.1 hx with he | hx
  · cases he
    cases hr
  rcases List.mem_append.1 hx with hx | hx
  · exact List.mem_append_right _ hx
  rcases List.mem_cons.1 hx with he | hx
  · cases he
    cases hr
  · have hsees : x.Sees oid r.version := hoid ▸ Exchange.sees_of_mem_shown hr
    exact absurd hsees (hlate.not_sees hdelete.find?_of_delete hgone hx r.version)

/-- What is behind is no source of anything that is put into the cache. -/
theorem Run.not_mem_sources {j : Nat} {d : Resource} {since : Option Ticket}
    (h : Run sv outages s (early ++ .drop id oid dropped :: (between ++ .delete id oid :: late)) t)
    (hs : s.Fresh)
    (hordinary : Ordinary (early ++ .drop id oid dropped :: (between ++ .delete id oid :: late)))
    (hgiven : ∀ e ∈ early ++ .drop id oid dropped :: (between ++ .delete id oid :: late),
      ∀ r, e.brought? = some r → r.oid ≠ oid)
    (hbehind : Behind oid early between late)
    (hput : .asked j ⟨.cache (.put d since), .stored⟩ ∈ between ++ .delete id oid :: late) :
    oid ∉ DefinitionCache.sources d := by
  intro hoid
  obtain ⟨first, second, hsplit⟩ := List.append_of_mem hput
  have hall : early ++ .drop id oid dropped :: (between ++ .delete id oid :: late) =
      (early ++ .drop id oid dropped :: first) ++
        .asked j ⟨.cache (.put d since), .stored⟩ :: second := by
    rw [hsplit, List.append_assoc]
    rfl
  have hrun := h
  rw [hall] at hrun hordinary
  obtain ⟨start, c, op, past, hpast, hbacked⟩ := hrun.exists_backed hs hordinary
  have hmem : ∀ x ∈ Event.exchangesOf j past,
      .asked j x ∈ early ++ .drop id oid dropped :: first := by
    intro x hx
    rw [hpast]
    exact List.mem_append_right _ (List.mem_cons_of_mem _ (Event.mem_exchangesOf.1 hx))
  obtain ⟨ticket, rfl, hticket⟩ := hbacked.ticket
  -- The ticket was taken after the drop, or else the offer would have been refused.
  have hlate : .asked j ⟨.cache .ticket, ticket⟩ ∈ between ++ late := by
    rcases List.mem_append.1 (hmem _ hticket) with hearly | hafter
    · obtain ⟨m, n, hbefore, step, -⟩ := hrun.exists_step
      have hcounted : s.world.cache.invalidations.Counted :=
        hs.cache_eq ▸ Invalidations.counted_new
      exact absurd rfl (hbefore.ne_stored_of_ticket hcounted hearly step hoid)
    · have hfirst : .asked j ⟨.cache .ticket, ticket⟩ ∈ between ++ .delete id oid :: late := by
        rw [hsplit]
        refine List.mem_append_left _ ((List.mem_cons.1 hafter).resolve_left fun he => ?_)
        cases he
      simpa using hfirst
  -- Whoever offers had the resource, and was thus shown it before it was deleted.
  obtain ⟨r, hbrought | ⟨x, hx, hr⟩, hroid⟩ := hbacked.had_source hoid
  · refine hgiven (.started j c op) ?_ r hbrought hroid
    rw [hall, hpast]
    exact List.mem_append_left _ (List.mem_append_right _ List.mem_cons_self)
  · refine hbehind.apart j x ticket (h.shown_before hbehind.gone ?_ hr hroid) ⟨r, hr, hroid⟩ hlate
    rw [hall]
    exact List.mem_append_left _ (hmem x hx)

/-- **A deleted resource stays out of the cache.**  A deletion that succeeds has dropped the
resource before it deleted it; and if nobody who was shown the resource before it was deleted takes
a ticket after it was dropped, nothing in the cache depends on it from then on. -/
theorem deleted_stays_out (h : Run sv outages s events t) (hs : s.Fresh)
    (hordinary : Ordinary events)
    (hgiven : ∀ e ∈ events, ∀ r, e.brought? = some r → r.oid ≠ oid)
    (hfinished : .finished id (.delete oid) (.ok ()) ∈ events) :
    (∃ early dropped between late,
      events = early ++ .drop id oid dropped :: (between ++ .delete id oid :: late)) ∧
      ∀ early dropped between late,
        events = early ++ .drop id oid dropped :: (between ++ .delete id oid :: late) →
        Behind oid early between late → t.world.cache.Without oid := by
  refine ⟨h.exists_deletion hs.idle hfinished, ?_⟩
  rintro early dropped between late rfl hbehind
  obtain ⟨m, n, -, hdrop, hafter⟩ := h.exists_step
  exact hafter.without hdrop.without_of_drop fun j d since hput =>
    h.not_mem_sources hs hordinary hgiven hbehind hput

/-- If no ticket is taken after a drop, and nothing is written, what is deleted is behind. -/
theorem Behind.of_ordered
    (hordered : (early ++ .drop id oid dropped :: (between ++ .delete id oid :: late)).Pairwise
      fun a b => a.isDrop = true → b.isTicket = false)
    (hwrites : (early ++ .drop id oid dropped :: (between ++ .delete id oid :: late)).filterMap
      Event.write? = []) : Behind oid early between late where
  apart j x ticket _ _ hticket := by
    have hlater : Event.asked j ⟨.cache .ticket, ticket⟩ ∈ between ++ .delete id oid :: late :=
      (List.mem_append.1 hticket).elim (List.mem_append_left _)
        fun h => List.mem_append_right _ (List.mem_cons_of_mem _ h)
    have hafter := (List.pairwise_cons.1 (List.pairwise_append.1 hordered).2.1).1 _ hlater rfl
    cases hafter
  gone j x hx := by
    have hevent : Event.asked j ⟨.store (.add x), .ok oid⟩ ∈
        early ++ .drop id oid dropped :: (between ++ .delete id oid :: late) := by simp [hx]
    have hnone := List.filterMap_eq_nil_iff.1 hwrites _ hevent
    cases hnone

/-- A resource is got, and when that has been read which it takes, its template is deleted. -/
def sampleRace : List Event × State :=
  sampleStart.play { templateLimit := 3 } Completion.sampleConnectors
    (.start 0 default (.get "heir" false) :: List.replicate 10 (.go 0) ++
      .start 1 default (.delete "directory") :: List.replicate 4 (.go 1) ++
      List.replicate 20 (.go 0))

/-- The ticket had been taken before the template was dropped, and the offer is refused. -/
theorem deleted_stays_out_sample : ∃ events t,
    Run { templateLimit := 3 } (fun _ _ => False) sampleStart events t ∧
    .finished 1 (.delete "directory") (.ok ()) ∈ events ∧
    events.any Event.isRefused = true ∧ t.world.cache.Without "directory" := by
  have hrun : Run { templateLimit := 3 } (fun _ _ => False) sampleStart sampleRace.1 sampleRace.2 :=
    run_play _ _ _ _ _
  have hbrought : sampleRace.1.filterMap Event.brought? = [] := by decide +kernel
  have hordinary : Ordinary sampleRace.1 :=
    ordinary_of_brought_eq_nil (by decide +kernel) hbrought
  have hgiven : ∀ e ∈ sampleRace.1, ∀ r, e.brought? = some r → r.oid ≠ "directory" := by
    intro e he r hr
    rw [List.filterMap_eq_nil_iff.1 hbrought e he] at hr
    cases hr
  have hfinished : .finished 1 (.delete "directory") (.ok ()) ∈ sampleRace.1 := by
    have hdeleted : (1, "directory") ∈ sampleRace.1.filterMap Event.deleted? := by decide +kernel
    obtain ⟨e, he, h⟩ := List.mem_filterMap.1 hdeleted
    exact Event.deleted?_eq_some h ▸ he
  obtain ⟨⟨early, dropped, between, late, hsplit⟩, hwithout⟩ :=
    deleted_stays_out hrun fresh_sampleStart hordinary hgiven hfinished
  -- No ticket is taken after the drop, so that the deletion is behind.
  have hordered : sampleRace.1.Pairwise fun a b => a.isDrop = true → b.isTicket = false := by
    decide +kernel
  have hwrites : sampleRace.1.filterMap Event.write? = [] := by decide +kernel
  have hbehind : Behind "directory" early between late :=
    .of_ordered (hsplit ▸ hordered) (hsplit ▸ hwrites)
  exact ⟨sampleRace.1, sampleRace.2, hrun, hfinished, by decide +kernel,
    hwithout early dropped between late hsplit hbehind⟩

/-- A search has found both, and completes them when the template was deleted. -/
def sampleSearch : List Event × State :=
  sampleStart.play { templateLimit := 3 } Completion.sampleConnectors
    (.start 0 default (.search {} false) :: .go 0 ::
      .start 1 default (.delete "directory") :: List.replicate 4 (.go 1) ++
      List.replicate 30 (.go 0))

/-- What had been found by a search before it was deleted gets back into the cache afterwards: the
ticket is taken when the resource is already gone. -/
theorem deleted_gets_back : ∃ events t,
    Run { templateLimit := 3 } (fun _ _ => False) sampleStart events t ∧ sampleStart.Fresh ∧
    (∀ e ∈ events, e.readsOrDeletes = true) ∧ events.filterMap Event.write? = [] ∧
    .finished 1 (.delete "directory") (.ok ()) ∈ events ∧
    t.world.store.find? "directory" = none ∧
    ∃ entry, t.world.cache.find? "directory" = some entry := by
  have hdeleted : (1, "directory") ∈ sampleSearch.1.filterMap Event.deleted? := by decide +kernel
  obtain ⟨e, he, h⟩ := List.mem_filterMap.1 hdeleted
  refine ⟨sampleSearch.1, sampleSearch.2, run_play _ _ _ _ _, fresh_sampleStart, by decide +kernel,
    by decide +kernel, Event.deleted?_eq_some h ▸ he, ?_, Option.isSome_iff_exists.1 ?_⟩
  · exact Option.isNone_iff_eq_none.1 (by decide +kernel)
  · decide +kernel

/-- The same happens to what is got while the deletion is between the cache and the repository. -/
example : ((sampleStart.play { templateLimit := 3 } Completion.sampleConnectors
    (.start 1 default (.delete "directory") :: List.replicate 2 (.go 1) ++
      .start 0 default (.get "heir" false) :: List.replicate 10 (.go 0) ++
      List.replicate 4 (.go 1) ++ List.replicate 20 (.go 0))).2.world.cache.find? "heir").map
        (fun entry => entry.ancestorVersions.contains "directory") = some true := by
  decide +kernel

end Interleaving

end Reconciler
