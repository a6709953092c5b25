/-
What the cache holds, told from what was put into it and dropped since.

* `CacheEntry.Proper`: an entry under the OID of its resource, with its versions, which is
  completed;
* `DefinitionCache.Has`: a resource is in the cache;
* `DefinitionCache.Takes`, `DefinitionCache.Drops`: what one request changes, and what it leaves;
* `Event.Ends`: an event replaces or drops a resource;
* `LastPut`: a resource was put into the cache last, and stayed.

Main statements:
* `DefinitionCache.has_answer_iff`: what one request does to everything that the cache has;
* `Interleaving.Run.has_iff`: the cache has just what was put last, in any history;
* `Interleaving.represents_last_put`: all of it, up to what is handed out.

Design notes:
* A cached resource can go in four ways: another is put in its place, it or a template of it is
  dropped, everything is dropped, or what has its version is evicted.
* What is handed out was there when it was looked for; it may be gone when it arrives.
-/
import Reconciler.Proofs.Cache.Deletion

namespace Reconciler

open Program

/-- An entry sits under the OID of its resource, has its versions, and is completed. -/
structure CacheEntry.Proper (oid : String) (e : CacheEntry) : Prop extends e.Tagged oid where
  completed : e.definition.isCompleted = true

namespace Event

/-- What was put into the cache at an event. -/
def put? : Event → Option Resource
  | asked _ ⟨.cache (.put d _), .stored⟩ => some d
  | _ => none

/-- What was handed out of the cache to an operation that finished at an event. -/
def handed? : Event → Option (Nat × String × Version × Resource)
  | finished id (.cachedAt oid v) (.ok (some d)) => some (id, oid, v, d)
  | _ => none

theorem handed?_eq_some {e : Event} {id : Nat} {oid : String} {v : Version} {d : Resource}
    (h : e.handed? = some (id, oid, v, d)) :
    e = .finished id (.cachedAt oid v) (.ok (some d)) := by
  unfold handed? at h
  split at h
  · cases h
    rfl
  · cases h

/-- A cached resource is replaced or dropped at an event. -/
inductive Ends (d : Resource) (e : Event) : Prop where
  | replaced {other : Resource} (h : e.put? = some other) (hoid : other.oid = d.oid)
  | dropped (h : e.Invalidates (DefinitionCache.sources d))
  | stale {id : Nat} (h : e = .asked id ⟨.cache (.evict d.oid d.version), ()⟩)

end Event

/-! ### Requests -/

namespace DefinitionCache

variable {c : DefinitionCache} {now : Instant} {d other : Resource} {oid : String}

/-- A resource is in the cache. -/
def Has (c : DefinitionCache) (d : Resource) : Prop :=
  ∃ e, c.find? d.oid = some e ∧ e.definition = d

/-- All entries are proper. -/
def Proper (c : DefinitionCache) : Prop :=
  ∀ oid e, c.find? oid = some e → e.Proper oid

theorem proper_of_empty (h : ∀ oid, c.find? oid = none) : c.Proper := by
  intro oid e he
  rw [h oid] at he
  cases he

theorem isCompleted_of_outcomeOf {since : Option Ticket} (h : c.outcomeOf d since = .stored) :
    d.isCompleted = true := by
  unfold outcomeOf at h
  cases hd : d.isCompleted with
  | true => rfl
  | false =>
    rw [hd] at h
    cases h

theorem Proper.answer (h : c.Proper) (now : Instant) (r : CacheRequest) :
    (c.answer now r).2.Proper := by
  intro oid e he
  rcases find?_answer he with he | ⟨d, since, -, hstored, rfl, rfl⟩
  · exact h oid e he
  · exact ⟨⟨rfl, rfl, rfl⟩, isCompleted_of_outcomeOf hstored⟩

/-- What is stored is no older than what was there. -/
theorem not_lt_of_outcomeOf {since : Option Ticket} (h : c.outcomeOf d since = .stored)
    {e : CacheEntry} (he : c.find? d.oid = some e) : ¬ d.version < e.sourceVersion := by
  intro hlt
  unfold outcomeOf at h
  split at h
  · cases h
  · split at h
    · cases h
    · rw [he] at h
      dsimp only at h
      rw [if_pos hlt] at h
      cases h

theorem has_put_iff {since : Option Ticket} (h : (c.put now other since).1 = .stored) :
    (c.put now other since).2.Has d ↔ other = d ∨ c.Has d ∧ other.oid ≠ d.oid := by
  unfold Has
  rw [find?_put h]
  by_cases hoid : d.oid = other.oid
  · rw [if_pos hoid]
    constructor
    · rintro ⟨e, he, rfl⟩
      cases he
      exact .inl rfl
    · rintro (rfl | ⟨-, hne⟩)
      · exact ⟨_, rfl, rfl⟩
      · exact absurd hoid.symm hne
  · rw [if_neg hoid]
    constructor
    · exact fun h => .inr ⟨h, Ne.symm hoid⟩
    · rintro (rfl | ⟨h, -⟩)
      · exact absurd rfl hoid
      · exact h

/-- A resource is put into a cache: it takes one slot, which gets no older, and no others. -/
structure Takes (c c' : DefinitionCache) (d : Resource) : Prop where
  has : c'.Has d
  others : ∀ key, key ≠ d.oid → c'.find? key = c.find? key
  notOlder : ∀ e, c.find? d.oid = some e →
    ∃ e', c'.find? d.oid = some e' ∧ e.sourceVersion ≤ e'.sourceVersion

theorem takes_put {since : Option Ticket} (h : (c.put now d since).1 = .stored) :
    c.Takes (c.put now d since).2 d where
  has := (has_put_iff h).2 (.inl rfl)
  others key hkey := (find?_put h key).trans (if_neg hkey)
  notOlder _ he :=
    ⟨.of d now, (find?_put h d.oid).trans (if_pos rfl), Nat.not_lt.1 (not_lt_of_outcomeOf h he)⟩

theorem has_evict_iff (h : c.Proper) (version : Version) :
    (c.evict oid version).Has d ↔ c.Has d ∧ ¬ (oid = d.oid ∧ version = d.version) := by
  unfold Has
  rw [find?_evict]
  by_cases hoid : d.oid = oid
  · subst hoid
    rw [if_pos rfl]
    constructor
    · rintro ⟨e, he, rfl⟩
      obtain ⟨he, hversion⟩ := Option.filter_eq_some_iff.1 he
      refine ⟨⟨e, he, rfl⟩, fun ⟨_, hv⟩ => ?_⟩
      have htagged : e.definition.version = e.sourceVersion := (h _ e he).version_eq
      rw [hv, htagged] at hversion
      simp at hversion
    · rintro ⟨⟨e, he, rfl⟩, hne⟩
      refine ⟨e, Option.filter_eq_some_iff.2 ⟨he, ?_⟩, rfl⟩
      have htagged : e.definition.version = e.sourceVersion := (h _ e he).version_eq
      simp only [bne_iff_ne, ne_eq]
      rw [← htagged]
      exact fun hv => hne ⟨rfl, hv.symm⟩
  · rw [if_neg hoid]
    exact ⟨fun h => ⟨h, fun hboth => hoid hboth.1.symm⟩, And.left⟩

theorem mem_sources_iff :
    oid ∈ sources d ↔ oid = d.oid ∨ d.ancestorVersions.contains oid = true := by
  rw [sources, List.mem_cons]
  exact or_congr_right SortedMap.mem_keys_iff

theorem has_invalidate_iff (h : c.Proper) :
    (c.invalidate oid).2.Has d ↔ c.Has d ∧ oid ∉ sources d := by
  unfold Has
  rw [find?_invalidate, mem_sources_iff, not_or]
  by_cases hoid : d.oid = oid
  · subst hoid
    rw [if_pos rfl]
    constructor
    · rintro ⟨e, he, -⟩
      cases he
    · rintro ⟨-, hne, -⟩
      exact absurd rfl hne
  · rw [if_neg hoid]
    constructor
    · rintro ⟨e, he, rfl⟩
      obtain ⟨he, hfree⟩ := Option.filter_eq_some_iff.1 he
      refine ⟨⟨e, he, rfl⟩, Ne.symm hoid, ?_⟩
      rw [(h _ e he).ancestors_eq]
      simpa using hfree
    · rintro ⟨⟨e, he, rfl⟩, -, hfree⟩
      rw [(h _ e he).ancestors_eq] at hfree
      exact ⟨e, Option.filter_eq_some_iff.2 ⟨he, by simpa using hfree⟩, rfl⟩

/-- A resource is dropped from a cache: nothing that depends on it is left, and all else stays. -/
structure Drops (c c' : DefinitionCache) (oid : String) : Prop where
  without : c'.Without oid
  others : ∀ key, key ≠ oid →
    (∀ e, c.find? key = some e → e.ancestorVersions.contains oid = false) →
      c'.find? key = c.find? key

theorem drops_invalidate (c : DefinitionCache) (oid : String) :
    c.Drops (c.invalidate oid).2 oid where
  without := c.without_invalidate oid
  others key hkey hfree := by
    rw [find?_invalidate, if_neg hkey]
    cases he : c.find? key with
    | none => rfl
    | some e => exact Option.filter_eq_some_iff.2 ⟨rfl, by rw [hfree e he]; rfl⟩

end DefinitionCache

/-! ### Events -/

/-- A resource was put into the cache, and neither replaced nor dropped since. -/
def LastPut (events : List Event) (d : Resource) : Prop :=
  ∃ before e after, events = before ++ e :: after ∧ e.put? = some d ∧
    ∀ e' ∈ after, ¬ e'.Ends d

theorem lastPut_nil (d : Resource) : ¬ LastPut [] d := by
  rintro ⟨before, e, after, he, -⟩
  exact List.append_ne_nil_of_right_ne_nil before (List.cons_ne_nil e after) he.symm

/-- What was put last is what is put now, or was put last before and does not end now. -/
theorem lastPut_concat_iff {events : List Event} {e : Event} {d : Resource} :
    LastPut (events ++ [e]) d ↔ e.put? = some d ∨ LastPut events d ∧ ¬ e.Ends d := by
  constructor
  · rintro ⟨before, e', after, he, hput, hafter⟩
    rcases List.eq_nil_or_concat after with rfl | ⟨after, last, rfl⟩
    · obtain ⟨-, hlast⟩ := List.append_inj' he rfl
      cases hlast
      exact .inl hput
    · rw [List.concat_eq_append] at he hafter
      rw [← List.cons_append, ← List.append_assoc] at he
      obtain ⟨rfl, hlast⟩ := List.append_inj' he rfl
      cases hlast
      obtain ⟨hafter, hlast⟩ := List.forall_mem_append.1 hafter
      exact .inr ⟨⟨before, e', after, rfl, hput, hafter⟩, hlast e (List.mem_singleton.2 rfl)⟩
  · rintro (hput | ⟨⟨before, e', after, rfl, hput, hafter⟩, hstays⟩)
    · exact ⟨events, e, [], rfl, hput, List.forall_mem_nil _⟩
    · refine ⟨before, e', after ++ [e], by simp, hput, ?_⟩
      exact List.forall_mem_append.2 ⟨hafter, List.forall_mem_singleton.2 hstays⟩

namespace Event

variable {id : Nat} {r : CacheRequest} {reply : r.Reply} {d : Resource}

theorem ends_asked_iff :
    Ends d (.asked id ⟨.cache r, reply⟩) ↔
      (∃ other, put? (.asked id ⟨.cache r, reply⟩) = some other ∧ other.oid = d.oid) ∨
        r.Invalidates (DefinitionCache.sources d) ∨ r = .evict d.oid d.version := by
  constructor
  · rintro (⟨h, hoid⟩ | ⟨r', hr, h⟩ | h)
    · exact .inl ⟨_, h, hoid⟩
    · cases hr
      exact .inr (.inl h)
    · cases h
      exact .inr (.inr rfl)
  · rintro (⟨other, h, hoid⟩ | h | rfl)
    · exact .replaced h hoid
    · exact .dropped ⟨r, rfl, h⟩
    · exact .stale rfl

theorem put?_asked_put (id : Nat) (other : Resource) (since : Option Ticket)
    (outcome : PutOutcome) :
    put? (.asked id ⟨.cache (.put other since), outcome⟩) =
      if outcome = .stored then some other else none := by
  cases outcome <;> rfl

/-- Only at the cache something can be put there. -/
theorem put?_eq_none {e : Event} (h : ∀ id r reply, e ≠ .asked id ⟨.cache r, reply⟩) :
    e.put? = none := by
  unfold put?
  split
  · exact absurd rfl (h _ _ _)
  · rfl

theorem not_ends {e : Event} (h : ∀ id r reply, e ≠ .asked id ⟨.cache r, reply⟩) :
    ¬ e.Ends d := by
  rintro (⟨hput, -⟩ | hdropped | hstale)
  · rw [put?_eq_none h] at hput
    cases hput
  · cases e with
    | asked id x =>
      obtain ⟨request, reply⟩ := x
      obtain ⟨r, hr, -⟩ := hdropped
      cases hr
      exact h id r reply rfl
    | _ => exact hdropped
  · exact h _ _ _ hstale

end Event

/-- After a request the cache has what was put by it, and what it had before and did not end. -/
theorem DefinitionCache.has_answer_iff {c : DefinitionCache} (h : c.Proper) (now : Instant)
    (id : Nat) (r : CacheRequest) (d : Resource) :
    (c.answer now r).2.Has d ↔
      Event.put? (.asked id ⟨.cache r, (c.answer now r).1⟩) = some d ∨
        c.Has d ∧ ¬ Event.Ends d (.asked id ⟨.cache r, (c.answer now r).1⟩) := by
  rw [Event.ends_asked_iff]
  cases r with
  | ticket => simp [answer, Event.put?, CacheRequest.Invalidates]
  | find oid => simp [answer, Event.put?, CacheRequest.Invalidates]
  | put other since =>
    rw [Event.put?_asked_put]
    by_cases hstored : (c.put now other since).1 = .stored
    · have hreply : (c.answer now (.put other since)).1 = .stored := hstored
      rw [if_pos hreply]
      simp [answer, CacheRequest.Invalidates, has_put_iff hstored]
    · have hreply : (c.answer now (.put other since)).1 ≠ .stored := hstored
      rw [if_neg hreply]
      simp [answer, CacheRequest.Invalidates, put_eq_of_ne_stored hstored]
  | evict oid version =>
    simp [answer, Event.put?, CacheRequest.Invalidates, has_evict_iff h]
  | invalidate oid =>
    simp [answer, Event.put?, CacheRequest.Invalidates, has_invalidate_iff h]
  | invalidateAll =>
    have hnone : ¬ c.invalidateAll.2.Has d := by
      rintro ⟨e, he, -⟩
      cases he
    simp [answer, Event.put?, CacheRequest.Invalidates, hnone]

namespace Interleaving

variable {sv : Service} {outages : Outages} {s t : State} {e : Event} {events : List Event}
variable {d : Resource}

theorem Step.properCache (h : Step sv outages s e t) (hs : s.world.cache.Proper) :
    t.world.cache.Proper := by
  rcases h.cache with ⟨_, r, now, -, ht⟩ | ⟨-, ht⟩
  · rw [ht]
    exact hs.answer now r
  · rw [ht]
    exact hs

/-- After an event the cache has what was put at it, and what it had before and did not end. -/
theorem Step.has_iff (h : Step sv outages s e t) (hs : s.world.cache.Proper) :
    t.world.cache.Has d ↔ e.put? = some d ∨ s.world.cache.Has d ∧ ¬ e.Ends d := by
  rcases h.cache with ⟨id, r, now, rfl, ht⟩ | ⟨hno, ht⟩
  · rw [ht]
    exact DefinitionCache.has_answer_iff hs now id r d
  · rw [ht, Event.put?_eq_none hno]
    simp [Event.not_ends hno]

theorem Run.properCache (h : Run sv outages s events t) (hs : s.world.cache.Proper) :
    t.world.cache.Proper := by
  induction h with
  | nil => exact hs
  | cons step _ ih => exact ih (step.properCache hs)

/-- **The cache has just what was put last.** -/
theorem Run.has_iff (h : Run sv outages s events t)
    (hempty : ∀ oid, s.world.cache.find? oid = none) :
    t.world.cache.Has d ↔ LastPut events d := by
  induction events using List.reverseRecOn generalizing t with
  | nil =>
    cases h
    refine iff_of_false ?_ (lastPut_nil d)
    rintro ⟨e, he, -⟩
    rw [hempty] at he
    cases he
  | append_singleton events e ih =>
    obtain ⟨m, hrun, step⟩ := run_concat_iff.1 h
    have hproper : m.world.cache.Proper :=
      hrun.properCache (DefinitionCache.proper_of_empty hempty)
    rw [step.has_iff hproper, ih hrun, lastPut_concat_iff]

/-! ### Single steps at the cache -/

variable {id : Nat} {oid : String} {since : Option Ticket} {outcome : PutOutcome}

/-- What is offered is put into the cache as it is then. -/
theorem Step.exists_put (h : Step sv outages s (.asked id ⟨.cache (.put d since), outcome⟩) t) :
    ∃ now, outcome = (s.world.cache.put now d since).1 ∧
      t.world.cache = (s.world.cache.put now d since).2 := by
  rcases h.cache with ⟨_, r, now, he, ht⟩ | ⟨hno, -⟩
  · cases he
    exact ⟨now, rfl, ht⟩
  · exact absurd rfl (hno id (.put d since) outcome)

/-- What is refused changes nothing. -/
theorem Step.of_put (h : Step sv outages s (.asked id ⟨.cache (.put d since), outcome⟩) t) :
    (outcome = .stored → s.world.cache.Takes t.world.cache d) ∧
      (outcome ≠ .stored → t.world.cache = s.world.cache) := by
  obtain ⟨now, rfl, ht⟩ := h.exists_put
  rw [ht]
  exact ⟨DefinitionCache.takes_put, DefinitionCache.put_eq_of_ne_stored⟩

theorem Step.of_invalidate {dropped : Dropped}
    (h : Step sv outages s (.asked id ⟨.cache (.invalidate oid), dropped⟩) t) :
    s.world.cache.Drops t.world.cache oid := by
  rcases h.cache with ⟨_, r, now, he, ht⟩ | ⟨hno, -⟩
  · cases he
    rw [ht]
    exact s.world.cache.drops_invalidate oid
  · exact absurd rfl (hno id (.invalidate oid) dropped)

end Interleaving

/-! ### What is handed out -/

/-- What is handed out for a version was found with it. -/
theorem Definitions.find_of_reaches_at? {oid : String} {v : Version} {trace : List Exchange}
    {d : Resource} (h : (at? oid v).Reaches trace (.done (some d))) :
    ∃ e more, trace = ⟨.cache (.find oid), some e⟩ :: more ∧ e.definition = d ∧
      e.sourceVersion = v := by
  rw [← yields_nil_iff] at h
  obtain ⟨_, _, ⟨found, more, rfl, rfl, rfl⟩, h⟩ := yields_bind_iff.1 h
  cases found with
  | none =>
    obtain ⟨_, _, _, he, _⟩ := h
    cases he
  | some e =>
    dsimp only at h
    split at h
    · next hv =>
      obtain ⟨_, _, _, he, _⟩ := h
      cases he
      exact ⟨e, _, rfl, rfl, hv⟩
    · obtain ⟨_, _, _, he, _⟩ := h
      cases he

namespace Interleaving

variable {sv : Service} {outages : Outages} {s t : State} {events : List Event}
variable {d : Resource} {id : Nat} {oid : String} {v : Version}

/-- What was handed out was put last when it was looked for. -/
theorem Run.lastPut_of_finished {before after : List Event}
    (h : Run sv outages s (before ++ .finished id (.cachedAt oid v) (.ok (some d)) :: after) t)
    (hempty : ∀ oid, s.world.cache.find? oid = none) (hidle : ∀ id, s.underWay id = none) :
    d.oid = oid ∧ d.version = v ∧ d.isCompleted = true ∧
      ∃ seen e later, before = seen ++ .asked id ⟨.cache (.find oid), some e⟩ :: later ∧
        e.definition = d ∧ LastPut seen d := by
  obtain ⟨m, n, hbefore, step, -⟩ := h.exists_step
  have hunder : m.underWay id = some
      ⟨.cachedAt oid v, .done (.ok (some d) : Except ProvisioningError (Option Resource))⟩ := by
    cases step with
    | finish h => exact h
  obtain ⟨early, c, since, rfl, -, hreaches⟩ := hbefore.exists_started hidle hunder
  obtain ⟨first, rest, found, hsplit, hat, hend⟩ := reaches_bind_done_iff.1 hreaches
  cases hend
  obtain ⟨e, more, rfl, rfl, rfl⟩ := Definitions.find_of_reaches_at? hat
  have hfirst : Event.exchangesOf id since =
      [] ++ ⟨.cache (.find oid), some e⟩ :: (more ++ []) := hsplit
  obtain ⟨seen, later, rfl, -, -⟩ := Event.exists_of_exchangesOf_eq hfirst
  have hsplit : early ++ .started id c (.cachedAt oid e.sourceVersion) ::
      (seen ++ .asked id ⟨.cache (.find oid), some e⟩ :: later) =
      (early ++ .started id c (.cachedAt oid e.sourceVersion) :: seen) ++
        .asked id ⟨.cache (.find oid), some e⟩ :: later := by simp
  rw [hsplit] at hbefore
  obtain ⟨w, _, hseen, hfind, -⟩ := hbefore.exists_step
  have hproper : w.world.cache.Proper :=
    hseen.properCache (DefinitionCache.proper_of_empty hempty)
  have hentry : w.world.cache.find? oid = some e := hfind.find?_eq
  obtain ⟨⟨hoid, hversion, -⟩, hcompleted⟩ := hproper oid e hentry
  refine ⟨hoid, hversion, hcompleted, _, e, later, hsplit, rfl, ?_⟩
  exact (hseen.has_iff hempty).1 ⟨e, by rw [hoid, hentry], rfl⟩

/-- **The cache represents what was put last**, in any history that starts with an empty one.  Every
entry is proper, and what the cache has is what was put last and stayed; what is put makes no slot
older, and what is refused changes nothing; what is dropped takes with it just what depends on it;
and what is handed out for a version was put last, and has that version. -/
theorem represents_last_put (hempty : ∀ oid, s.world.cache.find? oid = none)
    (hidle : ∀ id, s.underWay id = none) (hrun : Run sv outages s events t) :
    t.world.cache.Proper ∧ (∀ d, t.world.cache.Has d ↔ LastPut events d) ∧
      (∀ id d since outcome u,
        Step sv outages t (.asked id ⟨.cache (.put d since), outcome⟩) u →
          (outcome = .stored → t.world.cache.Takes u.world.cache d) ∧
            (outcome ≠ .stored → u.world.cache = t.world.cache)) ∧
      (∀ id oid dropped u,
        Step sv outages t (.asked id ⟨.cache (.invalidate oid), dropped⟩) u →
          t.world.cache.Drops u.world.cache oid) ∧
      ∀ before after id oid v d,
        events = before ++ .finished id (.cachedAt oid v) (.ok (some d)) :: after →
          d.oid = oid ∧ d.version = v ∧ d.isCompleted = true ∧
            ∃ seen e later, before = seen ++ .asked id ⟨.cache (.find oid), some e⟩ :: later ∧
              e.definition = d ∧ LastPut seen d := by
  refine ⟨hrun.properCache (DefinitionCache.proper_of_empty hempty), fun d => hrun.has_iff hempty,
    fun id d since outcome u step => step.of_put, fun id oid dropped u step => step.of_invalidate,
    ?_⟩
  rintro before after id oid v d rfl
  exact hrun.lastPut_of_finished hempty hidle

/-- A completed resource is put into the cache, and handed out. -/
def sampleHanding : List Event × State :=
  State.play { templateLimit := 3 } (fun _ _ => .error default) ⟨{}, fun _ => none⟩
    (.start 0 default (.atCache (.put sampleCompleted none)) :: List.replicate 2 (.go 0) ++
      .start 1 default (.cachedAt "child" .initial) :: List.replicate 3 (.go 1))

/-- What is handed out was put last. -/
theorem represents_last_put_sample : ∃ before after t,
    Run { templateLimit := 3 } (fun _ _ => False) ⟨{}, fun _ => none⟩
      (before ++ .finished 1 (.cachedAt "child" .initial) (.ok (some sampleCompleted)) :: after) t ∧
    sampleCompleted.isCompleted = true ∧
      ∃ seen, seen <+: before ∧ LastPut seen sampleCompleted := by
  have hrun : Run { templateLimit := 3 } (fun _ _ => False) ⟨{}, fun _ => none⟩ sampleHanding.1
      sampleHanding.2 := run_play _ _ _ _ _
  have hhanded : (1, "child", Version.initial, sampleCompleted) ∈
      sampleHanding.1.filterMap Event.handed? := by decide +kernel
  obtain ⟨e, he, hhanded⟩ := List.mem_filterMap.1 hhanded
  obtain ⟨before, after, hevents⟩ := List.append_of_mem he
  rw [Event.handed?_eq_some hhanded] at hevents
  rw [hevents] at hrun
  obtain ⟨-, -, -, -, hget⟩ := represents_last_put (fun _ => rfl) (fun _ => rfl) hrun
  obtain ⟨-, -, hcompleted, seen, _, _, rfl, -, hlast⟩ := hget _ _ _ _ _ _ rfl
  exact ⟨_, after, _, hrun, hcompleted, seen, List.prefix_append .., hlast⟩

end Interleaving

end Reconciler
