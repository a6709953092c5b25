/-
Where the entries of the cache come from, in any history.

* `Interleaving.State.Fresh`: nothing is under way, nothing cached, and nothing stored is completed;
* `Interleaving.Ordinary`: nothing completed is added, and only what was shown is given to complete;
* `Interleaving.Sound`: what a history leaves behind.

Main statements:
* `Interleaving.Step.entry_cases`: an entry was there before an event, or is what it put there;
* `Interleaving.Run.sound`: an ordinary history gives proper answers, and all entries were put;
* `Interleaving.Run.exists_backed`: what was put was offered by an operation that had what it goes
  by;
* `Interleaving.Run.exists_shown_of_find?`: all versions that an entry notes were shown before.

Design notes:
* A resource that is stored as completed may note any versions of any templates; it is cached as it
  is, and nothing said here would hold of it.
-/
import Reconciler.Proofs.Cache.Admission
import Reconciler.Proofs.Cache.Offers

namespace Reconciler

/-! ### Single steps -/

namespace Event

/-- The resources that the repository showed at an event. -/
def shown : Event → List Resource
  | asked _ x => x.shown
  | _ => []

/-- What is given to complete at an event. -/
def brought? : Event → Option Resource
  | started _ _ op => op.brought?
  | _ => none

/-- Nothing is put into the cache from outside, and nothing completed into the repository. -/
def isPlain : Event → Bool
  | started _ _ (.atCache (.put _ _)) => false
  | asked _ ⟨.store (.add r), .ok _⟩ => !r.isCompleted
  | _ => true

end Event

theorem DefinitionCache.find?_answer {c : DefinitionCache} {now : Instant} {r : CacheRequest}
    {oid : String} {entry : CacheEntry} (h : (c.answer now r).2.find? oid = some entry) :
    c.find? oid = some entry ∨
      ∃ d since, r = .put d since ∧ c.outcomeOf d since = .stored ∧ d.oid = oid ∧
        entry = .of d now := by
  cases r with
  | ticket => exact .inl h
  | find key => exact .inl h
  | put d since =>
    by_cases hstored : (c.put now d since).1 = .stored
    · have hfind : (c.put now d since).2.find? oid = some entry := h
      rw [find?_put hstored] at hfind
      split at hfind
      · next he =>
        cases hfind
        exact .inr ⟨d, since, rfl, hstored, he.symm, rfl⟩
      · exact .inl hfind
    · have hfind : (c.put now d since).2.find? oid = some entry := h
      rw [put_eq_of_ne_stored hstored] at hfind
      exact .inl hfind
  | evict key version =>
    have hfind : (c.evict key version).find? oid = some entry := h
    rw [find?_evict] at hfind
    split at hfind
    · next he => exact .inl (he ▸ (Option.filter_eq_some_iff.1 hfind).1)
    · exact .inl hfind
  | invalidate key =>
    have hfind : (c.invalidate key).2.find? oid = some entry := h
    rw [find?_invalidate] at hfind
    split at hfind
    · cases hfind
    · exact .inl (Option.filter_eq_some_iff.1 hfind).1
  | invalidateAll =>
    have hfind : c.invalidateAll.2.find? oid = some entry := h
    rw [find?_invalidateAll] at hfind
    cases hfind

theorem ResourceChange.completionStatus_apply (r : Resource) (change : ResourceChange) :
    (change.apply r).completionStatus = r.completionStatus := by
  cases change <;> rfl

theorem Store.completionStatus_changed (r : Resource) (changes : List ResourceChange) :
    (Store.changed r changes).completionStatus = r.completionStatus := by
  have hfold : (changes.foldl ResourceChange.apply r).completionStatus = r.completionStatus := by
    induction changes generalizing r with
    | nil => rfl
    | cons change rest ih =>
      rw [List.foldl_cons, ih]
      exact change.completionStatus_apply r
  exact hfold

namespace Interleaving

variable {sv : Service} {outages : Outages} {s t : State} {e : Event} {events : List Event}
variable {oid : String} {entry : CacheEntry}

/-- An entry was there before, or is what the event put there. -/
theorem Step.entry_cases (h : Step sv outages s e t)
    (hentry : t.world.cache.find? oid = some entry) :
    s.world.cache.find? oid = some entry ∨
      ∃ id d since now, e = .asked id ⟨.cache (.put d since), .stored⟩ ∧
        s.world.cache.outcomeOf d since = .stored ∧ d.oid = oid ∧ entry = .of d now := by
  rcases h.cache with ⟨id, r, now, rfl, hcache⟩ | ⟨-, hcache⟩
  · rw [hcache] at hentry
    refine (DefinitionCache.find?_answer hentry).imp_right ?_
    rintro ⟨d, since, rfl, hstored, hoid, hof⟩
    have hreply : (s.world.cache.answer now (.put d since)).1 = .stored := hstored
    exact ⟨id, d, since, now, by rw [hreply], hstored, hoid, hof⟩
  · rw [hcache] at hentry
    exact .inl hentry

/-- The cache answers with what it has. -/
theorem Step.find?_eq {id : Nat} {found : Option CacheEntry}
    (h : Step sv outages s (.asked id ⟨.cache (.find oid), found⟩) t) :
    s.world.cache.find? oid = found := by
  rcases h.cache with ⟨_, r, now, he, -⟩ | ⟨hno, -⟩
  · cases he
    rfl
  · exact absurd rfl (hno id (.find oid) found)

/-! ### Ordinary histories -/

/-- Nothing is under way, nothing is cached, and nothing that is stored is completed. -/
structure State.Fresh (s : State) : Prop where
  idle : ∀ id, s.underWay id = none
  cache_eq : s.world.cache = {}
  raw : ∀ oid r, s.world.store.find? oid = some r → r.isCompleted = false

/-- Operations do what callers may do: nothing is put into the cache from outside, nothing completed
is added, and only what the repository showed before is given to complete. -/
structure Ordinary (events : List Event) : Prop where
  plain : ∀ e ∈ events, e.isPlain = true
  given : ∀ before e after, events = before ++ e :: after →
    ∀ raw, e.brought? = some raw → ∃ shown ∈ before, raw ∈ shown.shown

/-- A plain history in which nothing is given to complete is ordinary. -/
theorem ordinary_of_brought_eq_nil (hplain : ∀ e ∈ events, e.isPlain = true)
    (hbrought : events.filterMap Event.brought? = []) : Ordinary events where
  plain := hplain
  given before e after he raw hraw := by
    have hmem : e ∈ events := he ▸ List.mem_append_right _ List.mem_cons_self
    rw [List.filterMap_eq_nil_iff.1 hbrought e hmem] at hraw
    cases hraw

theorem Ordinary.of_append {later : List Event} (h : Ordinary (events ++ later)) :
    Ordinary events where
  plain e he := h.plain e (List.mem_append_left _ he)
  given before e after he := by
    refine h.given before e (after ++ later) ?_
    rw [he, List.append_assoc]
    rfl

/-- What a history leaves behind: nothing completed in the repository, proper answers, and entries
that were all put into the cache. -/
structure Sound (events : List Event) (t : State) : Prop where
  raw : ∀ oid r, t.world.store.find? oid = some r → r.isCompleted = false
  proper : ∀ id x, .asked id x ∈ events → x.Proper
  entries : ∀ oid entry, t.world.cache.find? oid = some entry → ∃ id d since now,
    .asked id ⟨.cache (.put d since), .stored⟩ ∈ events ∧ d.oid = oid ∧ entry = .of d now

theorem Sound.tagged (h : Sound events t) (hentry : t.world.cache.find? oid = some entry) :
    entry.Tagged oid := by
  obtain ⟨id, d, since, now, -, hoid, rfl⟩ := h.entries oid entry hentry
  exact ⟨hoid, rfl, rfl⟩

theorem Step.raw (h : Step sv outages s e t) (he : e.isPlain = true)
    (hraw : ∀ oid r, s.world.store.find? oid = some r → r.isCompleted = false) :
    ∀ oid r, t.world.store.find? oid = some r → r.isCompleted = false := by
  intro oid r hr
  rcases h.store_cases with ⟨hstore, -⟩ | ⟨_, x, key, fresh, rfl, hadd⟩ |
    ⟨_, key, changes, v, rfl, hmodify⟩ | ⟨_, key, rfl, hdelete⟩
  · exact hraw oid r (hstore ▸ hr)
  · rw [Store.read_add hadd] at hr
    split at hr
    · cases hr
      have hx : (!x.isCompleted) = true := he
      show x.isCompleted = false
      simpa using hx
    · exact hraw oid r hr
  · rw [Store.read_modify hmodify] at hr
    split at hr
    · obtain ⟨before, hbefore, rfl⟩ := Option.map_eq_some_iff.1 hr
      rw [Resource.isCompleted, Store.completionStatus_changed]
      exact hraw key before hbefore
    · exact hraw oid r hr
  · rw [Store.read_delete hdelete] at hr
    split at hr
    · cases hr
    · exact hraw oid r hr

/-- After a sound history, answers are proper. -/
theorem Step.proper {id : Nat} {x : Exchange} (h : Step sv outages s (.asked id x) t)
    (hs : Sound events s) : x.Proper where
  raw r hr := hs.raw r.oid r (h.find?_of_mem_shown hr)
  keyed oid r hx := by
    subst hx
    exact Store.oid_of_find? h.find?_of_read
  tagged oid entry hx := by
    subst hx
    exact hs.tagged h.find?_eq

/-- What an ordinary history leaves behind. -/
theorem Run.sound (h : Run sv outages s events t) (hs : s.Fresh) (hordinary : Ordinary events) :
    Sound events t := by
  -- An answer is proper because of what the history before it left behind.
  induction events using List.reverseRecOn generalizing t with
  | nil =>
    cases h
    refine ⟨hs.raw, fun id x hx => ?_, fun oid entry hentry => ?_⟩
    · cases hx
    · rw [hs.cache_eq] at hentry
      cases hentry
  | append_singleton events e ih =>
    obtain ⟨m, hrun, step⟩ := run_concat_iff.1 h
    have hm : Sound events m := ih hrun hordinary.of_append
    have hplain : e.isPlain = true := hordinary.plain e (List.mem_append_right _ List.mem_cons_self)
    refine ⟨step.raw hplain hm.raw, fun id x hx => ?_, fun oid entry hentry => ?_⟩
    · rcases List.mem_append.1 hx with hx | hx
      · exact hm.proper id x hx
      · cases List.mem_singleton.1 hx
        exact step.proper hm
    · rcases step.entry_cases hentry with hbefore | ⟨id, d, since, now, rfl, -, hoid, hof⟩
      · obtain ⟨id, d, since, now, hput, hd⟩ := hm.entries oid entry hbefore
        exact ⟨id, d, since, now, List.mem_append_left _ hput, hd⟩
      · exact ⟨id, d, since, now, List.mem_append_right _ List.mem_cons_self, hoid, hof⟩

/-! ### Offers in histories -/

variable {id : Nat} {d : Resource} {since : Option Ticket} {outcome : PutOutcome}
variable {before after : List Event}

/-- Whoever offers something had what it goes by. -/
theorem Run.exists_backed
    (h : Run sv outages s (before ++ .asked id ⟨.cache (.put d since), outcome⟩ :: after) t)
    (hs : s.Fresh)
    (hordinary : Ordinary (before ++ .asked id ⟨.cache (.put d since), outcome⟩ :: after)) :
    ∃ early c op late, before = early ++ .started id c op :: late ∧
      Backed (op.brought? = some ·) (Event.exchangesOf id late) d since := by
  obtain ⟨m, n, hbefore, step, -⟩ := h.exists_step
  have hsound : Sound before m := hbefore.sound hs hordinary.of_append
  obtain ⟨op, next, hunder⟩ : ∃ op next,
      m.underWay id = some ⟨op, .ask (.cache (.put d since)) next⟩ := by
    cases step with
    | ask h _ => exact ⟨_, _, h⟩
  -- The operation goes by what it was given at its start and by what was exchanged since.
  obtain ⟨early, c, late, rfl, hlate, hreaches⟩ := hbefore.exists_started hs.idle hunder
  have hdirect : ∀ d since, op ≠ .atCache (.put d since) := by
    rintro d since rfl
    have hplain := hordinary.plain (.started id c (.atCache (.put d since))) (by simp)
    cases hplain
  have hraw : ∀ r, op.brought? = some r → r.isCompleted = false := by
    intro r hr
    obtain ⟨e, he, hshown⟩ := hordinary.of_append.given early _ late rfl r hr
    cases e with
    | asked j x => exact (hsound.proper j x (List.mem_append_left _ he)).raw r hshown
    | _ => cases hshown
  have hproper : ∀ x ∈ Event.exchangesOf id late, x.Proper := fun x hx =>
    hsound.proper id x (List.mem_append_right _
      (List.mem_cons_of_mem _ (Event.mem_exchangesOf.1 hx)))
  have hmeets := (op.meets sv c hdirect hraw).of_reaches hreaches hproper
  exact ⟨early, c, op, late, rfl, hmeets.1 d since rfl⟩

/-- All versions that an entry notes were shown before. -/
theorem Run.exists_shown_of_find? (h : Run sv outages s events t) (hs : s.Fresh)
    (hordinary : Ordinary events) (hentry : t.world.cache.find? oid = some entry) :
    (∃ e ∈ events, ∃ r ∈ e.shown, r.oid = oid ∧ r.version = entry.sourceVersion) ∧
      ∀ p ∈ entry.ancestorVersions.entries,
        ∃ e ∈ events, ∃ r ∈ e.shown, r.oid = p.1 ∧ r.version = p.2 := by
  obtain ⟨id, d, since, now, hput, rfl, rfl⟩ := (h.sound hs hordinary).entries oid entry hentry
  obtain ⟨before, after, rfl⟩ := List.append_of_mem hput
  obtain ⟨early, c, op, late, rfl, hbacked⟩ := h.exists_backed hs hordinary
  -- Whatever the operation was shown is an event of the history.
  have hshown : ∀ x ∈ Event.exchangesOf id late, ∀ r ∈ x.shown,
      ∃ e ∈ early ++ .started id c op :: late ++
        .asked id ⟨.cache (.put d since), .stored⟩ :: after, r ∈ e.shown := by
    intro x hx r hr
    refine ⟨.asked id x, List.mem_append_left _ (List.mem_append_right _ ?_), hr⟩
    exact List.mem_cons_of_mem _ (Event.mem_exchangesOf.1 hx)
  constructor
  · obtain ⟨r, hbrought | ⟨x, hx, hr⟩, hoid, hversion⟩ := hbacked.own
    · obtain ⟨e, he, hr⟩ := hordinary.of_append.given early _ late rfl r hbrought
      exact ⟨e, List.mem_append_left _ (List.mem_append_left _ he), r, hr, hoid, hversion⟩
    · obtain ⟨e, he, hr⟩ := hshown x hx r hr
      exact ⟨e, he, r, hr, hoid, hversion⟩
  · intro p hp
    obtain ⟨x, hx, r, hr, hoid, hversion⟩ := hbacked.templates p hp
    obtain ⟨e, he, hr⟩ := hshown x hx r hr
    exact ⟨e, he, r, hr, hoid, hversion⟩

/-- A resource and its template are stored. -/
def sampleStart : State where
  world := { store := (Store.empty.put Completion.sampleTemplate).put Completion.sampleHeir }
  underWay _ := none

theorem find?_sampleStart {r : Resource} (hr : sampleStart.world.store.find? oid = some r) :
    r = Completion.sampleHeir ∨ r = Completion.sampleTemplate := by
  rw [sampleStart, Store.find?_put, Store.find?_put] at hr
  split at hr
  · exact .inl (Option.some.inj hr).symm
  · split at hr
    · exact .inr (Option.some.inj hr).symm
    · cases hr

theorem fresh_sampleStart : sampleStart.Fresh where
  idle _ := rfl
  cache_eq := rfl
  raw oid r hr := by rcases find?_sampleStart hr with rfl | rfl <;> rfl

end Interleaving

end Reconciler
