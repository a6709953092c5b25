/-
What is dropped from the cache when an entry turns out to be stale.

Whoever wants the latest resource looks into the cache once, and then asks the repository for one
version after another.  Others may put another entry in the place of the one that was found, before
that is dropped.

* `Exchange.TellsVersion`: the repository told which version a resource has, if it has one;
* `CacheEntry.FoundStale`: some version that an entry notes was told to be another by now;
* `Definitions.Evicts`: what is dropped has the version of an entry that was found, and found to be
  stale.

Main statements:
* `Definitions.latest?_evicts`: nothing is asked of the cache but this;
* `Interleaving.Run.entry_cases`: an entry was there before a history, or was put there in it;
* `Interleaving.evicted_iff`: what is dropped has the version of what was found, and is either the
  same or was put in its place meanwhile;
* `Interleaving.fresh_evicted`: what was put in its place may be current.

Design notes:
* Only the own version of what was found is told to the cache.  What was completed anew since a
  template changed has the same.
-/
import Reconciler.Proofs.Cache.Freshness
import Reconciler.Proofs.Cache.Representation
import Reconciler.Proofs.Marking

namespace Reconciler

open Program

/-! ### Stale entries -/

/-- The repository told which version a resource has, or that there is no such resource. -/
def Exchange.TellsVersion (x : Exchange) (oid : String) : Option Version → Prop
  | some v => x = ⟨.store (.version oid), .ok v⟩
  | none => ∃ type key, x = ⟨.store (.version oid), .error (.notFound type key)⟩

/-- One of these versions was told to be another by now. -/
def Outdated (used : List (String × Version)) (checks : List Exchange) : Prop :=
  ∃ p ∈ used, ∃ x ∈ checks, ∃ current, x.TellsVersion p.1 current ∧ current ≠ some p.2

/-- The version of the entry or that of a template was told to be another by now. -/
def CacheEntry.FoundStale (e : CacheEntry) (oid : String) (checks : List Exchange) : Prop :=
  Outdated ((oid, e.sourceVersion) :: e.ancestorVersions.entries) checks

instance (e : CacheEntry) (s : Store) (oid : String) : Decidable (e.Current s oid) :=
  decidable_of_iff
    ((s.find? oid).map Resource.version = some e.sourceVersion ∧
      ∀ p ∈ e.ancestorVersions.entries, (s.find? p.1).map Resource.version = some p.2)
    ⟨fun ⟨hown, htemplates⟩ =>
      ⟨hown, fun x v hv => htemplates (x, v) (SortedMap.mem_entries_iff.2 hv)⟩,
    fun h => ⟨h.own, fun p hp => h.templates p.1 p.2 (SortedMap.mem_entries_iff.1 hp)⟩⟩

theorem Outdated.mono {used more : List (String × Version)} {checks later : List Exchange}
    (h : Outdated used checks) (hused : used ⊆ more) (hchecks : checks ⊆ later) :
    Outdated more later := by
  obtain ⟨p, hp, x, hx, hrest⟩ := h
  exact ⟨p, hused hp, x, hchecks hx, hrest⟩

namespace Definitions

variable {c : Caller} {oid : String} {trace rest past : List Exchange}

theorem tells_of_yields_currentVersion? {current : Option Version}
    (h : (currentVersion? oid).run.Yields trace (.ok current) rest) :
    ∃ x, trace = x :: rest ∧ x.TellsVersion oid current := by
  obtain ⟨reply, more, rfl, h⟩ := h
  cases reply with
  | ok v =>
    obtain ⟨he, rfl⟩ := h
    cases he
    exact ⟨_, rfl, rfl⟩
  | error e =>
    cases e with
    | notFound type key =>
      obtain ⟨he, rfl⟩ := h
      cases he
      exact ⟨_, rfl, type, key, rfl⟩
    | _ =>
      obtain ⟨he, -⟩ := h
      cases he

theorem outdated_of_yields_templatesAreCurrent {used : List (String × Version)}
    (h : (templatesAreCurrent c oid used).run.Yields trace (.ok false) rest) :
    Outdated used trace := by
  induction used generalizing trace with
  | nil =>
    obtain ⟨he, -⟩ := h
    cases he
  | cons p used ih =>
    obtain ⟨template, v⟩ := p
    rcases yields_action_bind_iff.1 h with ⟨_, -, he⟩ | ⟨current, more, hcurrent, hlater⟩
    · cases he
    obtain ⟨x, rfl, hx⟩ := tells_of_yields_currentVersion? hcurrent
    split at hlater
    · exact (ih hlater).mono (List.subset_cons_self ..) (List.subset_cons_self ..)
    · next hv => exact ⟨_, List.mem_cons_self, x, List.mem_cons_self, current, hx, hv⟩

/-- An entry counts as stale when some version was told to be another. -/
theorem foundStale_of_yields_isCurrent {e : CacheEntry}
    (h : (isCurrent c oid e).run.Yields trace (.ok false) rest) : e.FoundStale oid trace := by
  rcases yields_action_bind_iff.1 h with ⟨_, -, he⟩ | ⟨current, more, hcurrent, hlater⟩
  · cases he
  obtain ⟨x, rfl, hx⟩ := tells_of_yields_currentVersion? hcurrent
  split at hlater
  · exact (outdated_of_yields_templatesAreCurrent hlater).mono (List.subset_cons_self ..)
      (List.subset_cons_self ..)
  · next hv => exact ⟨_, List.mem_cons_self, x, List.mem_cons_self, current, hx, hv⟩

/-- The request looks at the cache and at versions; or it drops an entry under the version of the
one that was found at first, which was found to be stale since. -/
structure Evicts (oid : String) (past : List Exchange) (r : Request) : Prop where
  looks : r.Looks
  stale : ∀ key v, r = .cache (.evict key v) → key = oid ∧ ∃ found checks,
    past = ⟨.cache (.find oid), some found⟩ :: checks ∧ v = found.sourceVersion ∧
      found.FoundStale oid checks

theorem evicts_of_checksVersions {r : Request} (h : r.ChecksVersions) : Evicts oid past r where
  looks := h.looks
  stale key v he := by
    subst he
    exact h.elim

/-- Whoever wants the latest drops at most what has the version of an entry that was found to be
stale. -/
theorem latest?_evicts (c : Caller) (oid : String) :
    (latest? c oid).run.Meets (fun _ => True) (Evicts oid) (fun _ _ => True) [] := by
  refine ⟨⟨trivial, fun _ _ he => by cases he⟩, fun found _ => ?_⟩
  cases found with
  | none => exact ⟨evicts_of_checksVersions trivial, fun _ _ => trivial⟩
  | some e =>
    have hcurrent : (isCurrent c oid e).run.Meets (fun _ => True) (Evicts oid)
        (fun past outcome => ∃ checks, past = ⟨.cache (.find oid), some e⟩ :: checks ∧
          (outcome = .ok false → e.FoundStale oid checks)) [⟨.cache (.find oid), some e⟩] := by
      refine .of_asks (checksVersions_isCurrent c oid e) (fun _ _ => evicts_of_checksVersions)
        fun trace outcome h _ => ⟨trace, rfl, ?_⟩
      rintro rfl
      exact foundStale_of_yields_isCurrent (yields_nil_iff.2 h)
    refine .action_bind hcurrent (fun later current hlater => ?_) fun _ _ _ => trivial
    obtain ⟨checks, hpast, hstale⟩ := hlater
    cases current with
    | true => exact ⟨evicts_of_checksVersions trivial, fun _ _ => trivial⟩
    | false =>
      refine ⟨⟨trivial, fun key v he => ?_⟩, fun _ _ => ⟨evicts_of_checksVersions trivial,
        fun _ _ => trivial⟩⟩
      cases he
      exact ⟨rfl, e, checks, hpast, rfl, hstale rfl⟩

end Definitions

/-! ### Histories -/

/-- What was found in the cache at an event. -/
def Event.found? : Event → Option (Nat × String × CacheEntry)
  | asked id ⟨.cache (.find oid), some e⟩ => some (id, oid, e)
  | _ => none

theorem Event.found?_eq_some {event : Event} {id : Nat} {oid : String} {e : CacheEntry}
    (h : event.found? = some (id, oid, e)) : event = .asked id ⟨.cache (.find oid), some e⟩ := by
  unfold found? at h
  split at h
  · cases h
    rfl
  · cases h

namespace Interleaving

variable {sv : Service} {outages : Outages} {s m t u : State} {events before during : List Event}
variable {id : Nat} {c : Caller} {oid key : String} {x : Exchange} {e : CacheEntry} {d : Resource}

/-- An entry was there before a history, or was put there in it. -/
theorem Run.entry_cases (h : Run sv outages s events t) (he : t.world.cache.find? oid = some e) :
    s.world.cache.find? oid = some e ∨ ∃ event ∈ events, event.put? = some e.definition := by
  induction events using List.reverseRecOn generalizing t with
  | nil =>
    cases h
    exact .inl he
  | append_singleton events last ih =>
    obtain ⟨m, hrun, step⟩ := run_concat_iff.1 h
    rcases step.entry_cases he with hbefore | ⟨id, d, since, now, rfl, -, -, rfl⟩
    · refine (ih hrun hbefore).imp_right ?_
      rintro ⟨event, hevent, hput⟩
      exact ⟨event, List.mem_append_left _ hevent, hput⟩
    · exact .inr ⟨_, List.mem_append_right _ List.mem_cons_self, rfl⟩

/-- Who wants the latest asks the cache for nothing else but to drop what has the version of an
entry that was found to be stale. -/
theorem evicts_of_step (hrun : Run sv outages s (.started id c (.cachedLatest oid) :: during) t)
    (hduring : ∀ e ∈ during, ¬ e.Finishes id) (step : Step sv outages t (.asked id x) u) :
    Definitions.Evicts oid (Event.exchangesOf id during) x.request := by
  cases hrun with
  | cons start rest =>
    cases start
    obtain ⟨q, hq, hreaches⟩ := rest.reaches (if_pos rfl) hduring
    cases step with
    | ask hask _ =>
      rw [hq] at hask
      cases hask
      exact ((Definitions.latest?_evicts c oid).of_reaches hreaches fun _ _ => trivial).1

/-- At a request of who wants the latest the cache stays as it is, or what has the version of the
entry that was found at first is dropped. -/
theorem evicted_cases (hrun : Run sv outages s (.started id c (.cachedLatest oid) :: during) t)
    (hduring : ∀ e ∈ during, ¬ e.Finishes id) (step : Step sv outages t (.asked id x) u) :
    u.world.cache = t.world.cache ∨ ∃ found first second,
      x = ⟨.cache (.evict oid found.sourceVersion), ()⟩ ∧
      during = first ++ .asked id ⟨.cache (.find oid), some found⟩ :: second ∧
      found.FoundStale oid (Event.exchangesOf id second) ∧
      u.world.cache = t.world.cache.evict oid found.sourceVersion := by
  obtain ⟨hlooks, hstale⟩ := evicts_of_step hrun hduring step
  rcases step.cache with ⟨_, r, now, he, hu⟩ | ⟨-, hu⟩
  · cases he
    cases r with
    | find key => exact .inl hu
    | evict key v =>
      obtain ⟨rfl, found, checks, hpast, rfl, hfound⟩ := hstale key v rfl
      obtain ⟨first, second, rfl, -, rfl⟩ :=
        Event.exists_of_exchangesOf_eq (hpast.trans (List.nil_append _).symm)
      exact .inr ⟨found, first, second, rfl, rfl, hfound, hu⟩
    | _ => exact hlooks.elim
  · exact .inl hu

/-- What is put into the cache by others stays there, unless it has the version of the entry that
was found at first. -/
theorem not_ends_of_version
    (hrun : Run sv outages s (.started id c (.cachedLatest oid) :: during) t)
    (hduring : ∀ e ∈ during, ¬ e.Finishes id) (step : Step sv outages t (.asked id x) u)
    (hversion : ∀ found, .asked id ⟨.cache (.find oid), some found⟩ ∈ during → d.oid = oid →
      d.version ≠ found.sourceVersion) : ¬ Event.Ends d (.asked id x) := by
  obtain ⟨hlooks, hstale⟩ := evicts_of_step hrun hduring step
  obtain ⟨r, reply⟩ := x
  -- Of the three ways in which a value ends, only an eviction is among what is asked.
  rintro (⟨hput, -⟩ | ⟨r, hr, hdrops⟩ | he)
  · unfold Event.put? at hput
    split at hput
    · next he =>
      cases he
      exact hlooks
    · cases hput
  · cases hr
    cases r with
    | invalidate _ => exact hlooks
    | invalidateAll => exact hlooks
    | _ => exact hdrops
  · cases he
    obtain ⟨hoid, found, checks, hpast, hfound, -⟩ := hstale d.oid d.version rfl
    have hmem : .asked id ⟨.cache (.find oid), some found⟩ ∈ during :=
      Event.mem_exchangesOf.1 (hpast ▸ List.mem_cons_self)
    exact hversion found hmem hoid hfound

/-- So what others have put into the cache stays there while it is up to who wants the latest. -/
theorem has_of_version {earlier later : List Event} (hproper : s.world.cache.Proper)
    (hearlier : Run sv outages s (before ++ .started id c (.cachedLatest oid) :: earlier) m)
    (hlater : Run sv outages m later t) (hduring : ∀ e ∈ earlier ++ later, ¬ e.Finishes id)
    (hhas : m.world.cache.Has d) (hothers : ∀ e ∈ later, e.Ends d → ∃ x, e = .asked id x)
    (hversion : ∀ found, .asked id ⟨.cache (.find oid), some found⟩ ∈ earlier ++ later →
      d.oid = oid → d.version ≠ found.sourceVersion) : t.world.cache.Has d := by
  induction later using List.reverseRecOn generalizing t with
  | nil =>
    cases hlater
    exact hhas
  | append_singleton later e ih =>
    obtain ⟨n, hsofar, step⟩ := run_concat_iff.1 hlater
    rw [← List.append_assoc] at hduring hversion
    obtain ⟨hunfinished, -⟩ := List.forall_mem_append.1 hduring
    obtain ⟨hothers, hlast⟩ := List.forall_mem_append.1 hothers
    have hversions : ∀ found, .asked id ⟨.cache (.find oid), some found⟩ ∈ earlier ++ later →
        d.oid = oid → d.version ≠ found.sourceVersion :=
      fun found hfound => hversion found (List.mem_append_left _ hfound)
    have hrun : Run sv outages s
        (before ++ .started id c (.cachedLatest oid) :: (earlier ++ later)) n := by
      have hsplit := run_append_iff.2 ⟨m, hearlier, hsofar⟩
      simpa using hsplit
    obtain ⟨v, -, hcall⟩ := run_append_iff.1 hrun
    have hn : n.world.cache.Has d := ih hsofar hunfinished hothers hversions
    refine (step.has_iff (hrun.properCache hproper)).2 (.inr ⟨hn, ?_⟩)
    intro hends
    -- Only a request of the one who wants the latest could have ended it.
    obtain ⟨x, rfl⟩ := hlast e List.mem_cons_self hends
    exact not_ends_of_version hcall hunfinished step hversions hends

/-- **What is dropped has the version of what was found to be stale**, whatever happens while its
versions are asked.  Of all that is in the cache at a request of who wants the latest, only an entry
of that resource can go; it goes if it has the own version of the entry that was found at first, of
which some version was told to be another since; and it is that entry, or was put in its place
meanwhile.  So whatever else was completed and cached meanwhile from another version of the resource
is still cached at the end, unless others have replaced or dropped it. -/
theorem evicted_iff (hproper : s.world.cache.Proper)
    (hrun : Run sv outages s (before ++ .started id c (.cachedLatest oid) :: during) t)
    (hduring : ∀ e ∈ during, ¬ e.Finishes id) :
    (∀ x u key e, Step sv outages t (.asked id x) u → t.world.cache.find? key = some e →
      (u.world.cache.find? key ≠ some e ↔ key = oid ∧ ∃ found first second,
        x = ⟨.cache (.evict oid found.sourceVersion), ()⟩ ∧
        during = first ++ .asked id ⟨.cache (.find oid), some found⟩ :: second ∧
        found.FoundStale oid (Event.exchangesOf id second) ∧
        e.sourceVersion = found.sourceVersion ∧
        (e = found ∨ ∃ event ∈ second, event.put? = some e.definition))) ∧
    ∀ earlier later m d, during = earlier ++ later →
      Run sv outages s (before ++ .started id c (.cachedLatest oid) :: earlier) m →
      Run sv outages m later t → m.world.cache.Has d →
      (∀ e ∈ later, e.Ends d → ∃ x, e = .asked id x) →
      (∀ found, .asked id ⟨.cache (.find oid), some found⟩ ∈ during → d.oid = oid →
        d.version ≠ found.sourceVersion) → t.world.cache.Has d := by
  constructor
  · intro x u key e step he
    obtain ⟨v, -, hcall⟩ := run_append_iff.1 hrun
    constructor
    · intro hgone
      rcases evicted_cases hcall hduring step with
        hsame | ⟨found, first, second, hx, rfl, hstale, hu⟩
      · rw [hsame] at hgone
        exact absurd he hgone
      · rw [hu, DefinitionCache.find?_evict] at hgone
        split at hgone
        · next hkey =>
          subst hkey
          have hversion : e.sourceVersion = found.sourceVersion := by
            by_contra hne
            exact hgone (by rw [he]; simp [Option.filter, hne])
          refine ⟨rfl, found, first, second, hx, rfl, hstale, hversion, ?_⟩
          -- What is there now was found, or was put there after the first look.
          obtain ⟨w, -, hrest⟩ := run_append_iff.1 (List.cons_append ▸ hcall)
          cases hrest with
          | cons looking hrest =>
            rcases hrest.entry_cases he with hfound | hput
            · rcases looking.entry_cases hfound with hfound | ⟨_, _, _, _, hlook, -⟩
              · rw [looking.find?_eq] at hfound
                exact .inl (Option.some.inj hfound).symm
              · cases hlook
            · exact .inr hput
        · exact absurd he hgone
    · rintro ⟨rfl, found, first, second, rfl, -, -, hversion, -⟩ hstays
      rcases step.cache with ⟨_, r, now, hr, hu⟩ | ⟨hno, -⟩
      · cases hr
        have hevicted : u.world.cache = t.world.cache.evict key found.sourceVersion := hu
        rw [hevicted, DefinitionCache.find?_evict, if_pos rfl, he] at hstays
        simp [Option.filter, hversion] at hstays
      · exact absurd rfl (hno id (.evict key found.sourceVersion) ())
  · rintro earlier later m d rfl hearlier hlater hhas hothers hversion
    exact has_of_version hproper hearlier hlater hduring hhas hothers hversion

/-- A resource is cached, and its template is renamed since. -/
def sampleStale : List Event × State :=
  sampleStart.play { templateLimit := 3 } Completion.sampleConnectors
    (.start 0 default (.get "heir" false) :: List.replicate 20 (.go 0) ++
      [.start 1 default (.atStore (.modify "directory" [.rename "renamed"])), .go 1, .go 1])

/-- Someone wants the latest. -/
def sampleWanted : State :=
  sampleStale.2.move sampleStale.2.world 2
    (some ⟨.cachedLatest "heir", (Definitions.latest? default "heir").run⟩)

/-- The cached resource is found, and its own version is asked.  Meanwhile it is got anew by
another, and then it is asked whether its template has changed. -/
def sampleRenewed : List Event × State :=
  sampleWanted.play { templateLimit := 3 } Completion.sampleConnectors
    ([.go 2, .go 2] ++ .start 3 default (.get "heir" false) :: List.replicate 20 (.go 3) ++
      [.go 2, .go 2])

theorem run_sampleRenewed :
    Run { templateLimit := 3 } (fun _ _ => False) sampleStart
      (sampleStale.1 ++ .started 2 default (.cachedLatest "heir") :: sampleRenewed.1)
      sampleRenewed.2 := by
  have hstale : Run { templateLimit := 3 } (fun _ _ => False) sampleStart sampleStale.1
      sampleStale.2 := run_play _ _ _ _ _
  have hidle : sampleStale.2.underWay 2 = none :=
    Option.isNone_iff_eq_none.1 (by decide +kernel)
  exact run_append_iff.2 ⟨_, hstale, .cons (.start default _ hidle) (run_play _ _ _ _ _)⟩

/-- By then the cache has an entry that was put there since the first look, and that is current. -/
theorem exists_fresh_sampleRenewed : ∃ found fresh,
    .asked 2 ⟨.cache (.find "heir"), some found⟩ ∈ sampleRenewed.1 ∧
      sampleRenewed.2.world.cache.find? "heir" = some fresh ∧ fresh ≠ found ∧
      (∃ event ∈ sampleRenewed.1, event.put? = some fresh.definition) ∧
      fresh.Current sampleRenewed.2.world.store "heir" := by
  have hfound : ∃ p ∈ (sampleRenewed.1.filterMap Event.found?).head?,
      ∃ fresh ∈ sampleRenewed.2.world.cache.find? "heir",
        p.1 = 2 ∧ p.2.1 = "heir" ∧ fresh ≠ p.2.2 ∧
          fresh.definition ∈ sampleRenewed.1.filterMap Event.put? ∧
          fresh.Current sampleRenewed.2.world.store "heir" := by decide +kernel
  obtain ⟨⟨id, oid, found⟩, hfirst, fresh, hfresh, rfl, rfl, hother, hput, hcurrent⟩ := hfound
  obtain ⟨e, he, hlook⟩ := List.mem_filterMap.1 (List.mem_of_mem_head? hfirst)
  exact ⟨found, fresh, Event.found?_eq_some hlook ▸ he, hfresh, hother, List.mem_filterMap.1 hput,
    hcurrent⟩

/-- What was put in the place of a stale entry goes with the version of that entry. -/
theorem evicted_iff_sample : ∃ u,
    (∃ x, Step { templateLimit := 3 } (fun _ _ => False) sampleRenewed.2 (.asked 2 x) u) ∧
    ∃ found fresh : CacheEntry, sampleRenewed.2.world.cache.find? "heir" = some fresh ∧
      u.world.cache.find? "heir" ≠ some fresh ∧
      found.FoundStale "heir" (Event.exchangesOf 2 sampleRenewed.1) ∧
      fresh.sourceVersion = found.sourceVersion := by
  obtain ⟨x, step⟩ := exists_step_of_make { templateLimit := 3 } (fun _ _ => False)
    Completion.sampleConnectors sampleRenewed.2 2 (by decide +kernel)
  have hproper : sampleStart.world.cache.Proper :=
    DefinitionCache.proper_of_empty fun _ => rfl
  have hduring : ∀ e ∈ sampleRenewed.1, ¬ e.Finishes 2 := by decide +kernel
  obtain ⟨_, fresh, -, hfresh, -⟩ := exists_fresh_sampleRenewed
  have hgone : (sampleRenewed.2.make { templateLimit := 3 } Completion.sampleConnectors
      (.go 2)).2.world.cache.find? "heir" = none := Option.isNone_iff_eq_none.1 (by decide +kernel)
  have hne : (sampleRenewed.2.make { templateLimit := 3 } Completion.sampleConnectors
      (.go 2)).2.world.cache.find? "heir" ≠ some fresh := by
    rw [hgone]
    exact (Option.some_ne_none fresh).symm
  obtain ⟨-, found, first, second, -, hsplit, hstale, hversion, -⟩ :=
    ((evicted_iff hproper run_sampleRenewed hduring).1 x _ "heir" fresh step hfresh).1 hne
  refine ⟨_, ⟨x, step⟩, found, fresh, hfresh, hne, ?_, hversion⟩
  refine hstale.mono (List.Subset.refl _) ?_
  rw [hsplit, Event.exchangesOf_append]
  exact fun y hy => List.mem_append_right _ (List.mem_cons_of_mem _ hy)

/-- What was put in the place of a stale entry is dropped although it is current: it was completed
from the same version of the resource. -/
theorem fresh_evicted : ∃ before during t x u found fresh,
    Run { templateLimit := 3 } (fun _ _ => False) sampleStart
      (before ++ .started 2 default (.cachedLatest "heir") :: during) t ∧
    (∀ e ∈ during, ¬ e.Finishes 2) ∧
    .asked 2 ⟨.cache (.find "heir"), some found⟩ ∈ during ∧
    t.world.cache.find? "heir" = some fresh ∧ fresh ≠ found ∧
    (∃ event ∈ during, event.put? = some fresh.definition) ∧
    fresh.Current t.world.store "heir" ∧
    Step { templateLimit := 3 } (fun _ _ => False) t (.asked 2 x) u ∧
    u.world.cache.find? "heir" = none := by
  obtain ⟨x, step⟩ := exists_step_of_make { templateLimit := 3 } (fun _ _ => False)
    Completion.sampleConnectors sampleRenewed.2 2 (by decide +kernel)
  obtain ⟨found, fresh, hlook, hfresh, hother, hput, hcurrent⟩ := exists_fresh_sampleRenewed
  exact ⟨sampleStale.1, sampleRenewed.1, sampleRenewed.2, x, _, found, fresh,
    run_sampleRenewed, by decide +kernel, hlook, hfresh, hother, hput, hcurrent, step,
    Option.isNone_iff_eq_none.1 (by decide +kernel)⟩

end Interleaving

end Reconciler
