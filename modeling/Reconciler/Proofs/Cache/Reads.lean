/-
What is read through the cache was so while it was being read.

Whether an entry is still the latest is asked of the repository one version after another, and the
repository may change in between.  Since versions only grow, what was so once and is so again later
was so all the time, and thus all of it at once.

* `Interleaving.Grows`: every write leads to a version greater than any before;
* `Store.Passed`: a resource has left a version behind.

Main statements:
* `Interleaving.Run.version_between`: a version that was there before and is there after was there;
* `Interleaving.Run.exists_current`: what the cache hands out was current at one moment of the call;
* `Interleaving.reads_never_stale`: so was the version of everything that is got.

Design notes:
* A resource that is added again after it was deleted would start anew at the initial version; to
  lead to greater versions only rules that out.
-/
import Reconciler.Proofs.Cache.Freshness
import Reconciler.Proofs.Cache.Origins

namespace Reconciler

/-- What has a version now has a greater one than this. -/
def Store.Passed (s : Store) (oid : String) (v : Version) : Prop :=
  ∀ r, s.find? oid = some r → v < r.version

/-- A resource that is modified has the version that is answered. -/
theorem Store.version_of_modify {s s' : Store} {oid : String} {changes : List ResourceChange}
    {v : Version} (h : s.modify oid changes = .ok (v, s')) :
    (s'.find? oid).map Resource.version = some v := by
  rw [Store.read_modify h oid, if_pos rfl]
  rw [Store.modify, Store.read_eq] at h
  cases hfind : s.find? oid with
  | none =>
    rw [hfind] at h
    cases h
  | some r =>
    rw [hfind] at h
    cases h
    rfl

namespace Interleaving

variable {sv : Service} {outages : Outages} {s t u m : State} {e : Event}
variable {events first second : List Event} {oid : String} {v : Version}

/-! ### Versions over time -/

/-- What is stored after an event was there before, or has the version that was written. -/
theorem Step.stored_cases (h : Step sv outages s e t) {r : Resource}
    (hr : t.world.store.find? oid = some r) :
    s.world.store.find? oid = some r ∨ e.write? = some (oid, r.version) := by
  rcases h.store_cases with ⟨hstore, -⟩ | ⟨id, x, key, fresh, rfl, hadd⟩ |
    ⟨id, key, changes, v, rfl, hmodify⟩ | ⟨id, key, rfl, hdelete⟩
  · exact .inl (hstore ▸ hr)
  · rw [Store.read_add hadd] at hr
    split at hr
    · next he =>
      cases hr
      exact .inr (he ▸ rfl)
    · exact .inl hr
  · by_cases he : oid = key
    · have hversion := Store.version_of_modify hmodify
      rw [← he, hr] at hversion
      cases hversion
      exact .inr (he ▸ rfl)
    · rw [Store.read_modify hmodify, if_neg he] at hr
      exact .inl hr
  · rw [Store.read_delete hdelete] at hr
    split at hr
    · cases hr
    · exact .inl hr

/-- Each write to a resource leads to a version greater than all that it had before. -/
structure Grows (s : Store) (events : List Event) : Prop where
  stored : ∀ oid r, s.find? oid = some r →
    ∀ w ∈ events.filterMap Event.write?, w.1 = oid → r.version < w.2
  written : (events.filterMap Event.write?).Pairwise fun a b => a.1 = b.1 → a.2 < b.2

theorem Grows.of_append {s : Store} (h : Grows s (first ++ second)) : Grows s first := by
  obtain ⟨hstored, hwritten⟩ := h
  rw [List.filterMap_append] at hstored hwritten
  exact ⟨fun oid r hr w hw => hstored oid r hr w (List.mem_append_left _ hw),
    (List.pairwise_append.1 hwritten).1⟩

theorem writes_sublist (e : Event) (events : List Event) :
    (events.filterMap Event.write?).Sublist ((e :: events).filterMap Event.write?) :=
  (List.sublist_cons_self e events).filterMap _

/-- Writes lead to greater versions from the next moment on, too. -/
theorem Step.grows (h : Step sv outages s e t) (hgrows : Grows s.world.store (e :: events)) :
    Grows t.world.store events := by
  refine ⟨fun oid r hr w hw hoid => ?_, hgrows.written.sublist (writes_sublist e events)⟩
  rcases h.stored_cases hr with hbefore | hwritten
  · exact hgrows.stored oid r hbefore w ((writes_sublist e events).subset hw) hoid
  · have hpairs := hgrows.written
    rw [List.filterMap_cons_some hwritten] at hpairs
    exact (List.pairwise_cons.1 hpairs).1 w hw hoid.symm

theorem Run.grows (h : Run sv outages s first m)
    (hgrows : Grows s.world.store (first ++ second)) : Grows m.world.store second := by
  induction h with
  | nil => exact hgrows
  | cons step _ ih => exact ih (step.grows hgrows)

/-- What was left behind stays behind, if only greater versions are written. -/
theorem Run.passed (h : Run sv outages s events t)
    (hgreater : ∀ w ∈ events.filterMap Event.write?, w.1 = oid → v < w.2)
    (hs : s.world.store.Passed oid v) : t.world.store.Passed oid v := by
  induction h with
  | nil => exact hs
  | @cons s n t e events step _ ih =>
    refine ih (fun w hw => hgreater w ((writes_sublist e events).subset hw)) fun r hr => ?_
    rcases step.stored_cases hr with hbefore | hwritten
    · exact hs r hbefore
    · exact hgreater _ (List.mem_filterMap.2 ⟨e, List.mem_cons_self, hwritten⟩) rfl

/-- A resource keeps its version, or leaves it behind. -/
theorem Run.version_or_passed (h : Run sv outages s events t)
    (hgrows : Grows s.world.store events)
    (hs : (s.world.store.find? oid).map Resource.version = some v) :
    (t.world.store.find? oid).map Resource.version = some v ∨ t.world.store.Passed oid v := by
  induction h with
  | nil => exact .inl hs
  | @cons s n t e events step rest ih =>
    obtain ⟨r, hr, rfl⟩ := Option.map_eq_some_iff.1 hs
    have hgreater := hgrows.stored oid r hr
    by_cases hsame : n.world.store.find? oid = some r
    · exact ih (step.grows hgrows) (by rw [hsame, Option.map_some])
    · -- It was written or deleted, and is never written at this version again.
      have hlater : ∀ w ∈ events.filterMap Event.write?, w.1 = oid → r.version < w.2 :=
        fun w hw => hgreater w ((writes_sublist e events).subset hw)
      refine .inr (rest.passed hlater fun now hnow => ?_)
      rcases step.stored_cases hnow with hbefore | hwritten
      · rw [hr] at hbefore
        cases hbefore
        exact absurd hnow hsame
      · exact hgreater _ (List.mem_filterMap.2 ⟨e, List.mem_cons_self, hwritten⟩) rfl

/-- A version that is there before and after is there in between. -/
theorem Run.version_between (h : Run sv outages s first m) (h' : Run sv outages m second t)
    (hgrows : Grows s.world.store (first ++ second))
    (hs : (s.world.store.find? oid).map Resource.version = some v)
    (ht : (t.world.store.find? oid).map Resource.version = some v) :
    (m.world.store.find? oid).map Resource.version = some v := by
  -- What was left behind before the middle would be behind at the end, too.
  refine (h.version_or_passed hgrows.of_append hs).resolve_right fun hpassed => ?_
  obtain ⟨r, hr, rfl⟩ := Option.map_eq_some_iff.1 hs
  obtain ⟨now, hnow, hversion⟩ := Option.map_eq_some_iff.1 ht
  have hlater : t.world.store.Passed oid r.version := by
    refine h'.passed (fun w hw hoid => hgrows.stored oid r hr w ?_ hoid) hpassed
    rw [List.filterMap_append]
    exact List.mem_append_right _ hw
  have hlt : r.version < now.version := hlater now hnow
  rw [hversion, Version.lt_def] at hlt
  exact Nat.lt_irrefl _ hlt

/-- A version that was shown before and is told after is there in between. -/
theorem Run.version_of_shown (h : Run sv outages s first m) (h' : Run sv outages m second t)
    (hgrows : Grows s.world.store (first ++ second))
    (hshown : ∃ e ∈ first, ∃ r ∈ e.shown, r.oid = oid ∧ r.version = v)
    (htold : ∃ id x, .asked id x ∈ second ∧ x.Sees oid v) :
    (m.world.store.find? oid).map Resource.version = some v := by
  obtain ⟨e, he, r, hr, rfl, rfl⟩ := hshown
  obtain ⟨id, x, hx, hsees⟩ := htold
  obtain ⟨early, late, rfl⟩ := List.append_of_mem he
  obtain ⟨soon, rest, rfl⟩ := List.append_of_mem hx
  obtain ⟨p, hearly, hlate⟩ := run_append_iff.1 h
  obtain ⟨q, q', hsoon, step, -⟩ := h'.exists_step
  have hp : (p.world.store.find? r.oid).map Resource.version = some r.version := by
    cases e with
    | asked j y =>
      cases hlate with
      | cons step _ => rw [step.find?_of_mem_shown hr, Option.map_some]
    | _ => cases hr
  have hall : Grows s.world.store ((early ++ (e :: late ++ soon)) ++ .asked id x :: rest) := by
    simpa using hgrows
  exact hlate.version_between hsoon (hearly.grows hall.of_append) hp (step.version_of_sees hsees)

/-! ### What the cache hands out -/

/-- **What the cache hands out is current all at once.**  While it is checked version by version,
there is a moment at which the repository has all the versions that the entry notes. -/
theorem Run.exists_current {before during : List Event} {id : Nat} {c : Caller} {d : Resource}
    (h : Run sv outages s before u) (h' : Run sv outages u during t) (hs : s.Fresh)
    (hordinary : Ordinary (before ++ during)) (hgrows : Grows s.world.store (before ++ during))
    (hanswers : (Definitions.latest? c oid).run.Reaches (Event.exchangesOf id during)
      (.done (.ok (some d)))) :
    ∃ entry first second m, during = first ++ second ∧ Run sv outages u first m ∧
      Run sv outages m second t ∧ .asked id ⟨.cache (.find oid), some entry⟩ ∈ first ∧
      entry.definition = d ∧ entry.Current m.world.store oid := by
  obtain ⟨entry, checks, rfl, htrace, hchecks⟩ :=
    Definitions.exists_checks_of_yields (Program.yields_nil_iff.2 hanswers)
  obtain ⟨start, rest, rfl, -, hrest⟩ :=
    Event.exists_of_exchangesOf_eq (htrace.trans (List.nil_append _).symm)
  obtain ⟨found, after, rfl, -, hafter⟩ :=
    Event.exists_of_exchangesOf_eq (hrest.trans (List.nil_append _).symm)
  obtain ⟨p, p', hstart, hfind, hfound⟩ := h'.exists_step
  obtain ⟨m, hfound, hafter'⟩ := run_append_iff.1 hfound
  have hfirst : Run sv outages u (start ++ .asked id ⟨.cache (.find oid), some entry⟩ :: found) m :=
    run_append_iff.2 ⟨p, hstart, .cons hfind hfound⟩
  refine ⟨entry, start ++ .asked id ⟨.cache (.find oid), some entry⟩ :: found,
    .asked id ⟨.store (.version oid), .ok entry.sourceVersion⟩ :: after, m, by simp, hfirst,
    hafter', by simp, rfl, ?_, fun template v hx => ?_⟩
  · cases hafter' with
    | cons step _ => exact step.version_of_sees (.inr rfl)
  · -- The version of a template was shown before the entry was found, and is told afterwards.
    have hp : Run sv outages s (before ++ start) p := run_append_iff.2 ⟨u, h, hstart⟩
    have hplain : Ordinary (before ++ start) := by
      rw [← List.append_assoc] at hordinary
      exact hordinary.of_append
    have hentry : p.world.cache.find? oid = some entry := hfind.find?_eq
    have hmem : (template, v) ∈ entry.ancestorVersions.entries := SortedMap.mem_entries_iff.2 hx
    obtain ⟨e, he, hshown⟩ := (hp.exists_shown_of_find? hs hplain hentry).2 _ hmem
    have htold : .asked id ⟨.store (.version template), .ok v⟩ ∈ after := by
      have hcheck := List.mem_append_left [] (hchecks _ hmem)
      rw [← hafter] at hcheck
      exact Event.mem_exchangesOf.1 hcheck
    have hpast : Run sv outages s
        ((before ++ start) ++ .asked id ⟨.cache (.find oid), some entry⟩ :: found) m :=
      run_append_iff.2 ⟨p, hp, .cons hfind hfound⟩
    refine hpast.version_of_shown hafter' ?_ ⟨e, List.mem_append_left _ he, hshown⟩
      ⟨id, _, List.mem_cons_of_mem _ htold, .inr rfl⟩
    simpa using hgrows

/-! ### What is got -/

/-- The version of what is got was that of the repository at a moment in between. -/
theorem Run.exists_version_of_get {before between after : List Event} {id : Nat} {c : Caller}
    {noFetch : Bool} {d : Resource}
    (h : Run sv outages s (before ++ .started id c (.get oid noFetch) ::
      (between ++ .finished id (.get oid noFetch) (.ok d) :: after)) t)
    (hs : s.Fresh)
    (hordinary : Ordinary (before ++ .started id c (.get oid noFetch) ::
      (between ++ .finished id (.get oid noFetch) (.ok d) :: after)))
    (hbetween : ∀ e ∈ between, ¬ e.Finishes id) :
    ∃ first second m, between = first ++ second ∧
      Run sv outages s (before ++ .started id c (.get oid noFetch) :: first) m ∧
      (m.world.store.find? oid).map Resource.version = some d.version := by
  obtain ⟨p, q, hbefore, hstart, hrest⟩ := h.exists_step
  obtain ⟨u, u', hduring, hfinish, -⟩ := hrest.exists_step
  have hq : q.underWay id = some ⟨.get oid noFetch, (sv.get c oid noFetch).run⟩ := by
    cases hstart
    exact if_pos rfl
  obtain ⟨rest, hrest, hreaches⟩ := hduring.reaches hq hbetween
  obtain rfl : rest = .done (.ok d) := by
    cases hfinish with
    | finish hu =>
      rw [hrest] at hu
      cases hu
      rfl
  -- Up to the end, everything that was answered is proper.
  have hall : Ordinary ((before ++ .started id c (.get oid noFetch) :: between) ++
      .finished id (.get oid noFetch) (.ok d) :: after) := by
    simpa using hordinary
  have hsound : Sound (before ++ .started id c (.get oid noFetch) :: between) u :=
    Run.sound (run_append_iff.2 ⟨p, hbefore, .cons hstart hduring⟩) hs hall.of_append
  have hproper : ∀ x ∈ Event.exchangesOf id between, x.Proper := fun x hx =>
    hsound.proper id x (List.mem_append_right _
      (List.mem_cons_of_mem _ (Event.mem_exchangesOf.1 hx)))
  have hmeets : (sv.get c oid noFetch).run.Meets Exchange.Proper (Offers fun _ => False)
      (fun past outcome => ∀ d, outcome = .ok d → ∃ x ∈ past, x.Sees oid d.version) [] :=
    Service.get_meets sv c oid noFetch
  obtain ⟨x, hx, hsees⟩ := hmeets.of_reaches hreaches hproper d rfl
  obtain ⟨first, second, rfl⟩ := List.append_of_mem (Event.mem_exchangesOf.1 hx)
  obtain ⟨m, m', hfirst, step, -⟩ := hduring.exists_step
  exact ⟨first, _, m, rfl, run_append_iff.2 ⟨p, hbefore, .cons hstart hfirst⟩,
    step.version_of_sees hsees⟩

/-- **Reads are never stale.**  Whatever goes on meanwhile, the version of what is got was that of
the repository at a moment between start and end; and whenever the cache hands something out, there
is a moment during the call at which all versions that the entry notes were those of the repository
together. -/
theorem reads_never_stale (h : Run sv outages s events t) (hs : s.Fresh)
    (hordinary : Ordinary events) (hgrows : Grows s.world.store events) :
    (∀ before id c oid noFetch between d after,
      events = before ++ .started id c (.get oid noFetch) ::
        (between ++ .finished id (.get oid noFetch) (.ok d) :: after) →
      (∀ e ∈ between, ¬ e.Finishes id) →
        ∃ first second m, between = first ++ second ∧
          Run sv outages s (before ++ .started id c (.get oid noFetch) :: first) m ∧
          (m.world.store.find? oid).map Resource.version = some d.version) ∧
      ∀ before during after id c oid d, events = before ++ during ++ after →
        (Definitions.latest? c oid).run.Reaches (Event.exchangesOf id during)
          (.done (.ok (some d))) →
        ∃ entry first second m, during = first ++ second ∧
          Run sv outages s (before ++ first) m ∧
          .asked id ⟨.cache (.find oid), some entry⟩ ∈ first ∧ entry.definition = d ∧
          entry.Current m.world.store oid := by
  constructor
  · rintro before id c oid noFetch between d after rfl hbetween
    exact h.exists_version_of_get hs hordinary hbetween
  · rintro before during after id c oid d rfl hanswers
    obtain ⟨v, hearly, -⟩ := run_append_iff.1 h
    obtain ⟨u, hbefore, hduring⟩ := run_append_iff.1 hearly
    obtain ⟨entry, first, second, m, rfl, hfirst, -, hfound, hd, hcurrent⟩ :=
      hbefore.exists_current hduring hs hordinary.of_append hgrows.of_append hanswers
    exact ⟨entry, first, second, m, rfl, run_append_iff.2 ⟨u, hbefore, hfirst⟩, hfound, hd,
      hcurrent⟩

/-- The resource is got and thus cached. -/
def sampleCached : List Event × State :=
  sampleStart.play { templateLimit := 3 } Completion.sampleConnectors
    (.start 0 default (.get "heir" false) :: List.replicate 30 (.go 0))

/-- The cache is asked for the latest. -/
def sampleCall : State :=
  sampleCached.2.move sampleCached.2.world 1
    (some ⟨.cachedLatest "heir", (Definitions.latest? default "heir").run⟩)

/-- The template is renamed when it was just found to be unchanged. -/
def sampleAnswered : List Event × State :=
  sampleCall.play { templateLimit := 3 } Completion.sampleConnectors
    [.go 1, .go 1, .go 1, .start 2 default (.atStore (.modify "directory" [.rename "files"])),
      .go 2, .go 2, .go 1]

/-- What is handed out when a call is over. -/
def handedOut? : UnderWay → Option Resource
  | ⟨.cachedLatest _, .done (.ok found)⟩ => found
  | _ => none

/-- While the template is renamed, the resource is handed out with the version that the template had
before; at a moment of the call, that was so. -/
theorem reads_never_stale_sample : ∃ before during t,
    Run { templateLimit := 3 } (fun _ _ => False) sampleStart (before ++ during) t ∧
    (before ++ during).filterMap Event.write? = [("directory", Version.initial.next)] ∧
    ∃ (d : Resource) (entry : CacheEntry), ∃ first second m, during = first ++ second ∧
      (Definitions.latest? default "heir").run.Reaches (Event.exchangesOf 1 during)
        (.done (.ok (some d))) ∧
      Run { templateLimit := 3 } (fun _ _ => False) sampleStart (before ++ first) m ∧
      entry.definition = d ∧ entry.Current m.world.store "heir" := by
  let before := sampleCached.1 ++ [.started 1 default (.cachedLatest "heir")]
  have hidle : sampleCached.2.underWay 1 = none :=
    Option.isNone_iff_eq_none.1 (by decide +kernel)
  have hbefore : Run { templateLimit := 3 } (fun _ _ => False) sampleStart before sampleCall :=
    run_concat_iff.2 ⟨_, run_play _ _ _ _ _, .start _ _ hidle⟩
  have hduring : Run { templateLimit := 3 } (fun _ _ => False) sampleCall sampleAnswered.1
      sampleAnswered.2 := run_play _ _ _ _ _
  have hrun : Run { templateLimit := 3 } (fun _ _ => False) sampleStart
      (before ++ sampleAnswered.1) sampleAnswered.2 := run_append_iff.2 ⟨_, hbefore, hduring⟩
  have hordinary : Ordinary (before ++ sampleAnswered.1) :=
    ordinary_of_brought_eq_nil (by decide +kernel) (by decide +kernel)
  have hwrites : (before ++ sampleAnswered.1).filterMap Event.write? =
      [("directory", Version.initial.next)] := by decide +kernel
  have hgrows : Grows sampleStart.world.store (before ++ sampleAnswered.1) := by
    refine ⟨fun oid r hr w hw hoid => ?_, ?_⟩
    · rw [hwrites] at hw
      cases List.mem_singleton.1 hw
      rcases find?_sampleStart hr with rfl | rfl <;> decide
    · rw [hwrites]
      exact List.pairwise_singleton _ _
  obtain ⟨d, hanswers⟩ : ∃ d, (Definitions.latest? default "heir").run.Reaches
      (Event.exchangesOf 1 sampleAnswered.1) (.done (.ok (some d))) := by
    have hunfinished : ∀ e ∈ sampleAnswered.1, ¬ e.Finishes 1 := by decide +kernel
    have hcall : sampleCall.underWay 1 =
        some ⟨.cachedLatest "heir", (Definitions.latest? default "heir").run⟩ := by
      rw [sampleCall, underWay_move, if_pos rfl]
    obtain ⟨q, hq, hreaches⟩ := hduring.reaches hcall hunfinished
    have hover : (sampleAnswered.2.underWay 1).bind handedOut? ≠ none := by decide +kernel
    rw [hq] at hover
    cases q with
    | ask r next => exact absurd rfl hover
    | done outcome =>
      cases outcome with
      | error e => exact absurd rfl hover
      | ok found =>
        cases found with
        | none => exact absurd rfl hover
        | some d => exact ⟨d, hreaches⟩
  obtain ⟨entry, first, second, m, hsplit, hfirst, -, hd, hcurrent⟩ :=
    (reads_never_stale hrun fresh_sampleStart hordinary hgrows).2 before sampleAnswered.1 [] 1
      default "heir" d (List.append_nil _).symm hanswers
  exact ⟨before, sampleAnswered.1, _, hrun, hwrites, d, entry, first, second, m, hsplit, hanswers,
    hfirst, hd, hcurrent⟩

end Interleaving

end Reconciler
