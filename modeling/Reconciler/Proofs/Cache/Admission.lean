/-
When a completed resource may enter the cache.

Whoever completes a resource takes a ticket first, and offers the outcome under the ticket later.
In between, anyone may invalidate anything.  What the cache remembers of that is a count, a mark and
one count for each resource; it answers as the whole history would.

* `Invalidations.Counted`: no count is ahead of the number of invalidations;
* `Event.Invalidates`: an event drops one of some resources, or everything.

Main statements:
* `Invalidations.since_single`, `since_everything`: what one more invalidation changes;
* `Interleaving.Run.since_iff`: in any history, a resource counts as invalidated after a ticket was
  taken just when it was;
* `Interleaving.told_iff_of_ticket`: what is offered under a ticket is taken just when it is
  completed, nothing that it depends on was invalidated since, and no later version is there.

Design notes:
* Tickets are compared with counts only.  That no count is ahead when a ticket is taken is what
  makes a later comparison exact.
-/
import Reconciler.Interleaving

namespace Reconciler

/-! ### The summary of invalidations -/

namespace Invalidations

variable {i : Invalidations} {t : Ticket} {oids : List String}

/-- No count is ahead of the number of invalidations. -/
structure Counted (i : Invalidations) : Prop where
  clearedAt_le : i.clearedAt ≤ i.generation
  byOid_le : ∀ oid n, i.byOid.get? oid = some n → n ≤ i.generation

theorem since_iff :
    i.since t oids = true ↔
      t.generation < i.clearedAt ∨
        ∃ oid ∈ oids, ∃ n, i.byOid.get? oid = some n ∧ t.generation < n := by
  rw [since, Bool.or_eq_true, decide_eq_true_eq, List.any_eq_true]
  refine or_congr_right (exists_congr fun oid => and_congr_right fun _ => ?_)
  cases i.byOid.get? oid with
  | none => simp
  | some n => simp

theorem counted_new : Counted {} where
  clearedAt_le := Nat.le_refl 0
  byOid_le oid n h := by cases h

theorem Counted.single (h : i.Counted) (oid : String) : (i.single oid).Counted where
  clearedAt_le := Nat.le_succ_of_le h.clearedAt_le
  byOid_le other n hn := by
    show n ≤ i.generation + 1
    rw [Invalidations.single, SortedMap.get?_insert] at hn
    split at hn
    · exact Nat.le_of_eq (Option.some.inj hn).symm
    · exact Nat.le_succ_of_le (h.byOid_le other n hn)

theorem counted_everything (i : Invalidations) : i.everything.Counted where
  clearedAt_le := Nat.le_refl _
  byOid_le oid n h := by cases h

/-- Nothing counts as invalidated after a ticket that is taken right now. -/
theorem Counted.since_now (h : i.Counted) (oids : List String) :
    i.since ⟨i.generation⟩ oids = false := by
  rw [Bool.eq_false_iff, Ne, since_iff]
  rintro (hlt | ⟨oid, -, n, hn, hlt⟩)
  · exact Nat.not_lt.2 h.clearedAt_le hlt
  · exact Nat.not_lt.2 (h.byOid_le oid n hn) hlt

/-- One more invalidation counts for its own resource. -/
theorem since_single (ht : t.generation ≤ i.generation) (oid : String) :
    (i.single oid).since t oids = true ↔ i.since t oids = true ∨ oid ∈ oids := by
  rw [since_iff, since_iff, or_assoc]
  refine or_congr_right ?_
  simp only [single, SortedMap.get?_insert]
  constructor
  · rintro ⟨other, hother, n, hn, hlt⟩
    by_cases he : other = oid
    · exact .inr (he ▸ hother)
    · rw [if_neg he] at hn
      exact .inl ⟨other, hother, n, hn, hlt⟩
  · rintro (⟨other, hother, n, hn, hlt⟩ | hoid)
    · by_cases he : other = oid
      · -- An earlier count of this resource gives way to a greater one.
        exact ⟨other, hother, i.generation + 1, if_pos he, by omega⟩
      · exact ⟨other, hother, n, by rw [if_neg he, hn], hlt⟩
    · exact ⟨oid, hoid, i.generation + 1, if_pos rfl, by omega⟩

theorem since_everything (ht : t.generation ≤ i.generation) : i.everything.since t oids = true :=
  since_iff.2 (.inl (Nat.lt_succ_of_le ht))

end Invalidations

/-! ### Single steps -/

/-- The request drops one of these resources, or everything. -/
def CacheRequest.Invalidates (oids : List String) : CacheRequest → Prop
  | .invalidate oid => oid ∈ oids
  | .invalidateAll => True
  | _ => False

/-- Someone drops one of these resources, or everything. -/
def Event.Invalidates (oids : List String) : Event → Prop
  | .asked _ exchange => ∃ r, exchange.request = .cache r ∧ r.Invalidates oids
  | _ => False

namespace DefinitionCache

variable {c : DefinitionCache} {t : Ticket} {oids : List String}

/-- What a request does to what is remembered of invalidations. -/
theorem invalidations_answer (c : DefinitionCache) (now : Instant) (r : CacheRequest) :
    (c.answer now r).2.invalidations =
      match r with
      | .invalidate oid => c.invalidations.single oid
      | .invalidateAll => c.invalidations.everything
      | _ => c.invalidations := by
  cases r with
  | put d since => exact invalidations_put c now d since
  | evict oid version => exact invalidations_evict c oid version
  | _ => rfl

theorem counted_answer (h : c.invalidations.Counted) (now : Instant) (r : CacheRequest) :
    (c.answer now r).2.invalidations.Counted := by
  rw [invalidations_answer]
  cases r with
  | invalidate oid => exact h.single oid
  | invalidateAll => exact Invalidations.counted_everything _
  | _ => exact h

theorem generation_le_answer (c : DefinitionCache) (now : Instant) (r : CacheRequest) :
    c.invalidations.generation ≤ (c.answer now r).2.invalidations.generation := by
  rw [invalidations_answer]
  cases r with
  | invalidate oid => exact Nat.le_succ _
  | invalidateAll => exact Nat.le_succ _
  | _ => exact Nat.le_refl _

theorem since_answer (ht : t.generation ≤ c.invalidations.generation) (now : Instant)
    (r : CacheRequest) :
    (c.answer now r).2.invalidations.since t oids = true ↔
      c.invalidations.since t oids = true ∨ r.Invalidates oids := by
  rw [invalidations_answer]
  cases r with
  | invalidate oid => exact Invalidations.since_single ht oid
  | invalidateAll =>
    exact ⟨fun _ => .inr trivial, fun _ => Invalidations.since_everything ht⟩
  | _ => exact (or_iff_left (fun h : False => h)).symm

/-- What becomes of an offer under a ticket. -/
theorem outcomeOf_eq_stored_iff (c : DefinitionCache) (d : Resource) (t : Ticket) :
    c.outcomeOf d (some t) = .stored ↔
      d.isCompleted = true ∧ ¬ c.invalidations.since t (sources d) = true ∧
        ∀ e, c.find? d.oid = some e → ¬ d.version < e.sourceVersion := by
  unfold outcomeOf
  cases d.isCompleted with
  | false => simp
  | true =>
    cases hs : c.invalidations.since t (sources d) with
    | true => simp [hs]
    | false =>
      cases hf : c.find? d.oid with
      | none => simp [hs]
      | some e =>
        by_cases hv : d.version < e.sourceVersion
        · simp [hs, hv]
        · simp [hs, hv]

end DefinitionCache

/-! ### Histories -/

namespace Interleaving

variable {sv : Service} {outages : Outages} {s u : State} {e : Event} {events : List Event}
variable {t : Ticket} {oids : List String}

/-- An event is a step at the cache, or leaves the cache alone. -/
theorem Step.cache (h : Step sv outages s e u) :
    (∃ id r, ∃ now, e = .asked id ⟨.cache r, (s.world.cache.answer now r).1⟩ ∧
        u.world.cache = (s.world.cache.answer now r).2) ∨
      (∀ id r reply, e ≠ .asked id ⟨.cache r, reply⟩) ∧ u.world.cache = s.world.cache := by
  cases h with
  | @ask id op r next reply w h answered =>
    cases answered with
    | outage h =>
      refine .inr ⟨fun id' r' reply' he => ?_, rfl⟩
      cases he
    | answered connectors r =>
      cases r with
      | cache r => exact .inl ⟨id, r, s.world.clock, rfl, rfl⟩
      | _ =>
        refine .inr ⟨fun id' r' reply' he => ?_, rfl⟩
        cases he
  | _ =>
    refine .inr ⟨fun id' r' reply' he => ?_, rfl⟩
    cases he

theorem Step.counted (h : Step sv outages s e u) (hs : s.world.cache.invalidations.Counted) :
    u.world.cache.invalidations.Counted := by
  rcases h.cache with ⟨id, r, now, -, hu⟩ | ⟨-, hu⟩
  · rw [hu]
    exact DefinitionCache.counted_answer hs now r
  · rw [hu]
    exact hs

theorem Run.counted (h : Run sv outages s events u) (hs : s.world.cache.invalidations.Counted) :
    u.world.cache.invalidations.Counted := by
  induction h with
  | nil => exact hs
  | cons step _ ih => exact ih (step.counted hs)

theorem Step.generation_le (h : Step sv outages s e u) :
    s.world.cache.invalidations.generation ≤ u.world.cache.invalidations.generation := by
  rcases h.cache with ⟨id, r, now, -, hu⟩ | ⟨-, hu⟩
  · rw [hu]
    exact DefinitionCache.generation_le_answer _ now r
  · exact Nat.le_of_eq (by rw [hu])

/-- One event invalidates what it drops, and nothing else. -/
theorem Step.since_iff (h : Step sv outages s e u)
    (ht : t.generation ≤ s.world.cache.invalidations.generation) :
    u.world.cache.invalidations.since t oids = true ↔
      s.world.cache.invalidations.since t oids = true ∨ e.Invalidates oids := by
  rcases h.cache with ⟨id, r, now, rfl, hu⟩ | ⟨hno, hu⟩
  · have hr : Event.Invalidates oids (.asked id ⟨.cache r, (s.world.cache.answer now r).1⟩) ↔
        r.Invalidates oids := by
      constructor
      · rintro ⟨r', hr, h⟩
        cases hr
        exact h
      · exact fun h => ⟨r, rfl, h⟩
    rw [hu, DefinitionCache.since_answer ht, hr]
  · -- Whatever leaves the cache alone invalidates nothing.
    have hnone : ¬ e.Invalidates oids := by
      intro h
      cases e with
      | asked id exchange =>
        obtain ⟨request, reply⟩ := exchange
        obtain ⟨r, hr, -⟩ := h
        cases hr
        exact hno id r reply rfl
      | _ => exact h
    rw [hu]
    exact (or_iff_left hnone).symm

/-- In a history, a resource counts as invalidated after a ticket was taken just when it was. -/
theorem Run.since_iff (h : Run sv outages s events u)
    (ht : t.generation ≤ s.world.cache.invalidations.generation) :
    u.world.cache.invalidations.since t oids = true ↔
      s.world.cache.invalidations.since t oids = true ∨ ∃ e ∈ events, e.Invalidates oids := by
  -- The count never falls, so the ticket is not ahead of it at any event.
  induction h with
  | nil => simp
  | @cons s s' u e events step _ ih =>
    rw [ih (Nat.le_trans ht step.generation_le), step.since_iff ht, or_assoc]
    refine or_congr_right ?_
    simp only [List.mem_cons, exists_eq_or_imp]

/-- After a ticket was taken, only what is dropped from then on counts as invalidated. -/
theorem Run.since_ticket_iff {before between : List Event} {id : Nat}
    (h : Run sv outages s (before ++ .asked id ⟨.cache .ticket, t⟩ :: between) u)
    (hs : s.world.cache.invalidations.Counted) :
    u.world.cache.invalidations.since t oids = true ↔ ∃ e ∈ between, e.Invalidates oids := by
  obtain ⟨v, hv, h⟩ := run_append_iff.1 h
  cases h with
  | @cons _ w _ _ _ step rest =>
    have hcounted : v.world.cache.invalidations.Counted := hv.counted hs
    -- To take a ticket changes nothing, and the ticket has the count of that moment.
    obtain ⟨hw, rfl⟩ : w.world.cache = v.world.cache ∧ v.world.cache.ticket = t := by
      rcases step.cache with ⟨id', r, now, he, hw⟩ | ⟨hno, hw⟩
      · cases he
        exact ⟨hw, rfl⟩
      · exact absurd rfl (hno id .ticket t)
    rw [rest.since_iff (hw ▸ Nat.le_refl _), hw]
    have hnow : v.world.cache.invalidations.since v.world.cache.ticket oids = false :=
      hcounted.since_now oids
    rw [hnow]
    simp

/-! ### Offers -/

variable {v : State} {before between : List Event} {d : Resource} {outcome : PutOutcome}

/-- What an offer is answered is up to the cache as it is then; a refused one changes nothing. -/
theorem Step.put {id : Nat} {since : Option Ticket}
    (h : Step sv outages u (.asked id ⟨.cache (.put d since), outcome⟩) v) :
    outcome = u.world.cache.outcomeOf d since ∧
      (outcome ≠ .stored → v.world.cache = u.world.cache) := by
  rcases h.cache with ⟨id', r, now, he, hv⟩ | ⟨hno, -⟩
  · cases he
    refine ⟨rfl, fun hne => ?_⟩
    rw [hv]
    exact DefinitionCache.put_eq_of_ne_stored hne
  · exact absurd rfl (hno id (.put d since) outcome)

/-- Who offers a resource is told whether it was stored. -/
theorem told_of_reaches_offer {since : Option Ticket} {rest : List Exchange} {told : Bool}
    (h : (Definitions.offer d since).Reaches (⟨.cache (.put d since), outcome⟩ :: rest)
      (.done told)) : told = true ↔ outcome = .stored := by
  cases h with
  | step h =>
    cases h with
    | step h =>
      cases h
      exact beq_iff_eq

/-- What is offered under a ticket is taken just when it is completed, nothing that it depends on
was invalidated since the ticket was taken, and the cache has no later version.  What is refused
leaves the cache as it is. -/
theorem told_iff_of_ticket {i j : Nat} (hnew : s.world.cache = {})
    (hrun : Run sv outages s (before ++ .asked i ⟨.cache .ticket, t⟩ :: between) u)
    (hput : Step sv outages u (.asked j ⟨.cache (.put d (some t)), outcome⟩) v)
    {rest : List Exchange} {told : Bool}
    (htold : (Definitions.offer d (some t)).Reaches
      (⟨.cache (.put d (some t)), outcome⟩ :: rest) (.done told)) :
    (told = true ↔
      d.isCompleted = true ∧ (∀ e ∈ between, ¬ e.Invalidates (DefinitionCache.sources d)) ∧
        ∀ entry, u.world.cache.find? d.oid = some entry → ¬ d.version < entry.sourceVersion) ∧
      (told = false → v.world.cache = u.world.cache) := by
  obtain ⟨houtcome, hrefused⟩ := hput.put
  have hcounted : s.world.cache.invalidations.Counted := hnew ▸ Invalidations.counted_new
  have hsince : u.world.cache.invalidations.since t (DefinitionCache.sources d) = true ↔
      ∃ e ∈ between, e.Invalidates (DefinitionCache.sources d) := hrun.since_ticket_iff hcounted
  constructor
  · rw [told_of_reaches_offer htold, houtcome, DefinitionCache.outcomeOf_eq_stored_iff, hsince]
    simp only [not_exists, not_and]
  · intro hfalse
    refine hrefused fun hstored => ?_
    rw [(told_of_reaches_offer htold).2 hstored] at hfalse
    cases hfalse

/-- A resource completed from one template. -/
def sampleCompleted : Resource where
  oid := "child"
  name := "child"
  completionStatus := .completed
  ancestorVersions := .ofList [("template", .initial)]

/-- One takes a ticket, another drops the template, and a third offers what depends on it. -/
theorem told_iff_of_ticket_sample : ∃ before between u v,
    Run { templateLimit := 10 } (fun _ _ => False) ⟨{}, fun _ => none⟩
      (before ++ .asked 0 ⟨.cache .ticket, ⟨0⟩⟩ :: between) u ∧
    Step { templateLimit := 10 } (fun _ _ => False) u
      (.asked 2 ⟨.cache (.put sampleCompleted (some ⟨0⟩)), .invalidated⟩) v ∧
    ¬ (∀ e ∈ between, ¬ e.Invalidates (DefinitionCache.sources sampleCompleted)) ∧
    v.world.cache = u.world.cache := by
  let between : List Event :=
    [.started 1 default (.atCache (.invalidate "template")),
      .asked 1 ⟨.cache (.invalidate "template"), ⟨false, 0⟩⟩,
      .started 2 default (.atCache (.put sampleCompleted (some ⟨0⟩)))]
  have hwhole : Run { templateLimit := 10 } (fun _ _ => False) ⟨{}, fun _ => none⟩
      (([.started 0 default (.atCache .ticket)] ++ .asked 0 ⟨.cache .ticket, ⟨0⟩⟩ :: between) ++
        [.asked 2 ⟨.cache (.put sampleCompleted (some ⟨0⟩)), .invalidated⟩]) _ :=
    .cons (.start _ _ rfl) <| .cons (.ask rfl (.answered (fun _ _ => .error default) _)) <|
      .cons (.start _ _ rfl) <| .cons (.ask rfl (.answered (fun _ _ => .error default) _)) <|
        .cons (.start _ _ rfl) <| .cons (.ask rfl (.answered (fun _ _ => .error default) _)) <|
          .nil _
  have htold : (Definitions.offer sampleCompleted (some ⟨0⟩)).Reaches
      [⟨.cache (.put sampleCompleted (some ⟨0⟩)), .invalidated⟩,
        ⟨.remark (Definitions.offerRemark sampleCompleted .invalidated), ()⟩] (.done false) :=
    .step (.step (.here _))
  obtain ⟨u, hrun, hlast⟩ := run_append_iff.1 hwhole
  cases hlast with
  | cons hput hnil =>
    have hfalse := told_iff_of_ticket rfl hrun hput htold
    refine ⟨_, between, u, _, hrun, hput, fun hno => ?_, hfalse.2 rfl⟩
    refine hno (.asked 1 ⟨.cache (.invalidate "template"), ⟨false, 0⟩⟩) (by simp [between]) ?_
    have htemplate : "template" ∈ DefinitionCache.sources sampleCompleted := by decide +kernel
    exact ⟨_, rfl, htemplate⟩

end Interleaving

end Reconciler
