/-
Monitors that record the availability of resources side by side.

A monitor reads the stored status and records the one it observed if that is another.  Other
monitors may record theirs between these two requests.

* `OperationalState.Alternates`, `Agrees`: no status is listed twice in a row, and the last status
  is the one that is listed last;
* `Operation.Monitors`: the operation records changes of availability, and writes nothing else;
* `Event.lastRecorded?`: the status that was recorded last;
* `Event.Overtaken`: the same status was recorded between what a monitor read and what it recorded.

Main statements:
* `OperationalState.Alternates.record`, `not_alternates_record`: when a recording repeats a status;
* `Interleaving.Run.exists_read`: whoever writes has read another status before;
* `Interleaving.Run.recorded_cases`: the stored status is the one that was recorded last;
* `Interleaving.repeated_iff_overtaken`: a history ever repeats a status just if a monitor was
  overtaken and more than one change is remembered;
* `Interleaving.recorded_twice`: two monitors that observe the same change record it twice.

Design notes:
* Operations that write nothing may be under way as well.
-/
import Mathlib.Data.List.Chain
import Reconciler.Proofs.Marking

namespace Reconciler

open Program

/-! ### Recorded changes -/

namespace OperationalState

variable {s : OperationalState} {limit : Nat} {change last : AvailabilityChange}

/-- No status is listed twice in a row. -/
def Alternates (s : OperationalState) : Prop :=
  s.history.IsChain fun a b => a.status ≠ b.status

instance (s : OperationalState) : Decidable s.Alternates :=
  inferInstanceAs (Decidable (s.history.IsChain fun a b => a.status ≠ b.status))

/-- The last status is that of the last change listed, if there is one. -/
def Agrees (s : OperationalState) : Prop :=
  ∀ last ∈ s.history.getLast?, s.lastStatus = some last.status

theorem getLast?_history_record (h : 1 ≤ limit) :
    (s.record limit change).history.getLast? = some change := by
  have hshort : (s.history ++ [change]).length - limit ≤ s.history.length := by simp; omega
  rw [record, lastEntries, List.drop_append_of_le_length hshort, List.getLast?_concat]

theorem agrees_record : (s.record limit change).Agrees := by
  intro last hlast
  by_cases h : 1 ≤ limit
  · rw [getLast?_history_record h] at hlast
    cases hlast
    rfl
  · obtain rfl : limit = 0 := by omega
    simp [record, lastEntries] at hlast

/-- A change that is one is listed next to another status. -/
theorem Alternates.record (h : s.Alternates) (hagrees : s.Agrees)
    (hchange : s.lastStatus ≠ some change.status) : (s.record limit change).Alternates := by
  refine List.IsChain.drop (h.append (.singleton change) fun last hlast next hnext => ?_) _
  obtain rfl : change = next := by simpa using hnext
  exact fun hsame => hchange (hsame ▸ hagrees last hlast)

/-- A single change is not listed next to any. -/
theorem alternates_record_of_le_one (h : limit ≤ 1) : (s.record limit change).Alternates := by
  have hlength : (s.record limit change).history.length ≤ 1 := by
    simp [record, lastEntries]
    omega
  unfold Alternates
  generalize (s.record limit change).history = listed at hlength ⊢
  rcases listed with _ | ⟨a, _ | ⟨b, rest⟩⟩
  · exact .nil
  · exact .singleton a
  · simp at hlength

/-- A change to the status that is listed last is listed next to it. -/
theorem not_alternates_record (hlast : s.history.getLast? = some last)
    (hsame : last.status = change.status) (h : 2 ≤ limit) :
    ¬ (s.record limit change).Alternates := by
  obtain ⟨earlier, hhistory⟩ := List.getLast?_eq_some_iff.1 hlast
  intro halternates
  have hshort : (earlier ++ [last, change]).length - limit ≤ earlier.length := by simp; omega
  have hlisted : (s.record limit change).history =
      earlier.drop ((earlier ++ [last, change]).length - limit) ++ [last, change] := by
    rw [record, hhistory, lastEntries, List.append_assoc]
    exact List.drop_append_of_le_length hshort
  rw [Alternates, hlisted, List.isChain_append_cons_cons] at halternates
  exact halternates.2.1 hsame

end OperationalState

/-! ### Monitors -/

namespace Service

variable {sv : Service} {c : Caller}

/-- A request that writes is to record a status which is not the one that was read before. -/
def RecordsChange (sv : Service) (c : Caller) (oid : String) (status : Availability)
    (reason : Option String) (past : List Exchange) (r : Request) : Prop :=
  r.Writes → ∃ stored told now,
    past = ⟨.store (.read oid), .ok stored⟩ :: told ∧ stored.availability ≠ some status ∧
      r = .store (.modify oid [.recordAvailability
        { status := status, timestamp := now, reason := reason, taskId := c.task }
        sv.tuning.historySize])

theorem setAvailability_records (sv : Service) (c : Caller) (oid : String) (status : Availability)
    (reason : Option String) :
    (sv.setAvailability c oid status reason false).run.Meets (fun _ => True)
      (sv.RecordsChange c oid status reason) (fun _ _ => True) [] := by
  have hread : (Action.store (.read oid)).run.Meets (fun _ => True)
      (sv.RecordsChange c oid status reason)
      (fun past outcome => ∀ stored, outcome = .ok stored →
        past = [⟨.store (.read oid), .ok stored⟩]) [] := by
    refine ⟨fun h => h.elim, fun reply _ => ?_⟩
    rintro stored hstored
    cases reply with
    | error e => cases hstored
    | ok r =>
      cases hstored
      rfl
  unfold setAvailability
  rw [if_neg Bool.false_ne_true]
  refine .action_bind hread (fun past stored hpast => ?_) fun _ _ _ => trivial
  rw [hpast stored rfl]
  split
  · exact ⟨fun h => h.elim, fun _ _ => trivial⟩
  · next hchanged =>
    refine ⟨fun h => h.elim, fun _ _ => ⟨fun h => h.elim, fun now _ => ?_⟩⟩
    refine ⟨fun _ => ⟨stored, _, now, rfl, hchanged, rfl⟩, fun reply _ => ?_⟩
    cases reply <;> trivial

end Service

/-- The operation records a status that was observed if it is not the stored one, or it does not
write to the repository. -/
def Operation.Monitors (sv : Service) (c : Caller) (op : Operation) : Prop :=
  (∃ oid status reason, op = .setAvailability oid status reason false) ∨
    (op.action sv c).run.Asks Request.Spares

namespace Event

/-- The status that was recorded of a resource at an event. -/
def recorded? (oid : String) : Event → Option Availability
  | asked _ ⟨.store (.modify key [.recordAvailability change _]), .ok _⟩ =>
    if key = oid then some change.status else none
  | _ => none

/-- The status that was recorded last of a resource. -/
def lastRecorded? (oid : String) (events : List Event) : Option Availability :=
  (events.filterMap (recorded? oid)).getLast?

/-- Between what a monitor read and what it recorded, the same status was recorded by another. -/
def Overtaken (oid : String) (events : List Event) : Prop :=
  ∃ first id stored between change limit v after,
    events = first ++ .asked id ⟨.store (.read oid), .ok stored⟩ :: (between ++
      .asked id ⟨.store (.modify oid [.recordAvailability change limit]), .ok v⟩ :: after) ∧
    (∀ e ∈ between, ¬ e.Finishes id) ∧ lastRecorded? oid between = some change.status

variable {oid : String} {e : Event} {events later : List Event} {status : Availability}

theorem exists_of_recorded? (h : e.recorded? oid = some status) :
    ∃ id change limit v, change.status = status ∧
      e = .asked id ⟨.store (.modify oid [.recordAvailability change limit]), .ok v⟩ := by
  unfold recorded? at h
  split at h
  · next id key change limit v =>
    split at h
    · next hkey =>
      cases h
      exact ⟨id, change, limit, v, rfl, hkey ▸ rfl⟩
    · cases h
  · cases h

theorem lastRecorded?_concat_of_none (h : e.recorded? oid = none) :
    lastRecorded? oid (events ++ [e]) = lastRecorded? oid events := by
  simp [lastRecorded?, h]

theorem lastRecorded?_concat_of_some (h : e.recorded? oid = some status) :
    lastRecorded? oid (events ++ [e]) = some status := by
  simp [lastRecorded?, h]

theorem Overtaken.append (h : Overtaken oid events) (later : List Event) :
    Overtaken oid (events ++ later) := by
  obtain ⟨first, id, stored, between, change, limit, v, after, rfl, hrest⟩ := h
  exact ⟨first, id, stored, between, change, limit, v, after ++ later, by simp, hrest⟩

end Event

namespace Interleaving

variable {sv : Service} {outages : Outages} {s m t : State} {events between : List Event}
variable {e : Event} {id : Nat} {x : Exchange} {oid : String}

/-! ### What monitors write -/

/-- Whoever writes records a change, and has read another status before. -/
theorem Run.exists_read (hrun : Run sv outages s events m) (hidle : ∀ id, s.underWay id = none)
    (hmonitors : ∀ id c op, .started id c op ∈ events → op.Monitors sv c)
    (step : Step sv outages m (.asked id x) t) (hwrites : x.request.Writes) :
    ∃ key change first stored between,
      x.request = .store (.modify key [.recordAvailability change sv.tuning.historySize]) ∧
      events = first ++ .asked id ⟨.store (.read key), .ok stored⟩ :: between ∧
      (∀ e ∈ between, ¬ e.Finishes id) ∧ stored.availability ≠ some change.status := by
  cases step with
  | @ask id op r next reply w hunder _ =>
    obtain ⟨before, c, since, rfl, hsince, hreaches⟩ := hrun.exists_started hidle hunder
    rcases hmonitors id c op (by simp) with ⟨key, status, reason, rfl⟩ | hspares
    · have hmeets := (Service.setAvailability_records sv c key status reason).of_reaches hreaches
        fun _ _ => trivial
      obtain ⟨stored, told, now, hpast, hchanged, rfl⟩ := hmeets.1 hwrites
      have hexchanged : Event.exchangesOf id since =
          [] ++ ⟨.store (.read key), .ok stored⟩ :: told := hpast
      obtain ⟨first, second, rfl, -, -⟩ := Event.exists_of_exchangesOf_eq hexchanged
      refine ⟨key, _, before ++ .started id c (.setAvailability key status reason false) :: first,
        stored, second, rfl, by simp, fun e he => hsince e (by simp [he]), hchanged⟩
    · have hon : (ask r next).Reaches [⟨r, reply⟩] (next reply) := .step (.here _)
      exact absurd hwrites (hspares.of_reaches (hreaches.append hon) ⟨r, reply⟩ (by simp))

theorem Step.modify_of_ok {key : String} {changes : List ResourceChange} {v : Version}
    (step : Step sv outages m (.asked id ⟨.store (.modify key changes), .ok v⟩) t) :
    m.world.store.modify key changes = .ok (v, t.world.store) := by
  cases step with
  | ask _ answered =>
    generalize hreply : (Except.ok v : Except StoreError Version) = reply at answered
    cases answered with
    | outage h => cases hreply
    | answered connectors =>
      simp only [World.answer, Store.answer, world_move] at hreply ⊢
      cases hmodify : m.world.store.modify key changes with
      | error e =>
        rw [hmodify] at hreply
        cases hreply
      | ok modified =>
        rw [hmodify] at hreply
        cases hreply
        rfl

/-- At every event a change of a resource is recorded by someone who has read another status before,
or the resource stays as it is. -/
theorem Run.step_cases (hrun : Run sv outages s events m) (hidle : ∀ id, s.underWay id = none)
    (hmonitors : ∀ id c op, .started id c op ∈ events → op.Monitors sv c)
    (step : Step sv outages m e t) (oid : String) :
    (e.recorded? oid = none ∧ t.world.store.find? oid = m.world.store.find? oid) ∨
      ∃ id change v r first stored between,
        e = .asked id
          ⟨.store (.modify oid [.recordAvailability change sv.tuning.historySize]), .ok v⟩ ∧
        m.world.store.find? oid = some r ∧
        t.world.store.find? oid = some { r with
          operationalState := r.operationalState.record sv.tuning.historySize change
          version := r.version.next } ∧
        events = first ++ .asked id ⟨.store (.read oid), .ok stored⟩ :: between ∧
        (∀ e ∈ between, ¬ e.Finishes id) ∧ stored.availability ≠ some change.status := by
  cases hrecorded : e.recorded? oid with
  | none =>
    refine .inl ⟨rfl, ?_⟩
    rcases step.store_cases with ⟨hstore, -⟩ | ⟨id, _, _, _, rfl, -⟩ |
      ⟨id, key, changes, v, rfl, hmodify⟩ | ⟨id, _, rfl, -⟩
    · rw [hstore]
    · obtain ⟨_, _, _, _, _, hrequest, -⟩ := hrun.exists_read hidle hmonitors step trivial
      cases hrequest
    · obtain ⟨_, change, _, _, _, hrequest, -⟩ := hrun.exists_read hidle hmonitors step trivial
      cases hrequest
      -- Another resource is written.
      have hkey : key ≠ oid := fun hkey => by simp [Event.recorded?, hkey] at hrecorded
      rw [Store.read_modify hmodify, if_neg hkey.symm]
    · obtain ⟨_, _, _, _, _, hrequest, -⟩ := hrun.exists_read hidle hmonitors step trivial
      cases hrequest
  | some status =>
    obtain ⟨id, change, limit, v, -, rfl⟩ := Event.exists_of_recorded? hrecorded
    obtain ⟨_, _, first, stored, between, hrequest, hevents, hsince, hchanged⟩ :=
      hrun.exists_read hidle hmonitors step trivial
    cases hrequest
    obtain ⟨r, hfind, hrecords⟩ := Store.records_of_modify step.modify_of_ok
    refine .inr ⟨id, change, v, r, first, stored, between, rfl, hfind, ?_, hevents, hsince,
      hchanged⟩
    rw [hrecords, if_pos rfl]

/-! ### What is stored meanwhile -/

/-- The last status of a resource is the one that was recorded last, which is also listed last, or
the resource is as it was. -/
theorem Run.recorded_cases (hearlier : Run sv outages s events m)
    (hlater : Run sv outages m between t) (hidle : ∀ id, s.underWay id = none)
    (hmonitors : ∀ id c op, .started id c op ∈ events ++ between → op.Monitors sv c)
    (oid : String) :
    (Event.lastRecorded? oid between = none ∧
        t.world.store.find? oid = m.world.store.find? oid) ∨
      ∃ status r, Event.lastRecorded? oid between = some status ∧
        t.world.store.find? oid = some r ∧ r.availability = some status ∧
        (1 ≤ sv.tuning.historySize →
          ∃ last, r.operationalState.history.getLast? = some last ∧ last.status = status) := by
  induction between using List.reverseRecOn generalizing t with
  | nil =>
    cases hlater
    exact .inl ⟨rfl, rfl⟩
  | append_singleton between e ih =>
    obtain ⟨n, hbetween, step⟩ := run_concat_iff.1 hlater
    rw [← List.append_assoc] at hmonitors
    have hmonitors : ∀ id c op, .started id c op ∈ events ++ between → op.Monitors sv c :=
      fun id c op hop => hmonitors id c op (List.mem_append_left _ hop)
    have hrun : Run sv outages s (events ++ between) n := run_append_iff.2 ⟨m, hearlier, hbetween⟩
    rcases hrun.step_cases hidle hmonitors step oid with
      ⟨hnone, hfind⟩ | ⟨id, change, v, r, _, _, _, rfl, -, hfind, -⟩
    · rw [Event.lastRecorded?_concat_of_none hnone, hfind]
      exact ih hbetween hmonitors
    · refine .inr ⟨change.status, _, ?_, hfind, rfl, fun hlimit => ⟨change, ?_, rfl⟩⟩
      · exact Event.lastRecorded?_concat_of_some (by simp [Event.recorded?])
      · exact OperationalState.getLast?_history_record hlimit

/-- As long as no monitor is overtaken, no status is listed twice in a row. -/
theorem Run.alternates_or_overtaken (hrun : Run sv outages s events t)
    (hidle : ∀ id, s.underWay id = none)
    (hmonitors : ∀ id c op, .started id c op ∈ events → op.Monitors sv c)
    (hinitial : ∀ r, s.world.store.find? oid = some r →
      r.operationalState.Alternates ∧ r.operationalState.Agrees) :
    (∀ r, t.world.store.find? oid = some r →
        r.operationalState.Alternates ∧ r.operationalState.Agrees) ∨
      2 ≤ sv.tuning.historySize ∧ Event.Overtaken oid events := by
  induction events using List.reverseRecOn generalizing t with
  | nil =>
    cases hrun
    exact .inl hinitial
  | append_singleton events e ih =>
    obtain ⟨m, hbefore, step⟩ := run_concat_iff.1 hrun
    have hsofar : ∀ id c op, .started id c op ∈ events → op.Monitors sv c :=
      fun id c op hop => hmonitors id c op (List.mem_append_left _ hop)
    rcases ih hbefore hsofar with hm | ⟨hlimit, hovertaken⟩
    · rcases hbefore.step_cases hidle hsofar step oid with
        ⟨-, hfind⟩ | ⟨id, change, v, r, first, stored, between, rfl, hr, hfind, rfl, hsince, hread⟩
      · rw [hfind]
        exact .inl hm
      · by_cases hlimit : 2 ≤ sv.tuning.historySize
        · by_cases hchange : r.availability = some change.status
          · -- The status has become the same since it was read.
            refine .inr ⟨hlimit, first, id, stored, between, change, _, v, [], by simp, hsince, ?_⟩
            obtain ⟨n, hfirst, hsecond⟩ := run_append_iff.1 hbefore
            have hstored : n.world.store.find? oid = some stored := by
              cases hsecond with
              | cons reading _ => exact reading.find?_of_read
            rcases hfirst.recorded_cases hsecond hidle hsofar oid with
              ⟨-, hsame⟩ | ⟨status, r', hlast, hr', hstatus, -⟩
            · rw [hr, hstored] at hsame
              cases hsame
              exact absurd hchange hread
            · rw [hr] at hr'
              cases hr'
              rw [hchange] at hstatus
              cases hstatus
              exact hlast
          · refine .inl fun r' hr' => ?_
            rw [hfind] at hr'
            cases hr'
            obtain ⟨halternates, hagrees⟩ := hm r hr
            exact ⟨halternates.record hagrees hchange, OperationalState.agrees_record⟩
        · refine .inl fun r' hr' => ?_
          rw [hfind] at hr'
          cases hr'
          exact ⟨OperationalState.alternates_record_of_le_one (by omega),
            OperationalState.agrees_record⟩
    · exact .inr ⟨hlimit, hovertaken.append [e]⟩

/-- **A status is recorded twice in a row just if a monitor is overtaken.**  Monitors record the
availability of a resource whose history lists no status twice in a row and ends with the last
status.  The history is the same in this at every moment, unless more than one change is remembered
and, between what a monitor read and what it recorded, another one recorded the same status; and
then it is not. -/
theorem repeated_iff_overtaken (hrun : Run sv outages s events t)
    (hidle : ∀ id, s.underWay id = none)
    (hmonitors : ∀ id c op, .started id c op ∈ events → op.Monitors sv c)
    (hinitial : ∀ r, s.world.store.find? oid = some r →
      r.operationalState.Alternates ∧ r.operationalState.Agrees) :
    (∃ before after m r, events = before ++ after ∧ Run sv outages s before m ∧
        m.world.store.find? oid = some r ∧ ¬ r.operationalState.Alternates) ↔
      2 ≤ sv.tuning.historySize ∧ Event.Overtaken oid events := by
  constructor
  · rintro ⟨before, after, m, r, rfl, hbefore, hr, hrepeated⟩
    have hmonitors : ∀ id c op, .started id c op ∈ before → op.Monitors sv c :=
      fun id c op hop => hmonitors id c op (List.mem_append_left _ hop)
    rcases hbefore.alternates_or_overtaken hidle hmonitors hinitial with
      halternates | ⟨hlimit, hovertaken⟩
    · exact absurd (halternates r hr).1 hrepeated
    · exact ⟨hlimit, hovertaken.append after⟩
  · rintro ⟨hlimit, first, id, stored, between, change, limit, v, after, rfl, -, hlast⟩
    -- The history up to what the monitor recorded, and that.
    let reading : Event := .asked id ⟨.store (.read oid), .ok stored⟩
    let writing : Event :=
      .asked id ⟨.store (.modify oid [.recordAvailability change limit]), .ok v⟩
    have hsplit : first ++ reading :: (between ++ writing :: after) =
        (first ++ [reading]) ++ between ++ writing :: after := by simp
    rw [hsplit] at hrun hmonitors ⊢
    obtain ⟨n, u, hbefore, step, -⟩ := hrun.exists_step
    obtain ⟨m, hfirst, hbetween⟩ := run_append_iff.1 hbefore
    have hmonitors : ∀ id c op, .started id c op ∈ first ++ [reading] ++ between →
        op.Monitors sv c := fun id c op hop => hmonitors id c op (List.mem_append_left _ hop)
    obtain ⟨status, r, hstatus, hr, -, hlisted⟩ : ∃ status r,
        Event.lastRecorded? oid between = some status ∧ n.world.store.find? oid = some r ∧
          r.availability = some status ∧ (1 ≤ sv.tuning.historySize →
            ∃ last, r.operationalState.history.getLast? = some last ∧ last.status = status) := by
      rcases hfirst.recorded_cases hbetween hidle hmonitors oid with ⟨hnone, -⟩ | hsome
      · rw [hnone] at hlast
        cases hlast
      · exact hsome
    rw [hlast] at hstatus
    cases hstatus
    obtain ⟨last, hlast, hsame⟩ := hlisted (by omega)
    rcases hbefore.step_cases hidle hmonitors step oid with
      ⟨hnone, -⟩ | ⟨_, _, _, r', _, _, _, he, hr', hfind, -⟩
    · simp [writing, Event.recorded?] at hnone
    · simp only [writing] at he
      cases he
      rw [hr] at hr'
      cases hr'
      refine ⟨first ++ [reading] ++ between ++ [writing], after, u, _, by simp,
        run_concat_iff.2 ⟨n, hbefore, step⟩, hfind, ?_⟩
      exact OperationalState.not_alternates_record hlast hsame hlimit

/-- A resource that was found to be up is stored. -/
def monitoredStart : State where
  world :=
    { store := Store.empty.put
        { Completion.sampleTemplate with
          operationalState :=
            { lastStatus := some .up
              history :=
                [{ status := .up, timestamp := .epoch, reason := none, taskId := none }] } } }
  underWay _ := none

theorem alternates_monitoredStart {r : Resource}
    (hr : monitoredStart.world.store.find? "directory" = some r) :
    r.operationalState.Alternates ∧ r.operationalState.Agrees := by
  cases hr
  refine ⟨by decide, fun last hlast => ?_⟩
  cases hlast
  rfl

/-- Two monitors find the resource down; both read before either records it. -/
def sampleMonitors : List Event × State :=
  monitoredStart.play { templateLimit := 3 } Completion.sampleConnectors
    [.start 0 default (.setAvailability "directory" .down none false),
      .start 1 default (.setAvailability "directory" .down none false),
      .go 0, .go 1, .go 0, .go 0, .go 0, .go 0, .go 1, .go 1, .go 1, .go 1]

theorem monitors_of_started_sampleMonitors {id : Nat} {c : Caller} {op : Operation}
    (h : .started id c op ∈ sampleMonitors.1) :
    op = .setAvailability "directory" .down none false := by
  have hscheduled := start_mem_of_play h
  simp only [List.mem_cons, Move.start.injEq, reduceCtorEq, or_false, List.not_mem_nil]
    at hscheduled
  rcases hscheduled with ⟨-, -, hop⟩ | ⟨-, -, hop⟩ <;> exact hop

/-- The second monitor was overtaken by the first. -/
theorem repeated_iff_overtaken_sample :
    Run { templateLimit := 3 } (fun _ _ => False) monitoredStart sampleMonitors.1
      sampleMonitors.2 ∧ Event.Overtaken "directory" sampleMonitors.1 := by
  have hrun : Run { templateLimit := 3 } (fun _ _ => False) monitoredStart sampleMonitors.1
      sampleMonitors.2 := run_play _ _ _ _ _
  have hrepeated : ∃ r, sampleMonitors.2.world.store.find? "directory" = some r ∧
      ¬ r.operationalState.Alternates := ⟨_, rfl, by decide +kernel⟩
  obtain ⟨r, hr, hrepeated⟩ := hrepeated
  have hovertaken : 2 ≤ ({ templateLimit := 3 } : Service).tuning.historySize ∧
      Event.Overtaken "directory" sampleMonitors.1 :=
    (repeated_iff_overtaken hrun (fun _ => rfl)
      (fun _ _ _ hop => .inl ⟨_, _, _, monitors_of_started_sampleMonitors hop⟩)
      fun _ => alternates_monitoredStart).1
      ⟨sampleMonitors.1, [], _, r, by simp, hrun, hr, hrepeated⟩
  exact ⟨hrun, hovertaken.2⟩

/-- Two monitors that observe the same change record it twice, though each has asked whether it is
stored already. -/
theorem recorded_twice : ∃ events t,
    Run { templateLimit := 3 } (fun _ _ => False) monitoredStart events t ∧
    (∀ id c op, .started id c op ∈ events →
      ∃ oid status reason, op = .setAvailability oid status reason false) ∧
    (∀ r, monitoredStart.world.store.find? "directory" = some r →
      r.operationalState.Alternates ∧ r.operationalState.Agrees) ∧
    1 ≤ ({ templateLimit := 3 } : Service).tuning.historySize ∧
    (t.world.store.find? "directory").map (·.operationalState.history.map (·.status)) =
      some [.up, .down, .down] :=
  ⟨sampleMonitors.1, sampleMonitors.2, run_play _ _ _ _ _,
    fun _ _ _ hop => ⟨_, _, _, monitors_of_started_sampleMonitors hop⟩,
    fun _ => alternates_monitoredStart, by decide, by decide +kernel⟩

end Interleaving

end Reconciler
