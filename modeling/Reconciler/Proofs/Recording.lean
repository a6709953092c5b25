/-
The history of a resource as the end of all that was recorded of it.

Whoever sets an availability, tests a connection or fails to reach a resource records one change
with one request.  In between others may do the same, rename the resource or configure it anew.

* `OperationalState.recordAll`: the state after changes in a row;
* `Exchange.recordings`: the changes of a resource that a request recorded;
* `Event.recorded`, `Event.recordedBy`: what was recorded by all, and by one operation;
* `Request.RecordsOnly`: a request writes one record at most;
* `Operation.Remembers`: the operation neither deletes a resource nor forgets changes of it;
* `Interleaving.Recorded`: at one of its requests an operation recorded a change.

Main statements:
* `Operation.recordsOnly`: but for deletions the service writes nothing else than records;
* `Interleaving.Run.find?_of_remembers`: the state of a resource is made by what was recorded;
* `Service.setAvailability_reports`: what a call tells is what it did;
* `Interleaving.history_is_end_of_record`: the history is the end of the record, and a call tells
  whether it added to it.

Design notes:
* What is recorded counts from the moment at which the repository takes it, not from the end of the
  call that asked for it.
-/
import Reconciler.Proofs.Monitoring
import Reconciler.Proofs.Versions

namespace Reconciler

open Program

/-! ### Changes in a row -/

namespace OperationalState

/-- The state after changes in a row; at most `limit` of them are kept. -/
def recordAll (s : OperationalState) (limit : Nat) (changes : List AvailabilityChange) :
    OperationalState :=
  changes.foldl (fun s change => s.record limit change) s

variable {s : OperationalState} {limit : Nat} {earlier changes later : List AvailabilityChange}

theorem recordAll_append :
    s.recordAll limit (changes ++ later) = (s.recordAll limit changes).recordAll limit later :=
  List.foldl_append

/-- The history stays the end of what was recorded. -/
theorem history_recordAll (h : s.history = lastEntries limit earlier)
    (changes : List AvailabilityChange) :
    (s.recordAll limit changes).history = lastEntries limit (earlier ++ changes) := by
  induction changes generalizing s earlier with
  | nil => rw [List.append_nil, recordAll, List.foldl_nil, h]
  | cons change changes ih =>
    have hnext := ih (history_record limit earlier change s h)
    rwa [List.append_assoc, List.singleton_append] at hnext

/-- The last status is that of the last change, if there was one. -/
theorem lastStatus_recordAll (s : OperationalState) (limit : Nat)
    (changes : List AvailabilityChange) :
    (s.recordAll limit changes).lastStatus =
      (changes.getLast?.map AvailabilityChange.status <|> s.lastStatus) := by
  induction changes using List.reverseRecOn with
  | nil => rfl
  | append_singleton changes change _ =>
    rw [recordAll_append, List.getLast?_concat]
    rfl

theorem length_lastEntries (limit : Nat) (changes : List AvailabilityChange) :
    (lastEntries limit changes).length = min changes.length limit := by
  rw [lastEntries, List.length_drop]
  omega

end OperationalState

/-! ### What was recorded -/

/-- The availability that a change records, if it does. -/
def ResourceChange.recording? : ResourceChange → Option AvailabilityChange
  | recordAvailability change _ => some change
  | _ => none

/-- The changes that a request recorded of a resource. -/
def Exchange.recordings (oid : String) : Exchange → List AvailabilityChange
  | ⟨.store (.modify key changes), .ok _⟩ =>
    if key = oid then changes.filterMap ResourceChange.recording? else []
  | _ => []

namespace Event

/-- The changes that an event recorded of a resource. -/
def recordings (oid : String) : Event → List AvailabilityChange
  | asked _ x => x.recordings oid
  | _ => []

/-- All changes that were recorded of a resource, oldest first. -/
def recorded (oid : String) (events : List Event) : List AvailabilityChange :=
  events.flatMap (recordings oid)

/-- The changes that one operation recorded of a resource, oldest first. -/
def recordedBy (id : Nat) (oid : String) (events : List Event) : List AvailabilityChange :=
  (exchangesOf id events).flatMap (Exchange.recordings oid)

theorem recorded_concat (oid : String) (events : List Event) (e : Event) :
    recorded oid (events ++ [e]) = recorded oid events ++ e.recordings oid := by
  simp [recorded]

end Event

theorem Exchange.recordings_of_spares {x : Exchange} (h : x.request.Spares) (oid : String) :
    x.recordings oid = [] := by
  unfold recordings
  split
  · exact absurd trivial h
  · rfl

theorem Exchange.recordings_eq_nil {x : Exchange} {oid : String}
    (h : ∀ changes v, x ≠ ⟨.store (.modify oid changes), .ok v⟩) : x.recordings oid = [] := by
  unfold recordings
  split
  · next key changes v =>
    refine if_neg ?_
    rintro rfl
    exact h changes v rfl
  · rfl

/-! ### Requests and operations -/

/-- Neither is the resource deleted, nor is any other number of changes kept. -/
def StoreRequest.Remembers (oid : String) (limit : Nat) : StoreRequest → Prop
  | delete key => key ≠ oid
  | modify key changes => key = oid →
    ∀ change other, .recordAvailability change other ∈ changes → other = limit
  | _ => True

namespace Request

/-- The request neither deletes the resource, nor has any other number of changes kept. -/
def Remembers (oid : String) (limit : Nat) : Request → Prop
  | .store r => r.Remembers oid limit
  | _ => True

/-- The request writes one record at most. -/
def RecordsOnly (limit : Nat) (r : Request) : Prop :=
  r.Writes → ∃ key change, r = .store (.modify key [.recordAvailability change limit])

theorem Spares.recordsOnly {r : Request} (h : r.Spares) (limit : Nat) : r.RecordsOnly limit :=
  fun hwrites => absurd hwrites h

theorem Observes.recordsOnly {oid : String} {limit : Nat} {r : Request}
    (h : r.Observes oid limit) : r.RecordsOnly limit := by
  intro hwrites
  cases r with
  | store r =>
    cases r with
    | modify key changes =>
      obtain ⟨-, change, rfl⟩ := h
      exact ⟨key, change, rfl⟩
    | add _ | delete _ => exact h.elim
    | _ => exact hwrites.elim
  | _ => exact hwrites.elim

theorem RecordsOnly.remembers {limit : Nat} {r : Request} (h : r.RecordsOnly limit)
    (oid : String) : r.Remembers oid limit := by
  cases r with
  | store r =>
    cases r with
    | modify key changes =>
      obtain ⟨_, change, hrequest⟩ := h trivial
      cases hrequest
      rintro - recorded other hmem
      cases List.mem_singleton.1 hmem
      rfl
    | delete key =>
      obtain ⟨_, _, hrequest⟩ := h trivial
      cases hrequest
    | _ => trivial
  | _ => trivial

end Request

namespace Service

variable {sv : Service} {c : Caller}

theorem recordsOnly_settle (noFetch : Bool) (raw : Resource) (ticket : Ticket) (o : Completion) :
    (sv.settle c noFetch raw ticket o).run.Asks (Request.RecordsOnly sv.tuning.historySize) := by
  unfold settle
  split
  · split
    · refine .lift_bind ?_ fun _ => trivial
      exact (spares_offer _ _).mono fun _ h => h.recordsOnly _
    · trivial
  · split
    · refine .lift_bind ?_ fun _ => trivial
      exact (observes_markDown (observes_recordAvailability ..) c raw.oid).mono
        fun _ h => h.recordsOnly
    · trivial

theorem recordsOnly_cached? (oid : String) (limit : Nat) :
    (sv.cached? c oid).run.Asks (Request.RecordsOnly limit) :=
  (spares_cached? sv c oid).mono fun _ h => h.recordsOnly limit

theorem recordsOnly_run (mode : Completion.Mode) (raw : Resource) (limit : Nat) :
    (Completion.run c mode raw).Asks (Request.RecordsOnly limit) :=
  (Completion.run_reads c mode raw).mono fun _ h => h.spares.recordsOnly limit

theorem recordsOnly_completeSince (noFetch : Bool) (ticket : Ticket) (raw : Resource) :
    (sv.completeSince c noFetch ticket raw).run.Asks
      (Request.RecordsOnly sv.tuning.historySize) := by
  refine .action_bind (recordsOnly_cached? raw.oid _) fun cached => ?_
  split
  · trivial
  · exact .lift_bind (recordsOnly_run _ raw _) fun o => recordsOnly_settle noFetch raw ticket o

theorem recordsOnly_complete (noFetch : Bool) (raw : Resource) :
    (sv.complete c noFetch raw).run.Asks (Request.RecordsOnly sv.tuning.historySize) :=
  .lift_bind ⟨fun h => h.elim, fun _ => trivial⟩ fun ticket =>
    recordsOnly_completeSince noFetch ticket raw

theorem recordsOnly_get (oid : String) (noFetch : Bool) :
    (sv.get c oid noFetch).run.Asks (Request.RecordsOnly sv.tuning.historySize) := by
  refine .lift_bind ⟨fun h => h.elim, fun _ => trivial⟩ fun _ => ?_
  refine .lift_bind ⟨fun h => h.elim, fun _ => trivial⟩ fun ticket => ?_
  refine .action_bind (recordsOnly_cached? oid _) fun cached => ?_
  split
  · trivial
  · refine .action_bind ⟨fun h => h.elim, fun _ => trivial⟩ fun raw => ?_
    exact recordsOnly_completeSince noFetch ticket raw

theorem recordsOnly_search (q : Query) (noFetch : Bool) :
    (sv.search c q noFetch).run.Asks (Request.RecordsOnly sv.tuning.historySize) := by
  refine .action_bind ⟨fun h => h.elim, fun _ => trivial⟩ fun found => ?_
  refine .lift_bind ⟨fun h => h.elim, fun _ => trivial⟩ fun _ => ?_
  induction found with
  | nil => trivial
  | cons raw rest ih =>
    rw [List.mapM_cons]
    refine .action_bind ?_ fun _ => .action_bind ih fun _ => trivial
    refine .bind (recordsOnly_complete noFetch raw) fun outcome => ?_
    split
    · trivial
    · exact ⟨fun h => h.elim, fun _ => trivial⟩
    · trivial

end Service

namespace Operation

/-- The operation neither deletes the resource, nor has any other number of changes kept. -/
def Remembers (oid : String) (limit : Nat) : Operation → Prop
  | delete key => key ≠ oid
  | atStore r => r.Remembers oid limit
  | _ => True

/-- But for deletions, and for what others do at the repository, nothing else than records is
written. -/
theorem recordsOnly (sv : Service) (c : Caller) {op : Operation}
    (hdelete : ∀ oid, op ≠ .delete oid) (hdirect : ∀ r, op ≠ .atStore r) :
    (op.action sv c).run.Asks (Request.RecordsOnly sv.tuning.historySize) := by
  cases op with
  | get oid noFetch => exact Service.recordsOnly_get oid noFetch
  | complete raw noFetch => exact Service.recordsOnly_complete noFetch raw
  | search q noFetch => exact Service.recordsOnly_search q noFetch
  | count q => exact ⟨fun h => h.elim, fun _ => trivial⟩
  | delete oid => exact absurd rfl (hdelete oid)
  | setAvailability oid status reason skipFetch =>
    exact (Service.observes_setAvailability ..).mono fun _ h => h.recordsOnly
  | testConnection oid => exact (Service.observes_testConnection ..).mono fun _ h => h.recordsOnly
  | testPartial r =>
    refine .lift_bind ⟨fun h => h.elim, fun _ => trivial⟩ fun _ => ?_
    refine .action_bind ((Service.configuredTarget_reads c r).mono fun _ h =>
      h.spares.recordsOnly _) fun target => ?_
    exact ⟨fun h => h.elim, fun _ => trivial⟩
  | discover r =>
    refine .lift_bind ⟨fun h => h.elim, fun _ => trivial⟩ fun _ => ?_
    refine .action_bind ((Service.configuredTarget_reads c r).mono fun _ h =>
      h.spares.recordsOnly _) fun target => ?_
    exact ⟨fun h => h.elim, fun _ => trivial⟩
  | runScript oid script =>
    obtain ⟨rest, heq, hrest⟩ := Service.exists_runScript_eq sv c oid script
    show (sv.runScript c oid script).run.Asks _
    rw [heq]
    exact .action_bind (Service.recordsOnly_get oid false) fun r =>
      (hrest r).mono fun _ h => h.spares.recordsOnly _
  | cachedAt oid expected =>
    refine .bind (.bind ⟨fun h => h.elim, fun _ => trivial⟩ fun found => ?_) fun _ => trivial
    split
    · exact .bind ⟨fun h => h.elim, fun _ => trivial⟩ fun _ => trivial
    · split
      · exact .bind ⟨fun h => h.elim, fun _ => trivial⟩ fun _ => trivial
      · exact .bind ⟨fun h => h.elim, fun _ => trivial⟩ fun _ => trivial
  | cachedLatest oid =>
    exact (Definitions.looks_latest? c oid).mono fun _ h => h.spares.recordsOnly _
  | atStore r => exact absurd rfl (hdirect r)
  | atCache r => exact ⟨fun h => h.elim, fun _ => trivial⟩

theorem asks_remembers (sv : Service) (c : Caller) {op : Operation} {oid : String}
    (h : op.Remembers oid sv.tuning.historySize) :
    (op.action sv c).run.Asks (Request.Remembers oid sv.tuning.historySize) := by
  cases op with
  | delete key =>
    refine .lift_bind ⟨trivial, fun _ => trivial⟩ fun _ => ?_
    have hinvalidate : (Definitions.invalidate key).Asks
        (Request.Remembers oid sv.tuning.historySize) := by
      refine .bind ⟨trivial, fun _ => trivial⟩ fun dropped => ?_
      split
      · exact ⟨trivial, fun _ => trivial⟩
      · trivial
    exact .lift_bind hinvalidate fun _ => ⟨h, fun _ => trivial⟩
  | atStore r => exact ⟨h, fun _ => trivial⟩
  | _ =>
    refine (recordsOnly sv c ?_ ?_).mono fun _ hrecords => hrecords.remembers oid
    · intro key hop
      cases hop
    · intro r hop
      cases hop

end Operation

/-! ### Histories -/

/-- What a write makes of the state of a resource is to record its changes in a row. -/
theorem Store.operationalState_changed {limit : Nat} {changes : List ResourceChange}
    (hlimit : ∀ change other, .recordAvailability change other ∈ changes → other = limit)
    (r : Resource) :
    (changed r changes).operationalState =
      r.operationalState.recordAll limit (changes.filterMap ResourceChange.recording?) := by
  show (changes.foldl ResourceChange.apply r).operationalState = _
  induction changes generalizing r with
  | nil => rfl
  | cons first rest ih =>
    have hrest : ∀ change other, .recordAvailability change other ∈ rest → other = limit :=
      fun change other h => hlimit change other (List.mem_cons_of_mem _ h)
    rw [List.foldl_cons, ih hrest]
    cases first with
    | recordAvailability change other =>
      cases hlimit change other List.mem_cons_self
      rfl
    | replaceConfiguration _ => rfl
    | rename _ => rfl

namespace Interleaving

variable {sv : Service} {outages : Outages} {s m t : State} {events : List Event} {e : Event}
variable {id limit : Nat} {x : Exchange} {oid : String} {r : Resource}

theorem Run.remembers_of_step (hrun : Run sv outages s events m)
    (hidle : ∀ id, s.underWay id = none)
    (hops : ∀ id c op, .started id c op ∈ events → op.Remembers oid sv.tuning.historySize)
    (step : Step sv outages m (.asked id x) t) :
    x.request.Remembers oid sv.tuning.historySize := by
  cases step with
  | @ask id op r next reply w hunder _ =>
    obtain ⟨before, c, since, rfl, -, hreaches⟩ := hrun.exists_started hidle hunder
    have hasks := Operation.asks_remembers sv c (hops id c op (by simp))
    have hon : (ask r next).Reaches [⟨r, reply⟩] (next reply) := .step (.here _)
    exact hasks.of_reaches (hreaches.append hon) ⟨r, reply⟩ (by simp)

/-- At every event a resource stays, and what is recorded of it makes its state. -/
theorem Step.find?_of_remembers (step : Step sv outages m e t)
    (he : ∀ id x, e = .asked id x → x.request.Remembers oid limit)
    (hr : m.world.store.find? oid = some r) :
    ∃ r', t.world.store.find? oid = some r' ∧
      r'.operationalState = r.operationalState.recordAll limit (e.recordings oid) := by
  by_cases hmodified : ∃ id changes v, e = .asked id ⟨.store (.modify oid changes), .ok v⟩
  · obtain ⟨id, changes, v, rfl⟩ := hmodified
    have hlimit := he id _ rfl rfl
    refine ⟨Store.changed r changes, ?_, ?_⟩
    · rw [Store.read_modify step.modify_of_ok, if_pos rfl, hr, Option.map_some]
    · rw [Store.operationalState_changed hlimit, Event.recordings, Exchange.recordings,
        if_pos rfl]
  · -- The resource stays as it is, and nothing is recorded.
    have hnone : e.recordings oid = [] := by
      cases e with
      | asked id x =>
        refine Exchange.recordings_eq_nil fun changes v hx => hmodified ⟨id, changes, v, ?_⟩
        rw [hx]
      | _ => rfl
    refine ⟨r, ?_, by rw [hnone]; rfl⟩
    rcases step.store_cases with ⟨hstore, -⟩ | ⟨id, x, key, fresh, rfl, hadd⟩ |
      ⟨id, key, changes, v, rfl, hmodify⟩ | ⟨id, key, rfl, hdelete⟩
    · rw [hstore, hr]
    · have hkey : oid ≠ key := by
        rintro rfl
        rw [Store.find?_of_add hadd] at hr
        cases hr
      rw [Store.read_add hadd, if_neg hkey, hr]
    · have hkey : oid ≠ key := by
        rintro rfl
        exact hmodified ⟨id, changes, v, rfl⟩
      rw [Store.read_modify hmodify, if_neg hkey, hr]
    · have hkey : key ≠ oid := he id _ rfl
      rw [Store.read_delete hdelete, if_neg hkey.symm, hr]

/-- The state of a resource is made by what was recorded of it. -/
theorem Run.find?_of_remembers (hrun : Run sv outages s events t)
    (hidle : ∀ id, s.underWay id = none)
    (hops : ∀ id c op, .started id c op ∈ events → op.Remembers oid sv.tuning.historySize)
    (hr : s.world.store.find? oid = some r) :
    ∃ r', t.world.store.find? oid = some r' ∧ r'.operationalState =
      r.operationalState.recordAll sv.tuning.historySize (Event.recorded oid events) := by
  induction events using List.reverseRecOn generalizing t with
  | nil =>
    cases hrun
    exact ⟨r, hr, rfl⟩
  | append_singleton events e ih =>
    obtain ⟨m, hbefore, step⟩ := run_concat_iff.1 hrun
    have hsofar : ∀ id c op, .started id c op ∈ events →
        op.Remembers oid sv.tuning.historySize :=
      fun id c op hop => hops id c op (List.mem_append_left _ hop)
    obtain ⟨stored, hstored, hstate⟩ := ih hbefore hsofar
    obtain ⟨r', hr', hnext⟩ := step.find?_of_remembers (fun id x he =>
      hbefore.remembers_of_step hidle hsofar (he ▸ step)) hstored
    refine ⟨r', hr', ?_⟩
    rw [hnext, hstate, Event.recorded_concat, OperationalState.recordAll_append]

end Interleaving

/-! ### Calls -/

namespace Service

variable {sv : Service} {c : Caller} {past : List Exchange}

/-- What an action that is to record a change of a resource has done, and what came out: it ends
when the change is recorded, or it fails, or it finds that there is nothing to record. -/
inductive Reports {α : Type} (sv : Service) (oid : String) (told : α → Prop) :
    List Exchange → Except ProvisioningError α → Prop where
  | recorded {before : List Exchange} {change : AvailabilityChange} {v : Version} {a : α}
      (hbefore : ∀ x ∈ before, x.request.Spares) (ha : told a) :
      Reports sv oid told (before ++ [⟨.store (.modify oid
        [.recordAvailability change sv.tuning.historySize]), .ok v⟩]) (.ok a)
  | unrecorded {past : List Exchange} {outcome : Except ProvisioningError α}
      (hpast : ∀ x ∈ past, ∀ key, x.recordings key = [])
      (houtcome : ∀ a, outcome = .ok a → ¬ told a) :
      Reports sv oid told past outcome

theorem meets_of_spares_past {α : Type} {p : Program α} (hp : p.Asks Request.Spares)
    (hpast : ∀ x ∈ past, x.request.Spares) :
    p.Meets (fun _ => True) (fun _ _ => True)
      (fun later _ => ∀ x ∈ later, x.request.Spares) past :=
  .of_asks hp (fun _ _ _ => trivial) fun _ _ hreaches _ =>
    List.forall_mem_append.2 ⟨hpast, hp.of_reaches hreaches⟩

theorem recordAvailability_reports (hpast : ∀ x ∈ past, x.request.Spares) (oid : String)
    (previous : Option Availability) (status : Availability) (reason : Option String) :
    (sv.recordAvailability c oid previous status reason).run.Meets (fun _ => True)
      (fun _ _ => True) (sv.Reports oid fun _ => True) past := by
  refine .lift_bind (meets_of_spares_past (spares_remark ..) hpast) fun remarked _ hremarked => ?_
  refine .lift_bind (meets_of_spares_past (p := Program.perform .now)
    ⟨id, fun _ => trivial⟩ hremarked) fun told now htold => ?_
  refine ⟨trivial, fun reply _ => ?_⟩
  cases reply with
  | ok v => exact .recorded htold trivial
  | error e =>
    refine .unrecorded (List.forall_mem_append.2 ⟨fun x hx key => ?_, ?_⟩) fun _ h => by cases h
    · exact Exchange.recordings_of_spares (htold x hx) key
    · rintro x hx key
      cases List.mem_singleton.1 hx
      rfl

/-- A call tells that a change was recorded just when it recorded one. -/
theorem setAvailability_reports (sv : Service) (c : Caller) (oid : String) (status : Availability)
    (reason : Option String) (skipFetch : Bool) :
    (sv.setAvailability c oid status reason skipFetch).run.Meets (fun _ => True)
      (fun _ _ => True) (sv.Reports oid (· = true)) [] := by
  have hrecord : ∀ past previous, (∀ x ∈ past, x.request.Spares) →
      (do
        sv.recordAvailability c oid previous status reason
        return true : Action Bool).run.Meets (fun _ => True) (fun _ _ => True)
          (sv.Reports oid (· = true)) past := by
    intro past previous hpast
    refine .action_bind (recordAvailability_reports hpast oid previous status reason)
      (fun later _ h => ?_) fun later e h => ?_
    · generalize past ++ later = all at h ⊢
      cases h with
      | recorded hbefore _ => exact .recorded hbefore rfl
      | unrecorded _ houtcome => exact absurd trivial (houtcome _ rfl)
    · generalize past ++ later = all at h ⊢
      cases h with
      | unrecorded hall _ => exact .unrecorded hall fun _ h => by cases h
  have hnothing : ∀ past (outcome : Except ProvisioningError Bool),
      (∀ x ∈ past, x.request.Spares) → outcome ≠ .ok true →
        sv.Reports oid (· = true) past outcome := by
    intro past outcome hpast houtcome
    refine .unrecorded (fun x hx key => Exchange.recordings_of_spares (hpast x hx) key) ?_
    rintro a rfl rfl
    exact houtcome rfl
  unfold setAvailability
  split
  · refine .lift_bind (meets_of_spares_past (p := Action.cache (.find oid))
      ⟨id, fun _ => trivial⟩ (List.forall_mem_nil _)) fun looked cached hlooked => ?_
    exact hrecord _ _ hlooked
  · refine .action_bind (meets_of_spares_past (p := (Action.store (.read oid)).run)
      ⟨id, fun _ => trivial⟩ (List.forall_mem_nil _)) (fun read stored hread => ?_)
      fun later e hread => hnothing _ _ hread fun h => by cases h
    split
    · refine .lift_bind (meets_of_spares_past (spares_remark ..) hread) fun more _ hmore => ?_
      exact hnothing _ _ hmore fun h => by cases h
    · exact hrecord _ _ hread

end Service

namespace Interleaving

variable {sv : Service} {outages : Outages} {s m n t : State}
variable {events before since after : List Event} {id limit : Nat} {oid : String} {r : Resource}
variable {change : AvailabilityChange} {v : Version}

/-- At one of its requests since a moment an operation recorded a change of a resource, and brought
it to its next version, which is greater unless the last one was reached. -/
def Recorded (sv : Service) (outages : Outages) (s : State) (before since : List Event) (id : Nat)
    (oid : String) (change : AvailabilityChange) : Prop :=
  ∃ first u v second m n,
    since = first ++ .asked id ⟨.store (.modify oid
      [.recordAvailability change sv.tuning.historySize]), .ok v⟩ :: second ∧
    Run sv outages s (before ++ first) m ∧
    Step sv outages m (.asked id ⟨.store (.modify oid
      [.recordAvailability change sv.tuning.historySize]), .ok v⟩) n ∧
    m.world.store.Records n.world.store oid change sv.tuning.historySize ∧
    m.world.store.version oid = .ok u ∧ n.world.store.version oid = .ok v ∧ v = u.next ∧
    (u.sequence < Version.lastSequence → u < v)

theorem Step.versions_of_modify {changes : List ResourceChange}
    (step : Step sv outages m (.asked id ⟨.store (.modify oid changes), .ok v⟩) n) :
    ∃ u, m.world.store.version oid = .ok u ∧ n.world.store.version oid = .ok v ∧ v = u.next := by
  have hmodify := step.modify_of_ok
  cases hr : m.world.store.find? oid with
  | none =>
    rw [Store.modify, Store.read_eq, hr] at hmodify
    cases hmodify
  | some r =>
    have hafter := Store.read_modify hmodify oid
    rw [if_pos rfl, hr, Option.map_some] at hafter
    rw [Store.modify, Store.read_eq, hr] at hmodify
    have hv : v = r.version.next := by
      rw [← Store.changed_version r changes]
      exact (congrArg Prod.fst (Except.ok.inj hmodify)).symm
    refine ⟨r.version, Store.version_eq_ok_iff.2 ⟨r, hr, rfl⟩, ?_, hv⟩
    exact Store.version_eq_ok_iff.2 ⟨_, hafter, (Store.changed_version r changes).trans hv.symm⟩

/-- A record that was taken brought the resource to its next version. -/
theorem Run.recorded_of_mem (hrun : Run sv outages s (before ++ (since ++ after)) t)
    (hx : .asked id ⟨.store (.modify oid
      [.recordAvailability change sv.tuning.historySize]), .ok v⟩ ∈ since) :
    Recorded sv outages s before since id oid change := by
  obtain ⟨first, second, rfl⟩ := List.append_of_mem hx
  rw [List.append_assoc, ← List.append_assoc, List.cons_append] at hrun
  obtain ⟨m, n, hbefore, step, -⟩ := hrun.exists_step
  obtain ⟨u, hu, hv, hnext⟩ := step.versions_of_modify
  exact ⟨first, u, v, second, m, n, rfl, hbefore, step,
    Store.records_of_modify step.modify_of_ok, hu, hv, hnext, fun h => hnext ▸ u.lt_next h⟩

/-- What a finished operation was answered led its program to its outcome. -/
theorem Run.reaches_of_finished {c : Caller} {op : Operation} {outcome : op.Outcome}
    (hrun : Run sv outages s
      (before ++ .started id c op :: (since ++ .finished id op outcome :: after)) t)
    (hsince : ∀ e ∈ since, ¬ e.Finishes id) :
    (op.action sv c).run.Reaches (Event.exchangesOf id since) (.done outcome) := by
  obtain ⟨_, m, -, start, hrest⟩ := hrun.exists_step
  obtain ⟨n, _, hduring, finish, -⟩ := hrest.exists_step
  have hm : m.underWay id = some ⟨op, (op.action sv c).run⟩ := by
    cases start
    exact if_pos rfl
  obtain ⟨q, hq, hreaches⟩ := hduring.reaches hm hsince
  cases finish with
  | finish hdone =>
    rw [hq] at hdone
    cases hdone
    exact hreaches

/-- A call tells that a change was recorded just when it recorded one. -/
theorem Run.recorded_iff {c : Caller} {status : Availability} {reason : Option String}
    {skipFetch : Bool} {outcome : Except ProvisioningError Bool}
    (hrun : Run sv outages s
      (before ++ .started id c (.setAvailability oid status reason skipFetch) ::
        (since ++ .finished id (.setAvailability oid status reason skipFetch) outcome :: after)) t)
    (hsince : ∀ e ∈ since, ¬ e.Finishes id) :
    (outcome = .ok true ↔ ∃ change, Event.recordedBy id oid since = [change] ∧
        Recorded sv outages s
          (before ++ [.started id c (.setAvailability oid status reason skipFetch)]) since id oid
          change) ∧
      ∀ other, other ≠ oid ∨ outcome ≠ .ok true → Event.recordedBy id other since = [] := by
  have hmeets := (Service.setAvailability_reports sv c oid status reason skipFetch).of_reaches
    (hrun.reaches_of_finished hsince) fun _ _ => trivial
  have hreports : sv.Reports oid (· = true) (Event.exchangesOf id since) outcome := hmeets
  generalize hown : Event.exchangesOf id since = own at hreports
  cases hreports with
  | @recorded earlier change v a hearlier ha =>
    subst ha
    have hspared : ∀ key, earlier.flatMap (Exchange.recordings key) = [] := fun key =>
      List.flatMap_eq_nil_iff.2 fun x hx => Exchange.recordings_of_spares (hearlier x hx) key
    have hrecorded : ∀ key, Event.recordedBy id key since =
        Exchange.recordings key ⟨.store (.modify oid
          [.recordAvailability change sv.tuning.historySize]), .ok v⟩ := by
      intro key
      rw [Event.recordedBy, hown, List.flatMap_append, hspared, List.flatMap_singleton]
      rfl
    refine ⟨⟨fun _ => ⟨change, ?_, ?_⟩, fun _ => rfl⟩, fun other hother => ?_⟩
    · rw [hrecorded]
      exact if_pos rfl
    · rw [List.append_cons] at hrun
      refine hrun.recorded_of_mem (v := v) (Event.mem_exchangesOf.1 ?_)
      rw [hown]
      exact List.mem_append_right _ (List.mem_singleton_self _)
    · have hne : other ≠ oid := hother.resolve_right fun h => h rfl
      rw [hrecorded]
      exact if_neg hne.symm
  | unrecorded hnone houtcome =>
    have hrecorded : ∀ key, Event.recordedBy id key since = [] := by
      intro key
      rw [Event.recordedBy, hown]
      exact List.flatMap_eq_nil_iff.2 fun x hx => hnone x hx key
    refine ⟨⟨fun h => absurd rfl (houtcome true h), ?_⟩, fun other _ => hrecorded other⟩
    rintro ⟨change, hchange, -⟩
    rw [hrecorded] at hchange
    cases hchange

/-- **The history is the end of the record.**  A resource without a history stays in the repository,
while availabilities are set, connections are tested, resources cannot be reached when they are
wanted, and are renamed or configured anew.  At any moment its history is the end of all that was
recorded of it, as long as the tunables say, and its last status is that of the last change.  Each
call to set an availability tells that it was recorded just when it recorded one change, which
brought the resource to its next version, and records nothing otherwise. -/
theorem history_is_end_of_record (hrun : Run sv outages s events t)
    (hidle : ∀ id, s.underWay id = none)
    (hops : ∀ id c op, .started id c op ∈ events → op.Remembers oid sv.tuning.historySize)
    (hr : s.world.store.find? oid = some r) (hempty : r.operationalState.history = []) :
    (∃ r', t.world.store.find? oid = some r' ∧
      r'.operationalState.history <:+ Event.recorded oid events ∧
      r'.operationalState.history.length =
        min (Event.recorded oid events).length sv.tuning.historySize ∧
      r'.operationalState.lastStatus =
        ((Event.recorded oid events).getLast?.map AvailabilityChange.status <|>
          r.operationalState.lastStatus)) ∧
    ∀ before id c key status reason skipFetch since outcome after,
      events = before ++ .started id c (.setAvailability key status reason skipFetch) ::
        (since ++ .finished id (.setAvailability key status reason skipFetch) outcome :: after) →
      (∀ e ∈ since, ¬ e.Finishes id) →
      (outcome = .ok true ↔ ∃ change, Event.recordedBy id key since = [change] ∧
        Recorded sv outages s
          (before ++ [.started id c (.setAvailability key status reason skipFetch)]) since id key
          change) ∧
      ∀ other, other ≠ key ∨ outcome ≠ .ok true → Event.recordedBy id other since = [] := by
  constructor
  · obtain ⟨r', hr', hstate⟩ := hrun.find?_of_remembers hidle hops hr
    have hhistory : r'.operationalState.history =
        OperationalState.lastEntries sv.tuning.historySize (Event.recorded oid events) := by
      rw [hstate]
      exact OperationalState.history_recordAll (hempty.trans List.drop_nil.symm) _
    refine ⟨r', hr', ?_, ?_, ?_⟩
    · exact hhistory ▸ List.drop_suffix ..
    · rw [hhistory, OperationalState.length_lastEntries]
    · rw [hstate, OperationalState.lastStatus_recordAll]
  · rintro before id c key status reason skipFetch since outcome after rfl hsince
    exact hrun.recorded_iff hsince

/-- A service by which a resource remembers one change only. -/
def sampleForgetful : Service := { templateLimit := 3, tuning := { historySize := 1 } }

/-- While a template is to be set down that is not known to be, another call sets it up. -/
def sampleRecorded : List Event × State :=
  sampleStart.play sampleForgetful Completion.sampleConnectors
    [.start 0 default (.setAvailability "directory" .down none false), .go 0,
      .start 1 default (.setAvailability "directory" .up none true),
      .go 1, .go 1, .go 1, .go 1, .go 1, .go 0, .go 0, .go 0, .go 0]

/-- The second call, from its start to its end. -/
theorem sampleRecorded_eq : sampleRecorded.1 =
    sampleRecorded.1.take 2 ++
      .started 1 default (.setAvailability "directory" .up none true) ::
        ((sampleRecorded.1.drop 3).take 4 ++
          .finished 1 (.setAvailability "directory" .up none true) (.ok true) ::
            sampleRecorded.1.drop 8) := rfl

/-- Both calls are recorded, and only the one that recorded last is remembered. -/
theorem history_is_end_of_record_sample :
    (∃ r, sampleRecorded.2.world.store.find? "directory" = some r ∧
      r.operationalState.history <:+ Event.recorded "directory" sampleRecorded.1 ∧
      r.operationalState.history.length = 1 ∧ r.operationalState.lastStatus = some .down) ∧
    (Event.recorded "directory" sampleRecorded.1).map AvailabilityChange.status = [.up, .down] ∧
    ∃ change, Event.recordedBy 1 "directory" ((sampleRecorded.1.drop 3).take 4) = [change] := by
  have hrun : Run sampleForgetful (fun _ _ => False) sampleStart sampleRecorded.1
      sampleRecorded.2 := run_play _ _ _ _ _
  have hops : ∀ id c op, .started id c op ∈ sampleRecorded.1 →
      op.Remembers "directory" sampleForgetful.tuning.historySize := by
    intro id c op hop
    have hscheduled := start_mem_of_play hop
    simp only [List.mem_cons, Move.start.injEq, reduceCtorEq, or_false, false_or,
      List.not_mem_nil] at hscheduled
    rcases hscheduled with ⟨-, -, rfl⟩ | ⟨-, -, rfl⟩ <;> trivial
  obtain ⟨⟨r, hr, hend, hlength, hlast⟩, hcalls⟩ :=
    history_is_end_of_record hrun (fun _ => rfl) hops (r := Completion.sampleTemplate) rfl rfl
  have hstatuses : (Event.recorded "directory" sampleRecorded.1).map AvailabilityChange.status =
      [.up, .down] := by decide +kernel
  obtain ⟨change, hown, -⟩ :=
    (hcalls _ _ _ _ _ _ _ _ _ _ sampleRecorded_eq (by decide +kernel)).1.1 rfl
  refine ⟨⟨r, hr, hend, ?_, ?_⟩, hstatuses, change, hown⟩
  · have htwo : (Event.recorded "directory" sampleRecorded.1).length = 2 := by
      simpa using congrArg List.length hstatuses
    rw [hlength, htwo]
    rfl
  · rw [hlast, ← List.getLast?_map, hstatuses]
    rfl

end Interleaving

end Reconciler
