/-
What getting, completing and searching resources writes to the repository.

* `Request.Spares`: the requests that do not write to the repository;
* `Untouched`: nothing so far was to modify a resource;
* `Service.MarksDown`: a request is to mark a resource down that was found out of reach;
* `Operation.completes?`: the operations that complete resources.

Main statements:
* `Operation.onlyMarksDown`: such an operation asks for no other writes, and for one of each
  resource at most;
* `Interleaving.store_eq_or_marksDown`: whatever is answered, the repository stays as it is at every
  request of such an operation, or one resource gets one more record that it is down;
* `Interleaving.marked_without_call`: a resource is marked down though no connector was called.

Design notes:
* A resource is out of reach if its connector says so, but also if the repository was unavailable
  when a template of it was read.
-/
import Reconciler.Proofs.Cache.Origins
import Reconciler.Proofs.Cache.Operations
import Reconciler.Proofs.Completion.Reach

namespace Reconciler

open Program

/-! ### Kinds of requests -/

namespace Request

/-- The request is to write to the repository. -/
def Writes : Request → Prop
  | .store (.add _) | .store (.modify _ _) | .store (.delete _) => True
  | _ => False

/-- The request is to modify a resource. -/
def Modifies (oid : String) : Request → Prop
  | .store (.modify key _) => key = oid
  | _ => False

theorem Modifies.writes {oid : String} {r : Request} (h : r.Modifies oid) : r.Writes := by
  cases r with
  | store r =>
    cases r with
    | modify _ _ => trivial
    | _ => exact h.elim
  | _ => exact h.elim

/-- The request does not write to the repository. -/
def Spares (r : Request) : Prop := ¬ r.Writes

theorem Reads.spares {r : Request} (h : r.Reads) : r.Spares := by
  cases r with
  | store r =>
    cases r with
    | read _ => exact id
    | _ => exact h.elim
  | connector _ _ => exact id
  | remark _ => exact id
  | _ => exact h.elim

theorem Looks.spares {r : Request} (h : r.Looks) : r.Spares := by
  cases r with
  | store r =>
    cases r with
    | version _ => exact id
    | _ => exact h.elim
  | cache _ => exact id
  | remark _ => exact id
  | _ => exact h.elim

end Request

/-- Nothing so far was to modify a resource. -/
def Untouched (oid : String) (past : List Exchange) : Prop :=
  ∀ x ∈ past, ¬ x.request.Modifies oid

/-- A search found no resource twice. -/
def Exchange.Distinct (x : Exchange) : Prop :=
  ∀ q found, x = ⟨.store (.search q), .ok found⟩ → found.Pairwise fun a b => a.oid ≠ b.oid

variable {c : Caller} {past trace : List Exchange} {oid : String}

theorem untouched_nil (oid : String) : Untouched oid [] := fun _ h => absurd h List.not_mem_nil

theorem Untouched.append (h : Untouched oid past) (htrace : ∀ x ∈ trace, x.request.Spares) :
    Untouched oid (past ++ trace) :=
  List.forall_mem_append.2 ⟨h, fun x hx hmodifies => htrace x hx hmodifies.writes⟩

/-! ### Marking down -/

namespace Service

variable {sv : Service} {noFetch : Bool} {raw : Resource} {cause : ProvisioningError}

/-- The record that a resource is down since its completion failed. -/
def downRecord (sv : Service) (c : Caller) (raw : Resource) (cause : ProvisioningError)
    (now : Instant) : ResourceChange :=
  .recordAvailability
    { status := .down
      timestamp := now
      reason := some (ProvisioningError.completionFailed raw.oid cause none).message
      taskId := c.task }
    sv.tuning.historySize

/-- A request is to mark a resource down, for the first time, whose completion could not reach
something. -/
structure MarksDown (sv : Service) (c : Caller) (past : List Exchange) (raw : Resource)
    (cause : ProvisioningError) (now : Instant) (r : Request) : Prop where
  failed : ∃ earlier completing later o, past = earlier ++ completing ++ later ∧
    (Completion.run c (sv.mode false) raw).Reaches completing (.done o) ∧
    Completion.OutOfReach c (sv.mode false) raw completing cause
  untouched : Untouched raw.oid past
  request : r = .store (.modify raw.oid [sv.downRecord c raw cause now])

/-- A request does not write, or marks a resource down; and not without fetch. -/
def OnlyMarksDown (sv : Service) (c : Caller) (noFetch : Bool) (past : List Exchange)
    (r : Request) : Prop :=
  r.Writes → noFetch = false ∧ ∃ raw cause now, sv.MarksDown c past raw cause now r

/-- Nothing has been modified since but one resource. -/
def Touches {α : Type} (oid : String) (past : List Exchange) (later : List Exchange) (_ : α) :
    Prop :=
  ∀ other, other ≠ oid → Untouched other past → Untouched other later

/-- Nothing has been modified since. -/
def TouchesNothing {α : Type} (past : List Exchange) (later : List Exchange) (_ : α) : Prop :=
  ∀ other, Untouched other past → Untouched other later

theorem TouchesNothing.touches {α β : Type} {later : List Exchange} {a : α} {b : β}
    (h : TouchesNothing past later a) (oid : String) : Touches oid past later b :=
  fun other _ => h other

/-- A program that does not write leaves everything unmodified, whatever it learns. -/
theorem meets_of_spares {α : Type} {p : Program α} (hp : p.Asks Request.Spares)
    {gives : List Exchange → α → Prop}
    (hgives : ∀ trace a, p.Reaches trace (done a) → (∀ x ∈ trace, x.Distinct) →
      TouchesNothing past (past ++ trace) a → gives (past ++ trace) a) :
    p.Meets Exchange.Distinct (sv.OnlyMarksDown c noFetch) gives past := by
  refine .of_asks hp (fun _ _ hspares hwrites => absurd hwrites hspares) fun trace a h hrely => ?_
  exact hgives trace a h hrely fun other hother => hother.append (hp.of_reaches h)

theorem touchesNothing_of_spares {α : Type} {p : Program α} (hp : p.Asks Request.Spares) :
    p.Meets Exchange.Distinct (sv.OnlyMarksDown c noFetch) (TouchesNothing past) past :=
  meets_of_spares hp fun _ _ _ _ h => h

theorem spares_remark (c : Caller) (level : LogLevel) (text : String) :
    (c.remark level text).Asks Request.Spares := ⟨id, fun _ => trivial⟩

theorem spares_cached? (sv : Service) (c : Caller) (oid : String) :
    (sv.cached? c oid).run.Asks Request.Spares := by
  unfold cached?
  split
  · exact (Definitions.looks_latest? c oid).mono fun _ => Request.Looks.spares
  · trivial

theorem spares_offer (d : Resource) (since : Option Ticket) :
    (Definitions.offer d since).Asks Request.Spares :=
  ⟨id, fun _ => ⟨id, fun _ => trivial⟩⟩

/-- To record that a resource is down is to mark it. -/
theorem recordAvailability_marks {earlier completing : List Exchange} {o : Completion}
    (hreaches : (Completion.run c (sv.mode false) raw).Reaches completing (done o))
    (hout : Completion.OutOfReach c (sv.mode false) raw completing cause)
    (huntouched : Untouched raw.oid (earlier ++ completing)) (previous : Option Availability) :
    (sv.recordAvailability c raw.oid previous .down
        (some (ProvisioningError.completionFailed raw.oid cause none).message)).run.Meets
      Exchange.Distinct (sv.OnlyMarksDown c false) (Touches raw.oid (earlier ++ completing))
      (earlier ++ completing) := by
  refine .lift_bind (touchesNothing_of_spares (spares_remark ..)) fun remarked _ hremarked => ?_
  refine .lift_bind (touchesNothing_of_spares (p := Program.perform .now) ⟨id, fun _ => trivial⟩)
    fun told now htold => ?_
  have hpast : ∀ other, Untouched other (earlier ++ completing) →
      Untouched other (earlier ++ completing ++ remarked ++ told) :=
    fun other h => htold other (hremarked other h)
  let record := sv.downRecord c raw cause now
  have hmark : (Action.store (.modify raw.oid [record])).run.Meets Exchange.Distinct
      (sv.OnlyMarksDown c false) (Touches raw.oid (earlier ++ completing))
      (earlier ++ completing ++ remarked ++ told) := by
    refine ⟨fun _ => ⟨rfl, raw, cause, now, ?_, hpast raw.oid huntouched, rfl⟩,
      fun reply _ other hne h => ?_⟩
    · exact ⟨earlier, completing, remarked ++ told, o, List.append_assoc .., hreaches, hout⟩
    · refine List.forall_mem_append.2 ⟨hpast other h, List.forall_mem_singleton.2 ?_⟩
      exact fun heq : raw.oid = other => hne heq.symm
  exact .action_bind hmark (fun _ _ h => h) fun _ _ h => h

/-- What is settled is marked down at most. -/
theorem settle_marks {earlier completing : List Exchange} {o : Completion} {ticket : Ticket}
    (hreaches : (Completion.run c (sv.mode noFetch) raw).Reaches completing (done o))
    (huntouched : Untouched raw.oid (earlier ++ completing)) :
    (sv.settle c noFetch raw ticket o).run.Meets Exchange.Distinct (sv.OnlyMarksDown c noFetch)
      (Touches raw.oid (earlier ++ completing)) (earlier ++ completing) := by
  unfold settle
  split
  · next d hresult =>
    split
    · refine .lift_bind (touchesNothing_of_spares (spares_offer ..)) fun _ _ h => ?_
      exact h.touches raw.oid
    · exact fun _ _ h => h
  · next e hresult =>
    split
    · next hmark =>
      obtain ⟨hkind, hfetch⟩ : e.kind = .communication ∧ noFetch = false := by simpa using hmark
      subst hfetch
      obtain ⟨cause, rfl, hout⟩ := Completion.outOfReach_of_result hreaches hresult hkind
      have hmarked : (markDown c raw.oid (sv.recordAvailability c raw.oid raw.availability .down
          (some (ProvisioningError.completionFailed raw.oid cause none).message))).Meets
          Exchange.Distinct (sv.OnlyMarksDown c false) (Touches raw.oid (earlier ++ completing))
          (earlier ++ completing) := by
        refine .bind (recordAvailability_marks hreaches hout huntouched _) fun later result h => ?_
        cases result with
        | ok _ => exact h
        | error _ =>
          refine (touchesNothing_of_spares (spares_remark ..)).mono fun more _ hmore => ?_
          exact fun other hne hother => hmore other (h other hne hother)
      exact .lift_bind hmarked fun _ _ h => h
    · exact fun _ _ h => h

/-- What is completed is marked down at most. -/
theorem completeSince_marks {ticket : Ticket} (huntouched : Untouched raw.oid past) :
    (sv.completeSince c noFetch ticket raw).run.Meets Exchange.Distinct
      (sv.OnlyMarksDown c noFetch) (Touches raw.oid past) past := by
  refine .action_bind (touchesNothing_of_spares (spares_cached? sv c raw.oid))
    (fun looked cached hlooked => ?_) fun _ _ h => h.touches raw.oid
  split
  · exact hlooked.touches raw.oid
  · have hspares : (Completion.run c (sv.mode noFetch) raw).Asks Request.Spares :=
      (Completion.run_reads c _ raw).mono fun _ => Request.Reads.spares
    have hrun : (Completion.run c (sv.mode noFetch) raw).Meets Exchange.Distinct
        (sv.OnlyMarksDown c noFetch) (fun later o => TouchesNothing (past ++ looked) later o ∧
          ∃ completing, later = past ++ looked ++ completing ∧
            (Completion.run c (sv.mode noFetch) raw).Reaches completing (done o))
        (past ++ looked) :=
      meets_of_spares hspares fun completing o h _ hkept => ⟨hkept, completing, rfl, h⟩
    refine .lift_bind hrun ?_
    rintro more o ⟨hcompleted, completing, hmore, hreaches⟩
    rw [hmore] at hcompleted ⊢
    refine (settle_marks hreaches (hcompleted _ (hlooked _ huntouched))).mono fun _ _ h => ?_
    exact fun other hne hother => h other hne (hcompleted other (hlooked other hother))

theorem complete_marks (sv : Service) (c : Caller) (noFetch : Bool)
    (huntouched : Untouched raw.oid past) :
    (sv.complete c noFetch raw).run.Meets Exchange.Distinct (sv.OnlyMarksDown c noFetch)
      (Touches raw.oid past) past := by
  refine .lift_bind (touchesNothing_of_spares (p := Action.cache .ticket) ⟨id, fun _ => trivial⟩)
    fun later ticket h => ?_
  refine (completeSince_marks (h _ huntouched)).mono fun _ _ hlater => ?_
  exact fun other hne hother => hlater other hne (h other hother)

theorem get_marks (sv : Service) (c : Caller) (oid : String) (noFetch : Bool) :
    (sv.get c oid noFetch).run.Meets Exchange.Distinct (sv.OnlyMarksDown c noFetch)
      (fun _ _ => True) [] := by
  refine .lift_bind (touchesNothing_of_spares (spares_remark ..)) fun announced _ hannounced => ?_
  refine .lift_bind (touchesNothing_of_spares (p := Action.cache .ticket) ⟨id, fun _ => trivial⟩)
    fun taken ticket htaken => ?_
  refine .action_bind (touchesNothing_of_spares (spares_cached? sv c oid))
    (fun looked cached hlooked => ?_) fun _ _ _ => trivial
  split
  · trivial
  · refine .action_bind (touchesNothing_of_spares (p := (Action.store (.read oid)).run)
      ⟨id, fun _ => trivial⟩) (fun read raw hread => ?_) fun _ _ _ => trivial
    have huntouched := hread raw.oid <| hlooked _ <| htaken _ <| hannounced _ <| untouched_nil _
    exact (completeSince_marks huntouched).mono fun _ _ _ => trivial

theorem completeHit_marks (sv : Service) (c : Caller) (noFetch : Bool)
    (huntouched : Untouched raw.oid past) :
    (sv.completeHit c noFetch raw).run.Meets Exchange.Distinct (sv.OnlyMarksDown c noFetch)
      (Touches raw.oid past) past := by
  refine .bind (complete_marks sv c noFetch huntouched) fun later outcome h => ?_
  split
  · exact h
  · refine Meets.bind (touchesNothing_of_spares (spares_remark ..)) fun more _ hmore => ?_
    exact fun other hne hother => hmore other (h other hne hother)
  · exact h

/-- Completing one hit after another, each is marked down once at most. -/
theorem completeHits_marks (sv : Service) (c : Caller) (noFetch : Bool) {found : List Resource}
    (hdistinct : found.Pairwise fun a b => a.oid ≠ b.oid)
    (huntouched : ∀ raw ∈ found, Untouched raw.oid past) :
    (found.mapM (sv.completeHit c noFetch)).run.Meets Exchange.Distinct
      (sv.OnlyMarksDown c noFetch) (fun _ _ => True) past := by
  induction found generalizing past with
  | nil => trivial
  | cons raw rest ih =>
    obtain ⟨hraw, hrest⟩ := List.forall_mem_cons.1 huntouched
    obtain ⟨hother, hdistinct⟩ := List.pairwise_cons.1 hdistinct
    rw [List.mapM_cons]
    refine .action_bind (completeHit_marks sv c noFetch hraw) (fun later _ h => ?_)
      fun _ _ _ => trivial
    -- The others have not been modified by completing this one.
    have hrest : ∀ r ∈ rest, Untouched r.oid (past ++ later) :=
      fun r hr => h r.oid (hother r hr).symm (hrest r hr)
    exact .action_bind (ih hdistinct hrest) (fun _ _ _ => trivial) fun _ _ _ => trivial

theorem search_marks (sv : Service) (c : Caller) (q : Query) (noFetch : Bool) :
    (sv.search c q noFetch).run.Meets Exchange.Distinct (sv.OnlyMarksDown c noFetch)
      (fun _ _ => True) [] := by
  have hsearch : (Action.store (.search q)).run.Meets Exchange.Distinct
      (sv.OnlyMarksDown c noFetch) (fun later outcome => TouchesNothing [] later outcome ∧
        ∀ found, outcome = .ok found → found.Pairwise fun a b => a.oid ≠ b.oid) [] := by
    refine meets_of_spares (p := (Action.store (.search q)).run) ⟨id, fun _ => trivial⟩
      fun trace outcome h hrely hkept => ⟨hkept, ?_⟩
    rintro found rfl
    obtain ⟨reply, _, rfl, hreply, rfl⟩ := yields_nil_iff.2 h
    cases reply with
    | error e => cases hreply
    | ok a =>
      cases hreply
      exact hrely _ List.mem_cons_self q found rfl
  refine .action_bind hsearch (fun later found hfound => ?_) fun _ _ _ => trivial
  obtain ⟨hkept, hdistinct⟩ := hfound
  refine .lift_bind (touchesNothing_of_spares (spares_remark ..)) fun more _ hmore => ?_
  refine completeHits_marks sv c noFetch (hdistinct found rfl) fun raw _ => ?_
  exact hmore _ (hkept _ (untouched_nil _))

end Service

namespace Operation

/-- Whether an operation completes resources, and if so, whether without fetch. -/
def completes? : Operation → Option Bool
  | get _ noFetch => some noFetch
  | complete _ noFetch => some noFetch
  | search _ noFetch => some noFetch
  | _ => none

/-- **Who completes resources writes nothing but that a resource is down**, and that once at
most. -/
theorem onlyMarksDown (sv : Service) (c : Caller) {op : Operation} {noFetch : Bool}
    (hop : op.completes? = some noFetch) :
    (op.action sv c).run.Meets Exchange.Distinct (sv.OnlyMarksDown c noFetch) (fun _ _ => True)
      [] := by
  cases op with
  | get oid noFetch =>
    cases hop
    exact Service.get_marks sv c oid noFetch
  | complete raw noFetch =>
    cases hop
    exact (Service.complete_marks sv c noFetch (untouched_nil _)).mono fun _ _ _ => trivial
  | search q noFetch =>
    cases hop
    exact Service.search_marks sv c q noFetch
  | _ => cases hop

end Operation

/-! ### Histories -/

namespace Event

/-- Whether an operation asked something at an event. -/
def isAsked : Event → Bool
  | asked _ _ => true
  | _ => false

/-- Whether an operation called a connector at an event. -/
def isCall : Event → Bool
  | asked _ ⟨.connector _ _, _⟩ => true
  | _ => false

end Event

/-- A resource gets one more record of its availability, and nothing else is written. -/
def Store.Records (s s' : Store) (oid : String) (change : AvailabilityChange) (limit : Nat) :
    Prop :=
  ∃ r, s.find? oid = some r ∧ ∀ key, s'.find? key = if key = oid then
    some { r with
      operationalState := r.operationalState.record limit change, version := r.version.next }
    else s.find? key

theorem Store.records_of_modify {s s' : Store} {oid : String} {change : AvailabilityChange}
    {limit : Nat} {v : Version}
    (h : s.modify oid [.recordAvailability change limit] = .ok (v, s')) :
    s.Records s' oid change limit := by
  cases hr : s.find? oid with
  | none =>
    rw [modify, read_eq, hr] at h
    cases h
  | some r =>
    refine ⟨r, hr, fun key => ?_⟩
    rw [read_modify h, hr]
    rfl

namespace Interleaving

variable {sv : Service} {outages : Outages} {s t u : State} {events since : List Event}
variable {id : Nat} {x : Exchange}

theorem Step.distinct (h : Step sv outages s (.asked id x) t) : x.Distinct := by
  rintro q found rfl
  rcases h.answer_store with ⟨e, he⟩ | ⟨fresh, hsearch⟩
  · cases he
  · cases hsearch
    exact Service.pairwise_search s.world.store q

theorem Run.distinct (h : Run sv outages s events t) (hx : .asked id x ∈ events) : x.Distinct := by
  obtain ⟨before, after, rfl⟩ := List.append_of_mem hx
  obtain ⟨_, _, -, step, -⟩ := h.exists_step
  exact step.distinct

/-- Someone who completes resources asks for no writes but to mark one down. -/
theorem onlyMarksDown_of_step {op : Operation} {noFetch : Bool} {c : Caller}
    (hop : op.completes? = some noFetch)
    (hrun : Run sv outages s (.started id c op :: since) t) (hsince : ∀ e ∈ since, ¬ e.Finishes id)
    (hstep : Step sv outages t (.asked id x) u) :
    sv.OnlyMarksDown c noFetch (Event.exchangesOf id since) x.request := by
  cases hrun with
  | cons start rest =>
    cases start
    obtain ⟨q, hq, hreaches⟩ := rest.reaches (if_pos rfl) hsince
    cases hstep with
    | ask hask _ =>
      rw [hq] at hask
      cases hask
      have hdistinct : ∀ y ∈ Event.exchangesOf id since, y.Distinct :=
        fun y hy => rest.distinct (Event.mem_exchangesOf.1 hy)
      exact ((Operation.onlyMarksDown sv c hop).of_reaches hreaches hdistinct).1

/-- **Only what was found out of reach is marked down.**  Whatever repository and connectors answer,
and whatever else happens meanwhile, the repository stays as it is at every request of someone who
completes resources, or with fetch one resource gets one more record that it is down: a resource
that this operation completed before, and found out of reach, and did not mark yet. -/
theorem store_eq_or_marksDown {op : Operation} {noFetch : Bool} {c : Caller}
    (hop : op.completes? = some noFetch)
    (hrun : Run sv outages s (.started id c op :: since) t) (hsince : ∀ e ∈ since, ¬ e.Finishes id)
    (hstep : Step sv outages t (.asked id x) u) :
    u.world.store = t.world.store ∨
      noFetch = false ∧ ∃ raw cause now,
        sv.MarksDown c (Event.exchangesOf id since) raw cause now x.request ∧
        t.world.store.Records u.world.store raw.oid
          { status := .down
            timestamp := now
            reason := some (ProvisioningError.completionFailed raw.oid cause none).message
            taskId := c.task } sv.tuning.historySize := by
  have hmarks := onlyMarksDown_of_step hop hrun hsince hstep
  rcases hstep.store_cases with ⟨hstore, -⟩ | ⟨_, _, _, _, he, -⟩ |
    ⟨_, key, changes, v, he, hmodify⟩ | ⟨_, _, he, -⟩
  · exact .inl hstore
  · cases he
    obtain ⟨-, _, _, _, -, -, hrequest⟩ := hmarks trivial
    cases hrequest
  · cases he
    obtain ⟨hfetch, raw, cause, now, hmark⟩ := hmarks trivial
    have hrequest := hmark.request
    cases hrequest
    exact .inr ⟨hfetch, raw, cause, now, hmark, Store.records_of_modify hmodify⟩
  · cases he
    obtain ⟨-, _, _, _, -, -, hrequest⟩ := hmarks trivial
    cases hrequest

variable (sv outages) in
/-- A move at which something is asked is one event. -/
theorem exists_step_of_make (connectors : Connectors) (s : State) (id : Nat)
    (h : (s.make sv connectors (.go id)).1.any Event.isAsked = true) :
    ∃ x, Step sv outages s (.asked id x) (s.make sv connectors (.go id)).2 := by
  unfold State.make at h ⊢
  dsimp only at h ⊢
  split at h
  · cases h
  · cases h
  · next hunder => exact ⟨_, .ask hunder (.answered connectors _)⟩

/-- Connectors that reach no resource. -/
def sampleUnreached : Connectors := fun _ _ => .error (.unreachable "no route")

/-- A template is got that its connector cannot reach, up to the request that marks it down. -/
def sampleMarking : List Event × State :=
  sampleStart.play { templateLimit := 3 } sampleUnreached
    (.start 0 default (.get "directory" false) :: List.replicate 12 (.go 0))

/-- The request marks the template down. -/
theorem store_eq_or_marksDown_sample : ∃ since t x u,
    Run { templateLimit := 3 } (fun _ _ => False) sampleStart
      (.started 0 default (.get "directory" false) :: since) t ∧
    (∀ e ∈ since, ¬ e.Finishes 0) ∧
    Step { templateLimit := 3 } (fun _ _ => False) t (.asked 0 x) u ∧
    (t.world.store.find? "directory").bind Resource.availability = none ∧
    (u.world.store.find? "directory").bind Resource.availability = some .down ∧
    ∃ raw cause now, Service.MarksDown { templateLimit := 3 } default
      (Event.exchangesOf 0 since) raw cause now x.request := by
  obtain ⟨x, hstep⟩ := exists_step_of_make { templateLimit := 3 } (fun _ _ => False)
    sampleUnreached sampleMarking.2 0 (by decide +kernel)
  have hplayed : Run { templateLimit := 3 } (fun _ _ => False) sampleStart sampleMarking.1
      sampleMarking.2 := run_play _ _ _ _ _
  have hrun : Run { templateLimit := 3 } (fun _ _ => False) sampleStart
      (.started 0 default (.get "directory" false) :: sampleMarking.1.tail) sampleMarking.2 :=
    hplayed
  have hsince : ∀ e ∈ sampleMarking.1.tail, ¬ e.Finishes 0 := by decide +kernel
  have hbefore : (sampleMarking.2.world.store.find? "directory").bind Resource.availability =
      none := by decide +kernel
  have hafter : ((sampleMarking.2.make { templateLimit := 3 } sampleUnreached (.go 0)).2.world.store
      |>.find? "directory").bind Resource.availability = some .down := by decide +kernel
  refine ⟨_, _, x, _, hrun, hsince, hstep, hbefore, hafter, ?_⟩
  rcases store_eq_or_marksDown rfl hrun hsince hstep with hstore | ⟨-, raw, cause, now, hmark, -⟩
  · rw [hstore, hbefore] at hafter
    cases hafter
  · exact ⟨raw, cause, now, hmark⟩

/-- The repository fails at the request that an operation asks next, if it is one to it. -/
def State.fail (s : State) (id : Nat) (e : StoreError) : List Event × State :=
  match s.underWay id with
  | some ⟨op, .ask (.store r) next⟩ =>
    ([.asked id ⟨.store r, .error e⟩], s.move s.world id (some ⟨op, next (.error e)⟩))
  | _ => ([], s)

variable (sv) in
theorem run_fail (s : State) (id : Nat) {e : StoreError} (h : ∀ r, outages r e) :
    Run sv outages s (s.fail id e).1 (s.fail id e).2 := by
  unfold State.fail
  split
  · next hnext => exact .cons (.ask hnext (.outage (h _))) (.nil _)
  · exact .nil s

/-- A resource is got, but the repository is busy when its template is read. -/
def sampleOutage : List Event × State :=
  let before := sampleStart.play { templateLimit := 3 } Completion.sampleConnectors
    (.start 0 default (.get "heir" false) :: List.replicate 8 (.go 0))
  let failed := before.2.fail 0 (.unavailable "busy")
  let after := failed.2.play { templateLimit := 3 } Completion.sampleConnectors
    (List.replicate 6 (.go 0))
  (before.1 ++ (failed.1 ++ after.1), after.2)

/-- A resource is marked down though no connector was called. -/
theorem marked_without_call : ∃ events t,
    Run { templateLimit := 3 } (fun _ e => e = .unavailable "busy") sampleStart
      (.started 0 default (.get "heir" false) :: events) t ∧
    (∀ e ∈ events, e.isCall = false) ∧
    (sampleStart.world.store.find? "heir").bind Resource.availability = none ∧
    (t.world.store.find? "heir").bind Resource.availability = some .down := by
  have hrun : Run { templateLimit := 3 } (fun _ e => e = .unavailable "busy") sampleStart
      sampleOutage.1 sampleOutage.2 :=
    run_append_iff.2 ⟨_, run_play _ _ _ _ _, run_append_iff.2
      ⟨_, run_fail _ _ 0 fun _ => rfl, run_play _ _ _ _ _⟩⟩
  exact ⟨sampleOutage.1.tail, sampleOutage.2, hrun, by decide +kernel, by decide +kernel,
    by decide +kernel⟩

end Interleaving

end Reconciler
