/-
What is asked to observe whether a resource can be used, and to use its connector.

* `Request.Observes`: a request learns something, or records one change of one resource.

Main statements:
* `Service.observes_recordAvailability`, `observes_setAvailability`, `observes_testConnection`:
  nothing else is asked to record an availability that is known, is to be set, or is tested;
* `Service.configuredTarget_reads`: to find a connector, configurations are read;
* `Service.exists_runScript_eq`: to run a script, its resource is got and its connector called.

Design notes:
* What else is told of these requests follows from what they are at most, by `Asks.mono`.
-/
import Reconciler.Proofs.Completion.Chain

namespace Reconciler

open Program

namespace Request

/-- The request learns something from repository, connectors, cache or clock, or is to record one
change of this resource, of which so many are kept. -/
def Observes (oid : String) (limit : Nat) : Request → Prop
  | .store (.read _) | .connector _ _ | .cache (.find _) | .now | .remark _ => True
  | .store (.modify key changes) =>
    key = oid ∧ ∃ change, changes = [.recordAvailability change limit]
  | _ => False

variable {oid : String} {limit : Nat} {r : Request}

theorem Reads.observes (h : r.Reads) (oid : String) (limit : Nat) : r.Observes oid limit := by
  cases r with
  | store r =>
    cases r with
    | read _ => trivial
    | _ => exact h.elim
  | cache _ => exact h.elim
  | _ => trivial

theorem Observes.keepsTo (h : r.Observes oid limit) : r.KeepsTo oid := by
  cases r with
  | store r =>
    cases r with
    | read _ => trivial
    | modify _ _ => exact h.1
    | _ => exact h.elim
  | _ => trivial

end Request

namespace Service

variable {sv : Service}

theorem observes_recordAvailability (c : Caller) (oid : String) (previous : Option Availability)
    (status : Availability) (reason : Option String) :
    (sv.recordAvailability c oid previous status reason).run.Asks
      (Request.Observes oid sv.tuning.historySize) := by
  refine .lift_bind ⟨trivial, fun _ => trivial⟩ fun _ => ?_
  refine .lift_bind ⟨trivial, fun _ => trivial⟩ fun now => ?_
  exact .action_bind ⟨⟨rfl, _, rfl⟩, fun _ => trivial⟩ fun _ => trivial

theorem observes_setAvailability (c : Caller) (oid : String) (status : Availability)
    (reason : Option String) (skipFetch : Bool) :
    (sv.setAvailability c oid status reason skipFetch).run.Asks
      (Request.Observes oid sv.tuning.historySize) := by
  unfold setAvailability
  split
  · refine .lift_bind ⟨trivial, fun _ => trivial⟩ fun cached => ?_
    exact .action_bind (observes_recordAvailability ..) fun _ => trivial
  · refine .action_bind ⟨trivial, fun _ => trivial⟩ fun stored => ?_
    split
    · exact .lift_bind ⟨trivial, fun _ => trivial⟩ fun _ => trivial
    · exact .action_bind (observes_recordAvailability ..) fun _ => trivial

theorem observes_markDown {α : Type} {x : Action α} {oid : String} {limit : Nat}
    (hx : x.run.Asks (Request.Observes oid limit)) (c : Caller) (other : String) :
    (markDown c other x).Asks (Request.Observes oid limit) := by
  refine .bind hx fun result => ?_
  cases result with
  | ok a => trivial
  | error e => exact ⟨trivial, fun _ => trivial⟩

theorem configuredTarget_reads (c : Caller) (raw : Resource) :
    (sv.configuredTarget c raw).run.Asks Request.Reads := by
  refine .lift_bind (Completion.run_reads c _ raw) fun o => ?_
  exact .action_bind trivial fun _ => trivial

theorem observes_testConnection (c : Caller) (oid : String) :
    (sv.testConnection c oid).run.Asks (Request.Observes oid sv.tuning.historySize) := by
  refine .lift_bind ⟨trivial, fun _ => trivial⟩ fun _ => ?_
  refine .action_bind ⟨trivial, fun _ => trivial⟩ fun raw => ?_
  refine .action_bind ((configuredTarget_reads c raw).mono fun _ h => h.observes _ _)
    fun target => ?_
  refine .lift_bind ⟨trivial, fun _ => trivial⟩ fun reply => ?_
  split
  · exact .action_bind (observes_setAvailability ..) fun _ => trivial
  · refine .lift_bind ⟨trivial, fun _ => trivial⟩ fun _ => ?_
    exact .lift_bind (observes_markDown (observes_setAvailability ..) c oid) fun _ => trivial

/-- Once the resource of a script is there, only its connector is asked. -/
theorem exists_runScript_eq (sv : Service) (c : Caller) (oid : String) (script : ScriptRequest) :
    ∃ rest : Resource → Action Json, sv.runScript c oid script = sv.get c oid >>= rest ∧
      ∀ r, (rest r).run.Asks Request.Reads := by
  refine ⟨_, rfl, fun r => ?_⟩
  have hcall : ∀ text, (do
      c.remark .info text
      Action.connector (← Action.ofExcept (targetOf r)) (.script script)
      : Action Json).run.Asks Request.Reads := by
    intro text
    refine .lift_bind ⟨trivial, fun _ => trivial⟩ fun _ => ?_
    exact .action_bind trivial fun target => ⟨trivial, fun _ => trivial⟩
  split
  · trivial
  · exact hcall _

end Service

end Reconciler
