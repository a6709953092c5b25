/-
The cache makes no difference.

* `Operation.Ordinary`: operations that fetch, that delete only through the service, and that add
  only what has an OID;
* `Session.carryOut`: carries out operations one after another, and tells what could be seen.

Main statements:
* `Operation.Ordinary.agree`: with the cache and without it, an operation gives the same;
* `Session.carryOut_withCache`: so does a history of operations.

Design notes:
* What could be seen after each operation is its outcome and all of the repository.
* A repository that starts empty has no version ahead of its writes.
-/
import Reconciler.Proofs.Cache.Operations

namespace Reconciler

open Session

/-! ### One operation -/

namespace Operation

/-- Operations for which the cache should make no difference.  A resource deleted at the repository
alone would be left in the cache, and what is completed without fetch never gets there. -/
def Ordinary : Operation → Prop
  | get _ noFetch | search _ noFetch => noFetch = false
  | delete _ | setAvailability _ _ _ _ | testConnection _ => True
  | atStore r => r.Ordinary
  | _ => False

variable {env : Surroundings} {sv : Service} {σ τ : Session}

theorem Ordinary.agree {op : Operation} (hop : op.Ordinary)
    (h : Related env (sv.mode false) σ τ) (c : Caller) :
    Agree env (sv.mode false) (op.action (sv.withCache true) c).run
      (op.action (sv.withCache false) c).run σ τ := by
  cases op with
  | get oid noFetch =>
    cases hop
    exact Service.agree_get h c oid
  | search q noFetch =>
    cases hop
    exact Service.agree_search h c q
  | delete oid => exact Service.agree_delete h c oid
  | setAvailability oid status reason skipFetch =>
    exact Service.agree_setAvailability h c oid status reason skipFetch
  | testConnection oid => exact Service.agree_testConnection h c oid
  | atStore r => exact agree_store h hop
  | _ => exact hop.elim

end Operation

/-! ### Histories -/

/-- What can be seen of an operation. -/
structure Sight where
  operation : Operation
  outcome : operation.Outcome
  /-- The repository afterwards. -/
  store : Store

namespace Session

variable {env : Surroundings} {sv : Service} {σ τ : Session}

/-- Carries out operations one after another. -/
def carryOut (env : Surroundings) (sv : Service) :
    List (Caller × Operation) → Session → List Sight × Session
  | [], σ => ([], σ)
  | (c, op) :: rest, σ =>
    let (outcome, τ) := run env (op.action sv c).run σ
    let (seen, υ) := carryOut env sv rest τ
    (⟨op, outcome, τ.store⟩ :: seen, υ)

theorem carryOut_cons (env : Surroundings) (sv : Service) (c : Caller) (op : Operation)
    (rest : List (Caller × Operation)) (σ : Session) :
    carryOut env sv ((c, op) :: rest) σ =
      (⟨op, (run env (op.action sv c).run σ).1, (run env (op.action sv c).run σ).2.store⟩ ::
          (carryOut env sv rest (run env (op.action sv c).run σ).2).1,
        (carryOut env sv rest (run env (op.action sv c).run σ).2).2) := rfl

theorem writes_le_carryOut (ops : List (Caller × Operation)) (σ : Session) :
    σ.writes ≤ (carryOut env sv ops σ).2.writes := by
  induction ops generalizing σ with
  | nil => exact Nat.le_refl _
  | cons x rest ih => exact Nat.le_trans (writes_le_run _ σ) (ih _)

/-- With faithful entries in the cache, a history looks as it does without the cache. -/
theorem Related.carryOut_eq {ops : List (Caller × Operation)} (hops : ∀ x ∈ ops, x.2.Ordinary)
    (h : Related env (sv.mode false) σ τ)
    (hwrites : (carryOut env (sv.withCache false) ops τ).2.writes < UInt64.size) :
    (carryOut env (sv.withCache true) ops σ).1 = (carryOut env (sv.withCache false) ops τ).1 := by
  induction ops generalizing σ τ with
  | nil => rfl
  | cons x rest ih =>
    obtain ⟨c, op⟩ := x
    obtain ⟨hop, hrest⟩ := List.forall_mem_cons.1 hops
    -- Writes never decrease, so they are few enough after the first operation too.
    rw [carryOut_cons] at hwrites
    obtain ⟨houtcome, hafter⟩ :=
      hop.agree h c (Nat.lt_of_le_of_lt (writes_le_carryOut rest _) hwrites)
    rw [carryOut_cons, carryOut_cons, houtcome, hafter.store_eq, ih hrest hafter hwrites]

/-- **The cache makes no difference.**  From an empty cache, a history of operations has the same
outcomes and leaves the same repository after each of them as without the cache. -/
theorem carryOut_withCache (env : Surroundings) (sv : Service) {ops : List (Caller × Operation)}
    (hops : ∀ x ∈ ops, x.2.Ordinary) {σ : Session} (hempty : ∀ oid, σ.cache.find? oid = none)
    (hbounded : σ.store.Bounded σ.writes)
    (hwrites : (carryOut env (sv.withCache false) ops σ).2.writes < UInt64.size) :
    (carryOut env (sv.withCache true) ops σ).1 = (carryOut env (sv.withCache false) ops σ).1 := by
  have hsound : Sound env (sv.mode false) σ := by
    refine ⟨hbounded, fun oid e he => ?_⟩
    rw [hempty] at he
    cases he
  exact Related.carryOut_eq hops ⟨rfl, rfl, rfl, hsound⟩ hwrites

/-- Connectors to resources without any objects, and a clock that stands still. -/
def sampleSurroundings : Surroundings where
  connectors _ r :=
    match r with
    | .schema => .ok {}
    | .capabilities => .ok .empty
    | .test => .ok ()
    | _ => .error default
  clock _ := .epoch

/-- A resource that takes its connector from a template. -/
def sampleResource : Resource where
  oid := "child"
  name := "child"
  configuration := { superRef := some "template" }

/-- A resource is got anew after its template was renamed, deleted, and added again. -/
def sampleHistory : List (Caller × Operation) :=
  List.map (fun op => (⟨"request", none⟩, op)) [
    .atStore (.add {
      oid := "template"
      name := "template"
      configuration := { connector := some ⟨"ldap", none⟩, isTemplate := true } }),
    .atStore (.add sampleResource),
    .get "child" false,
    .get "child" false,
    .atStore (.modify "template" [.rename "directory"]),
    .get "child" false,
    .testConnection "child",
    .delete "child",
    .atStore (.add sampleResource),
    .search {} false]

/-- In the end the template and the resource are in the cache, and nobody can tell. -/
theorem carryOut_withCache_sample :
    ((carryOut sampleSurroundings (Service.withCache { templateLimit := 10 } true) sampleHistory
      {}).2.cache.entries.keys = ["child", "template"]) ∧
    (carryOut sampleSurroundings (Service.withCache { templateLimit := 10 } true) sampleHistory
      {}).1 =
      (carryOut sampleSurroundings (Service.withCache { templateLimit := 10 } false) sampleHistory
        {}).1 := by
  have hops : ∀ x ∈ sampleHistory, x.2.Ordinary := by
    simp [sampleHistory, Operation.Ordinary, StoreRequest.Ordinary, sampleResource]
  have hbounded : Store.empty.Bounded 0 := fun oid r h => by cases h
  refine ⟨by decide +kernel, ?_⟩
  exact carryOut_withCache _ _ hops (fun _ => rfl) hbounded (by decide +kernel)

end Session

end Reconciler
