/-
A service that is used by one caller after another.

* `Surroundings`: connectors that always answer alike, and a clock with all of its readings;
* `Session`: a world with counts of what was read from the clock and written to the repository;
* `Session.run`: runs a program without interruption;
* `Session.peek`: what a program gives if all of its requests are answered as right now;
* `Program.Asks`: all requests of a program are of some kind.

Main statements:
* `Session.run_bind`, `run_action_bind`: a sequence is run in sequence;
* `Session.writes_le_run`: writes are never undone;
* `Session.run_of_reading`: a program that only reads gives what can be foreseen, and leaves the
  session as it is;
* `Session.find?_run_of_keepsTo`: a program that keeps to one resource leaves the others alone.

Design notes:
* A reading of the clock is an answer to a program.  The time at which an entry is put into the
  cache is none.
-/
import Reconciler.Operation
import Reconciler.World

namespace Reconciler

/-! ### Sessions -/

/-- What answers besides repository and cache. -/
structure Surroundings where
  connectors : Connectors
  /-- The readings of the clock in their order. -/
  clock : Nat → Instant

/-- A world in use. -/
structure Session where
  world : World := {}
  /-- How many readings of the clock there were. -/
  readings : Nat := 0
  /-- How many times something was added to the repository or modified there. -/
  writes : Nat := 0

/-- One, if the answer tells that something was added or modified. -/
def Request.writes : (r : Request) → r.Reply → Nat
  | .store (.add _), .ok _ => 1
  | .store (.modify _ _), .ok _ => 1
  | _, _ => 0

namespace Session

/-- The repository. -/
abbrev store (σ : Session) : Store := σ.world.store

/-- The cache. -/
abbrev cache (σ : Session) : DefinitionCache := σ.world.cache

variable (env : Surroundings)

/-- The answer to a request, and the session afterwards. -/
def answer (σ : Session) : (r : Request) → r.Reply × Session
  | .now => (env.clock σ.readings, { σ with readings := σ.readings + 1 })
  | r =>
    let answered := σ.world.answer env.connectors r
    (answered.1, { σ with world := answered.2, writes := σ.writes + r.writes answered.1 })

/-- Runs a program without anything happening in between. -/
def run {α : Type} (p : Program α) : StateM Session α := p.interpret fun r σ => σ.answer env r

/-- What a program gives if all of its requests are answered as right now. -/
def peek {α : Type} (σ : Session) (p : Program α) : α :=
  p.interpret (m := Id) fun r => (σ.answer env r).1

variable {env} {α β : Type} {σ τ υ : Session}

@[simp] theorem run_done (a : α) (σ : Session) : run env (.done a) σ = (a, σ) := rfl

theorem run_ask (r : Request) (next : r.Reply → Program α) (σ : Session) :
    run env (.ask r next) σ = run env (next (σ.answer env r).1) (σ.answer env r).2 := rfl

@[simp] theorem run_perform (r : Request) (σ : Session) :
    run env (Program.perform r) σ = σ.answer env r := rfl

theorem run_bind (p : Program α) (f : α → Program β) (σ : Session) :
    run env (p >>= f) σ = run env (f (run env p σ).1) (run env p σ).2 := by
  unfold run
  rw [Program.interpret_bind]
  rfl

theorem run_lift (p : Program α) (σ : Session) :
    run env (liftM p : Action α).run σ = (.ok (run env p σ).1, (run env p σ).2) := by
  show run env (p >>= fun a => pure (Except.ok a)) σ = _
  rw [run_bind]
  rfl

/-- An action goes on if the first part does not fail. -/
theorem run_action_bind (x : Action α) (f : α → Action β) (σ : Session) :
    run env (x >>= f).run σ =
      match run env x.run σ with
      | (.ok a, τ) => run env (f a).run τ
      | (.error e, τ) => (.error e, τ) := by
  rw [ExceptT.run_bind, run_bind]
  generalize run env x.run σ = result
  obtain ⟨r, τ⟩ := result
  cases r <;> rfl

@[simp] theorem peek_pure (a : α) (σ : Session) : peek env σ (pure a) = a := rfl

theorem peek_bind (p : Program α) (f : α → Program β) (σ : Session) :
    peek env σ (p >>= f) = peek env σ (f (peek env σ p)) := by
  unfold peek
  rw [Program.interpret_bind]
  rfl

theorem peek_action_bind (x : Action α) (f : α → Action β) (σ : Session) :
    peek env σ (x >>= f).run =
      match peek env σ x.run with
      | .ok a => peek env σ (f a).run
      | .error e => .error e := by
  rw [ExceptT.run_bind, peek_bind]
  cases peek env σ x.run <;> rfl

/-! ### Writes -/

/-- What a request can do to the repository, and whether it counts as a write. -/
theorem answer_store_cases (env : Surroundings) (σ : Session) (r : StoreRequest) :
    ((σ.answer env (.store r)).2.store = σ.store ∧
        (σ.answer env (.store r)).2.writes = σ.writes) ∨
      (∃ x key, r = .add x ∧
        σ.store.add (World.freshOid σ.world.serial) x =
          .ok (key, (σ.answer env (.store r)).2.store) ∧
        (σ.answer env (.store r)).2.writes = σ.writes + 1) ∨
      (∃ key changes v, r = .modify key changes ∧
        σ.store.modify key changes = .ok (v, (σ.answer env (.store r)).2.store) ∧
        (σ.answer env (.store r)).2.writes = σ.writes + 1) ∨
      ∃ oid, r = .delete oid ∧ σ.store.delete oid = .ok (σ.answer env (.store r)).2.store := by
  simp only [answer, World.answer]
  cases r with
  | add x =>
    simp only [Store.answer]
    cases hadd : σ.store.add (World.freshOid σ.world.serial) x with
    | error e => exact .inl ⟨rfl, rfl⟩
    | ok added => exact .inr (.inl ⟨x, added.1, rfl, hadd, rfl⟩)
  | modify key changes =>
    simp only [Store.answer]
    cases hmodify : σ.store.modify key changes with
    | error e => exact .inl ⟨rfl, rfl⟩
    | ok modified => exact .inr (.inr (.inl ⟨key, changes, modified.1, rfl, hmodify, rfl⟩))
  | delete oid =>
    simp only [Store.answer]
    cases hdelete : σ.store.delete oid with
    | error e => exact .inl ⟨rfl, rfl⟩
    | ok s' => exact .inr (.inr (.inr ⟨oid, rfl, hdelete⟩))
  | _ => exact .inl ⟨rfl, rfl⟩

theorem writes_le_answer (r : Request) (σ : Session) : σ.writes ≤ (σ.answer env r).2.writes := by
  cases r with
  | now => exact Nat.le_refl _
  | _ => exact Nat.le_add_right ..

/-- Writes are never undone. -/
theorem writes_le_run (p : Program α) (σ : Session) : σ.writes ≤ (run env p σ).2.writes := by
  induction p generalizing σ with
  | done a => exact Nat.le_refl _
  | ask r next ih => exact Nat.le_trans (writes_le_answer r σ) (ih _ _)

end Session

/-! ### Kinds of requests -/

namespace Program

variable {α β : Type} {allowed : Request → Prop}

/-- All requests of a program are allowed, whatever is answered. -/
def Asks (allowed : Request → Prop) : Program α → Prop
  | done _ => True
  | ask r next => allowed r ∧ ∀ reply, (next reply).Asks allowed

theorem Asks.bind {p : Program α} {f : α → Program β} (hp : p.Asks allowed)
    (hf : ∀ a, (f a).Asks allowed) : (p >>= f).Asks allowed := by
  induction p with
  | done a => exact hf a
  | ask r next ih => exact ⟨hp.1, fun reply => ih reply (hp.2 reply)⟩

theorem Asks.action_bind {x : Action α} {f : α → Action β} (hx : x.run.Asks allowed)
    (hf : ∀ a, (f a).run.Asks allowed) : (x >>= f).run.Asks allowed := by
  refine Asks.bind hx fun r => ?_
  cases r with
  | ok a => exact hf a
  | error e => trivial

theorem Asks.lift_bind {p : Program α} {f : α → Action β} (hp : p.Asks allowed)
    (hf : ∀ a, (f a).run.Asks allowed) : (liftM p >>= f).run.Asks allowed :=
  .action_bind (.bind hp fun _ => trivial) hf

theorem Asks.mono {p : Program α} {more : Request → Prop} (hp : p.Asks allowed)
    (h : ∀ r, allowed r → more r) : p.Asks more := by
  induction p with
  | done a => trivial
  | ask r next ih => exact ⟨h r hp.1, fun reply => ih reply (hp.2 reply)⟩

/-- What a program has asked so far is allowed. -/
theorem Asks.of_reaches {p q : Program α} {trace : List Exchange}
    (hp : p.Asks allowed) (h : p.Reaches trace q) : ∀ x ∈ trace, allowed x.request := by
  induction h with
  | here p => exact List.forall_mem_nil _
  | step _ ih => exact List.forall_mem_cons.2 ⟨hp.1, ih (hp.2 _)⟩

end Program

/-- The request changes nothing, and is not about the cache or the time. -/
def Request.Reads : Request → Prop
  | .store (.read _) | .connector _ _ | .remark _ => True
  | _ => False

/-- The request is one by which the cache finds out whether it has the latest. -/
def Request.Looks : Request → Prop
  | .store (.version _) | .cache (.find _) | .cache (.evict _ _) | .remark _ => True
  | _ => False

/-- The request writes at most to one resource, and neither adds nor deletes any. -/
def Request.KeepsTo (oid : String) : Request → Prop
  | .store (.modify key _) => key = oid
  | .store (.add _) | .store (.delete _) => False
  | _ => True

theorem Request.Reads.keepsTo (oid : String) {r : Request} (h : r.Reads) : r.KeepsTo oid := by
  cases r with
  | store r =>
    cases r with
    | read key => trivial
    | _ => exact h.elim
  | _ => trivial

namespace Session

variable {env : Surroundings} {α : Type} {σ τ υ : Session} {p : Program α} {oid key : String}

/-- Nothing happened since that could be noticed, but that entries may have left the cache. -/
structure Quiet (σ τ : Session) : Prop where
  store_eq : τ.store = σ.store
  readings_eq : τ.readings = σ.readings
  writes_eq : τ.writes = σ.writes
  entries : ∀ oid e, τ.cache.find? oid = some e → σ.cache.find? oid = some e

theorem Quiet.refl (σ : Session) : Quiet σ σ := ⟨rfl, rfl, rfl, fun _ _ h => h⟩

theorem Quiet.trans (h : Quiet σ τ) (h' : Quiet τ υ) : Quiet σ υ where
  store_eq := h'.store_eq.trans h.store_eq
  readings_eq := h'.readings_eq.trans h.readings_eq
  writes_eq := h'.writes_eq.trans h.writes_eq
  entries oid e he := h.entries oid e (h'.entries oid e he)

theorem quiet_answer {r : Request} (h : r.Reads) (σ : Session) : Quiet σ (σ.answer env r).2 := by
  cases r with
  | store r =>
    cases r with
    | read oid => exact ⟨rfl, rfl, rfl, fun _ _ h => h⟩
    | _ => exact h.elim
  | connector target r => exact ⟨rfl, rfl, rfl, fun _ _ h => h⟩
  | remark record => exact ⟨rfl, rfl, rfl, fun _ _ h => h⟩
  | _ => exact h.elim

theorem answer_fst_congr {r : Request} (h : r.Reads) (e : σ.store = τ.store) :
    (σ.answer env r).1 = (τ.answer env r).1 := by
  cases r with
  | store r =>
    cases r with
    | read oid => exact congrArg (fun s => Store.read s oid) e
    | _ => exact h.elim
  | connector target r => rfl
  | remark record => rfl
  | _ => exact h.elim

/-- What a program that only reads gives is up to the repository. -/
theorem peek_congr (h : p.Asks Request.Reads) (e : σ.store = τ.store) :
    peek env σ p = peek env τ p := by
  induction p with
  | done a => rfl
  | ask r next ih =>
    show peek env σ (next (σ.answer env r).1) = peek env τ (next (τ.answer env r).1)
    rw [answer_fst_congr h.1 e]
    exact ih _ (h.2 _)

/-- A program that only reads gives what can be foreseen. -/
theorem run_of_reading (env : Surroundings) (h : p.Asks Request.Reads) (σ : Session) :
    (run env p σ).1 = peek env σ p ∧ Quiet σ (run env p σ).2 := by
  induction p generalizing σ with
  | done a => exact ⟨rfl, .refl σ⟩
  | ask r next ih =>
    -- The rest can be foreseen from here, since the repository is still the same then.
    have hquiet : Quiet σ (σ.answer env r).2 := quiet_answer h.1 σ
    obtain ⟨hvalue, hrest⟩ := ih (σ.answer env r).1 (h.2 _) (σ.answer env r).2
    refine ⟨?_, hquiet.trans hrest⟩
    rw [run_ask, hvalue]
    exact peek_congr (h.2 _) hquiet.store_eq

theorem find?_answer_of_keepsTo {r : Request} (hr : r.KeepsTo oid) (hne : key ≠ oid)
    (σ : Session) : (σ.answer env r).2.store.find? key = σ.store.find? key := by
  cases r with
  | store r =>
    rcases answer_store_cases env σ r with ⟨hstore, -⟩ | ⟨_, _, rfl, -⟩ |
      ⟨written, changes, v, rfl, hmodify, -⟩ | ⟨_, rfl, -⟩
    · rw [hstore]
    · exact hr.elim
    · have hwritten : written = oid := hr
      rw [Store.read_modify hmodify, if_neg (hwritten ▸ hne)]
    · exact hr.elim
  | _ => rfl

/-- A program that keeps to one resource leaves the others as they are. -/
theorem find?_run_of_keepsTo (hp : p.Asks (Request.KeepsTo oid)) (hne : key ≠ oid) (σ : Session) :
    (run env p σ).2.store.find? key = σ.store.find? key := by
  induction p generalizing σ with
  | done a => rfl
  | ask r next ih => rw [run_ask, ih _ (hp.2 _), find?_answer_of_keepsTo hp.1 hne]

end Session

end Reconciler
