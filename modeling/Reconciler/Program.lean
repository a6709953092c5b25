/-
Programs: what an operation asks of its surroundings, and how it goes on with the answers.

* `Request`: one indivisible step outside the program: at the repository, at a connector, at the
  cache, at the clock, or a remark;
* `Program`: a tree of requests; every branch ends with a result;
* `Action`: a program that may end with an error instead;
* `Program.interpret`: carries a program out in any monad that can answer requests;
* `Program.Reaches`: how far a program gets by given exchanges, whoever answers.

Main statements:
* `Program` is a lawful monad;
* `Program.interpret_bind`: a sequence is carried out in sequence;
* `Program.reaches_bind_done_iff`: the exchanges of a sequence are those of its parts in sequence;
* `Program.Reaches.eq_of_done`: what was answered determines the result.

Design notes:
* Whatever happens between two requests of a program happens outside of it, so that interleavings of
  several programs are interleavings of their requests.
* Every request at the repository or a connector may fail; the cache and the clock always answer.
-/
import Reconciler.DefinitionCache
import Reconciler.Error
import Reconciler.Log
import Reconciler.Store

namespace Reconciler

/-! ### Requests -/

/-- The connector to call, and the settings to call it with. -/
structure Target where
  connector : ConnectorReference
  settings : Settings
deriving DecidableEq, Inhabited

/-- A step at a connector. -/
inductive ConnectorRequest where
  | schema
  | capabilities
  | test
  | testPartial
  | discover
  | script (script : ScriptRequest)

/-- What a connector answers if it does not fail. -/
@[reducible] def ConnectorRequest.Reply : ConnectorRequest → Type
  | schema => NativeSchema
  | capabilities => CapabilitySet
  | test => Unit
  | testPartial => Unit
  | discover => List SuggestedProperty
  | script _ => Json

/-- One indivisible step outside a program. -/
inductive Request where
  | store (r : StoreRequest)
  | connector (target : Target) (r : ConnectorRequest)
  | cache (r : CacheRequest)
  | now
  | remark (record : LogRecord)

/-- What is answered. -/
@[reducible] def Request.Reply : Request → Type
  | store r => Except StoreError r.Reply
  | connector _ r => Except ConnectorError r.Reply
  | cache r => r.Reply
  | now => Instant
  | remark _ => Unit

/-- A request and what was answered. -/
structure Exchange where
  request : Request
  reply : request.Reply

/-! ### Programs -/

/-- A result, or a request and how to go on with any answer. -/
inductive Program (α : Type) where
  | done (result : α)
  | ask (request : Request) (next : request.Reply → Program α)

namespace Program

variable {α β γ : Type}

/-- One program after another. -/
def bind : Program α → (α → Program β) → Program β
  | done a, f => f a
  | ask r next, f => ask r fun reply => (next reply).bind f

instance : Monad Program where
  pure := done
  bind := bind

/-- The program that asks one thing. -/
def perform (r : Request) : Program r.Reply := ask r done

/-- The program that makes a remark. -/
def remark (level : LogLevel) (text : String) : Program Unit := perform (.remark ⟨level, text⟩)

@[simp] theorem bind_done (p : Program α) : p.bind done = p := by
  induction p with
  | done _ => rfl
  | ask r next ih => simp only [bind, ih]

@[simp] theorem bind_assoc (p : Program α) (f : α → Program β) (g : β → Program γ) :
    (p.bind f).bind g = p.bind fun a => (f a).bind g := by
  induction p with
  | done _ => rfl
  | ask r next ih => simp only [bind, ih]

instance : LawfulMonad Program := LawfulMonad.mk'
  Program
  (fun p => bind_done p)
  (fun _ _ => rfl)
  (fun p f g => bind_assoc p f g)

/-- Carries a program out. -/
def interpret {m : Type → Type} [Monad m] (answer : (r : Request) → m r.Reply) : Program α → m α
  | done a => pure a
  | ask r next => answer r >>= fun reply => (next reply).interpret answer

theorem interpret_bind {m : Type → Type} [Monad m] [LawfulMonad m]
    (answer : (r : Request) → m r.Reply) (p : Program α) (f : α → Program β) :
    (p >>= f).interpret answer = p.interpret answer >>= fun a => (f a).interpret answer := by
  induction p with
  | done a => simp [interpret, Bind.bind, bind]
  | ask r next ih =>
    show (answer r >>= fun reply => ((next reply).bind f).interpret answer) =
      (answer r >>= fun reply => (next reply).interpret answer) >>= _
    rw [LawfulMonad.bind_assoc]
    exact congrArg _ (funext fun reply => ih reply)

/-! ### Exchanges -/

/-- What is left of a program after exchanges. -/
inductive Reaches : Program α → List Exchange → Program α → Prop where
  | here (p : Program α) : Reaches p [] p
  | step {r : Request} {next : r.Reply → Program α} {reply : r.Reply} {trace : List Exchange}
      {q : Program α} (h : Reaches (next reply) trace q) :
      Reaches (ask r next) (⟨r, reply⟩ :: trace) q

theorem Reaches.append {p q s : Program α} {trace rest : List Exchange} (h : Reaches p trace q)
    (h' : Reaches q rest s) : Reaches p (trace ++ rest) s := by
  induction h with
  | here => exact h'
  | step _ ih => exact .step (ih h')

theorem Reaches.bind {p q : Program α} {trace : List Exchange} (h : Reaches p trace q)
    (f : α → Program β) : Reaches (p >>= f) trace (q >>= f) := by
  induction h with
  | here => exact .here _
  | step _ ih => exact .step ih

theorem reaches_bind_done_iff {p : Program α} {f : α → Program β} {trace : List Exchange} {b : β} :
    Reaches (p >>= f) trace (done b) ↔
      ∃ first rest a, trace = first ++ rest ∧ Reaches p first (done a) ∧
        Reaches (f a) rest (done b) := by
  constructor
  · intro h
    induction p generalizing trace with
    | done a => exact ⟨[], trace, a, rfl, .here _, h⟩
    | ask r next ih =>
      cases h with
      | step h =>
        obtain ⟨first, rest, a, rfl, hp, hf⟩ := ih _ h
        exact ⟨_ :: first, rest, a, rfl, .step hp, hf⟩
  · rintro ⟨first, rest, a, rfl, hp, hf⟩
    exact (hp.bind f).append hf

theorem Reaches.eq_of_done {p : Program α} {trace : List Exchange} {a b : α}
    (h : Reaches p trace (done a)) (h' : Reaches p trace (done b)) : a = b := by
  induction p generalizing trace with
  | done _ => cases h; cases h'; rfl
  | ask r next ih =>
    cases h with
    | step h =>
      cases h' with
      | step h' => exact ih _ h h'

end Program

/-! ### Actions -/

/-- A program that may end with an error. -/
abbrev Action := ExceptT ProvisioningError Program

namespace Action

/-- Asks the repository; a failure ends the action. -/
def store (r : StoreRequest) : Action r.Reply :=
  ExceptT.mk do return (← Program.perform (.store r)).mapError .ofStore

/-- Calls a connector; a failure ends the action. -/
def connector (target : Target) (r : ConnectorRequest) : Action r.Reply :=
  ExceptT.mk do return (← Program.perform (.connector target r)).mapError .ofConnector

/-- Asks the cache. -/
def cache (r : CacheRequest) : Program r.Reply := Program.perform (.cache r)

/-- Goes on with a value, or ends with an error. -/
def ofExcept {α : Type} (x : Except ProvisioningError α) : Action α := ExceptT.mk (pure x)

end Action

/-! ### Callers -/

/-- On whose behalf an operation runs. -/
structure Caller where
  /-- Identifies the request in remarks. -/
  request : String
  task : Option String := none
deriving DecidableEq, Repr, Inhabited

/-- A remark that tells the request. -/
def Caller.remark (c : Caller) (level : LogLevel) (text : String) : Program Unit :=
  Program.remark level s!"{text} (request: '{c.request}')"

end Reconciler
