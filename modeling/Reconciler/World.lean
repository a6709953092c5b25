/-
The surroundings of programs: repository, cache and clock, and how they answer requests.

* `World.answer`: the answer to a request and the world afterwards;
* `World.run`: runs a program that nothing interrupts;
* `World.trace`: what such a program asks, and what it is answered.

Design notes:
* How connectors answer is no part of a world; it is given by a function.
* Fresh OIDs are numbered, and written in the usual form with five groups.
-/
import Reconciler.Program

namespace Reconciler

/-- How connectors answer. -/
abbrev Connectors := Target → (r : ConnectorRequest) → Except ConnectorError r.Reply

/-- Repository, cache and clock. -/
structure World where
  store : Store := .empty
  cache : DefinitionCache := {}
  clock : Instant := .epoch
  /-- The number that an OID takes if one is made up next. -/
  serial : Nat := 0
deriving Inhabited

namespace World

/-- The made-up OID with a number. -/
def freshOid (n : Nat) : String := "00000000-0000-4000-8000-" ++ Instant.padded 12 n

/-- The answer to a request, and the world afterwards. -/
def answer (connectors : Connectors) (w : World) : (r : Request) → r.Reply × World
  | .store r =>
    let (reply, store) := w.store.answer (freshOid w.serial) r
    (reply, { w with store := store, serial := w.serial + 1 })
  | .connector target r => (connectors target r, w)
  | .cache r =>
    let (reply, cache) := w.cache.answer w.clock r
    (reply, { w with cache := cache })
  | .now => (w.clock, w)
  | .remark _ => ((), w)

/-- Runs a program without anything happening in between. -/
def run {α : Type} (connectors : Connectors) (p : Program α) : StateM World α :=
  p.interpret fun r w => w.answer connectors r

@[simp] theorem run_done {α : Type} (connectors : Connectors) (a : α) (w : World) :
    run connectors (.done a) w = (a, w) := rfl

@[simp] theorem run_ask {α : Type} (connectors : Connectors) (r : Request)
    (next : r.Reply → Program α) (w : World) :
    run connectors (.ask r next) w =
      run connectors (next (w.answer connectors r).1) (w.answer connectors r).2 := rfl

/-- What a program that nothing interrupts asks in a world, and what it is answered. -/
def trace {α : Type} (connectors : Connectors) : Program α → World → List Exchange
  | .done _, _ => []
  | .ask r next, w =>
    let answered := w.answer connectors r
    ⟨r, answered.1⟩ :: trace connectors (next answered.1) answered.2

end World

end Reconciler
