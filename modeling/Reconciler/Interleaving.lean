/-
Operations under way side by side in one world.

An operation starts, asks one request at a time, and finishes; between any two requests of one, the
others may ask theirs.  Time passes meanwhile, connectors may answer anything, and the repository
may fail in given ways instead of answering.

* `World.MayAnswer`: what may be answered to a request;
* `Event`: what happens, in the order in which it can be observed;
* `Interleaving.Step`, `Interleaving.Run`: one event, and a history of events.

Main statements:
* `run_append_iff`: a history can be cut anywhere;
* `Run.reaches`: what an operation was answered leads its program to where it is now;
* `run_alone`: an operation that nothing interrupts finishes with what its program gives.

Design notes:
* A request takes effect at one moment, and whatever happens while it is being answered happens
  before or after that moment.
-/
import Reconciler.Operation
import Reconciler.World

namespace Reconciler

/-! ### Answers -/

/-- How the repository may fail at a request, whatever it holds. -/
abbrev Outages := StoreRequest → StoreError → Prop

/-- What may be answered: what the world answers with some connectors, or a failure of the
repository, which leaves the world as it is. -/
inductive World.MayAnswer (outages : Outages) (w : World) : (r : Request) → r.Reply → World → Prop
  | answered (connectors : Connectors) (r : Request) :
      MayAnswer outages w r (w.answer connectors r).1 (w.answer connectors r).2
  | outage {r : StoreRequest} {e : StoreError} (h : outages r e) :
      MayAnswer outages w (.store r) (.error e) w

/-! ### Events -/

/-- What happens; operations are told apart by numbers. -/
inductive Event where
  | started (id : Nat) (caller : Caller) (operation : Operation)
  | asked (id : Nat) (exchange : Exchange)
  | finished (id : Nat) (operation : Operation) (outcome : operation.Outcome)
  | clockSet (now : Instant)

namespace Event

/-- What an operation asked at an event. -/
def exchangeOf? (id : Nat) : Event → Option Exchange
  | asked other exchange => if other = id then some exchange else none
  | _ => none

/-- Whether an operation finishes at an event. -/
def Finishes (id : Nat) : Event → Prop
  | finished other _ _ => other = id
  | _ => False

/-- What an operation asked in a history. -/
def exchangesOf (id : Nat) (events : List Event) : List Exchange :=
  events.filterMap (exchangeOf? id)

end Event

/-! ### Histories -/

/-- An operation that has started, and what is left of its program. -/
structure UnderWay where
  operation : Operation
  rest : Program operation.Outcome

namespace Interleaving

/-- The world, and what is under way in it. -/
structure State where
  world : World
  underWay : Nat → Option UnderWay

/-- Something else under way under a number, in another world. -/
def State.move (s : State) (w : World) (id : Nat) (u : Option UnderWay) : State where
  world := w
  underWay other := if other = id then u else s.underWay other

@[simp] theorem underWay_move (s : State) (w : World) (id other : Nat) (u : Option UnderWay) :
    (s.move w id u).underWay other = if other = id then u else s.underWay other := rfl

@[simp] theorem world_move (s : State) (w : World) (id : Nat) (u : Option UnderWay) :
    (s.move w id u).world = w := rfl

theorem move_move (s : State) (w w' : World) (id : Nat) (u u' : Option UnderWay) :
    (s.move w id u).move w' id u' = s.move w' id u' := by
  simp only [State.move, State.mk.injEq, true_and]
  funext other
  split <;> rfl

variable {sv : Service} {outages : Outages}

/-- One event. -/
inductive Step (sv : Service) (outages : Outages) : State → Event → State → Prop where
  | start {s : State} {id : Nat} (c : Caller) (op : Operation) (h : s.underWay id = none) :
      Step sv outages s (.started id c op) (s.move s.world id (some ⟨op, (op.action sv c).run⟩))
  | ask {s : State} {id : Nat} {op : Operation} {r : Request} {next : r.Reply → Program op.Outcome}
      {reply : r.Reply} {w : World} (h : s.underWay id = some ⟨op, .ask r next⟩)
      (answered : s.world.MayAnswer outages r reply w) :
      Step sv outages s (.asked id ⟨r, reply⟩)
        (s.move w id (some ⟨op, next reply⟩))
  | finish {s : State} {id : Nat} {op : Operation} {outcome : op.Outcome}
      (h : s.underWay id = some ⟨op, .done outcome⟩) :
      Step sv outages s (.finished id op outcome) (s.move s.world id none)
  | clock (s : State) (now : Instant) :
      Step sv outages s (.clockSet now) { s with world := { s.world with clock := now } }

/-- A history of events. -/
inductive Run (sv : Service) (outages : Outages) : State → List Event → State → Prop where
  | nil (s : State) : Run sv outages s [] s
  | cons {s t u : State} {e : Event} {events : List Event} (step : Step sv outages s e t)
      (rest : Run sv outages t events u) : Run sv outages s (e :: events) u

theorem run_append_iff {s u : State} {events later : List Event} :
    Run sv outages s (events ++ later) u ↔
      ∃ t, Run sv outages s events t ∧ Run sv outages t later u := by
  constructor
  · intro h
    induction events generalizing s with
    | nil => exact ⟨s, .nil s, h⟩
    | cons e events ih =>
      cases h with
      | cons step rest =>
        obtain ⟨t, h, h'⟩ := ih rest
        exact ⟨t, .cons step h, h'⟩
  · rintro ⟨t, h, h'⟩
    induction h with
    | nil => exact h'
    | cons step _ ih => exact .cons step (ih h')

/-- One event moves the program of an operation by what it was answered, if anything. -/
theorem Step.reaches {s t : State} {e : Event} (h : Step sv outages s e t) {id : Nat}
    {op : Operation} {p : Program op.Outcome} (hp : s.underWay id = some ⟨op, p⟩)
    (hn : ¬ e.Finishes id) :
    ∃ q, t.underWay id = some ⟨op, q⟩ ∧ p.Reaches (e.exchangeOf? id).toList q := by
  cases h with
  | @start other _ _ h =>
    have : id ≠ other := fun e => by rw [← e, hp] at h; cases h
    exact ⟨p, by simp [this, hp], .here p⟩
  | @ask other _ _ _ _ _ h _ =>
    by_cases ho : id = other
    · subst ho
      rw [hp] at h
      cases h
      refine ⟨_, if_pos rfl, ?_⟩
      simpa [Event.exchangeOf?] using Program.Reaches.step (.here _)
    · exact ⟨p, by simp [ho, hp], by simpa [Event.exchangeOf?, Ne.symm ho] using .here p⟩
  | @finish other _ _ h =>
    have : id ≠ other := fun e => hn e.symm
    exact ⟨p, by simp [this, hp], .here p⟩
  | clock => exact ⟨p, hp, .here p⟩

/-- What an operation was answered leads its program to where it is now. -/
theorem Run.reaches {s t : State} {events : List Event} (h : Run sv outages s events t) {id : Nat}
    {op : Operation} {p : Program op.Outcome} (hp : s.underWay id = some ⟨op, p⟩)
    (hn : ∀ e ∈ events, ¬ e.Finishes id) :
    ∃ q, t.underWay id = some ⟨op, q⟩ ∧ p.Reaches (Event.exchangesOf id events) q := by
  induction h generalizing p with
  | nil => exact ⟨p, hp, .here p⟩
  | @cons _ _ _ e events step _ ih =>
    obtain ⟨hn, hrest⟩ := List.forall_mem_cons.1 hn
    obtain ⟨q, hq, hpq⟩ := step.reaches hp hn
    obtain ⟨q', hq', hqq⟩ := ih hq hrest
    refine ⟨q', hq', ?_⟩
    have : Event.exchangesOf id (e :: events) =
        (e.exchangeOf? id).toList ++ Event.exchangesOf id events := by
      simp only [Event.exchangesOf, List.filterMap_cons]
      cases e.exchangeOf? id <;> rfl
    exact this ▸ hpq.append hqq

/-! ### Without interruption -/

variable (sv outages) in
/-- What is left of a program can be carried out without interruption. -/
theorem run_rest (connectors : Connectors) {id : Nat} {op : Operation}
    (p : Program op.Outcome) {s : State} (hp : s.underWay id = some ⟨op, p⟩) :
    Run sv outages s ((World.trace connectors p s.world).map (.asked id) ++
        [.finished id op (World.run connectors p s.world).1])
      (s.move (World.run connectors p s.world).2 id none) := by
  induction p generalizing s with
  | done outcome => exact .cons (.finish hp) (.nil _)
  | ask r next ih =>
    let answered := s.world.answer connectors r
    have hrest := ih answered.1 (s := s.move answered.2 id (some ⟨op, next answered.1⟩))
      (if_pos rfl)
    rw [move_move] at hrest
    exact .cons (.ask hp (.answered connectors r)) hrest

variable (sv outages) in
/-- An operation that nothing interrupts finishes with what its program gives. -/
theorem run_alone (connectors : Connectors) (c : Caller) (op : Operation) {id : Nat}
    {s : State} (h : s.underWay id = none) :
    Run sv outages s
      (.started id c op ::
        ((World.trace connectors (op.action sv c).run s.world).map (.asked id) ++
          [.finished id op (World.run connectors (op.action sv c).run s.world).1]))
      (s.move (World.run connectors (op.action sv c).run s.world).2 id none) := by
  let t := s.move s.world id (some ⟨op, (op.action sv c).run⟩)
  have hrest := run_rest sv outages connectors (op.action sv c).run (s := t) (if_pos rfl)
  rw [move_move] at hrest
  exact .cons (.start c op h) hrest

end Interleaving

end Reconciler
