/-
Histories looked at from their end, and what they show of the repository.

* `Exchange.shown`: the resources that the repository showed;
* `Exchange.Sees`: the repository told the version of a resource;
* `Event.write?`: the resource that an event wrote, and its version since;
* `Interleaving.play`: carries out a schedule.

Main statements:
* `Interleaving.Run.exists_started`: what is under way was started once, and what it was answered
  since then led its program to where it is;
* `Interleaving.Step.version_of_sees`: what the repository told was so at that moment;
* `Interleaving.Step.store_cases`: what an event can do to the repository;
* `Interleaving.run_play`: a schedule that is carried out is a history.

Design notes:
* Numbers of operations may be used again once an operation has finished.
* A schedule skips what is not possible, so that it can always be carried out.
-/
import Mathlib.Data.List.Induction
import Reconciler.Interleaving

namespace Reconciler

/-! ### What the repository told -/

namespace Exchange

/-- The resources that the repository showed. -/
def shown : Exchange → List Resource
  | ⟨.store (.read _), .ok r⟩ => [r]
  | ⟨.store (.search _), .ok found⟩ => found
  | _ => []

/-- The repository told that a resource has a version. -/
def Sees (x : Exchange) (oid : String) (v : Version) : Prop :=
  (∃ r ∈ x.shown, r.oid = oid ∧ r.version = v) ∨ x = ⟨.store (.version oid), .ok v⟩

theorem sees_of_mem_shown {x : Exchange} {r : Resource} (h : r ∈ x.shown) :
    x.Sees r.oid r.version := .inl ⟨r, h, rfl, rfl⟩

end Exchange

namespace Event

/-- The resource that was added or modified, and the version that it has since. -/
def write? : Event → Option (String × Version)
  | asked _ ⟨.store (.add _), .ok oid⟩ => some (oid, .initial)
  | asked _ ⟨.store (.modify oid _), .ok v⟩ => some (oid, v)
  | _ => none

instance (id : Nat) : (e : Event) → Decidable (e.Finishes id)
  | finished other _ _ => inferInstanceAs (Decidable (other = id))
  | started _ _ _ => instDecidableFalse
  | asked _ _ => instDecidableFalse
  | clockSet _ => instDecidableFalse

variable {id : Nat} {x : Exchange} {events : List Event}

theorem exchangesOf_append (id : Nat) (events later : List Event) :
    exchangesOf id (events ++ later) = exchangesOf id events ++ exchangesOf id later :=
  List.filterMap_append ..

theorem exchangeOf?_eq_some_iff {e : Event} : e.exchangeOf? id = some x ↔ e = .asked id x := by
  constructor
  · intro h
    cases e with
    | asked other y =>
      rw [exchangeOf?] at h
      split at h
      · next he =>
        cases h
        rw [he]
      · cases h
    | _ => cases h
  · rintro rfl
    exact if_pos rfl

theorem mem_exchangesOf : x ∈ exchangesOf id events ↔ .asked id x ∈ events := by
  rw [exchangesOf, List.mem_filterMap]
  simp only [exchangeOf?_eq_some_iff, exists_eq_right]

/-- An exchange of an operation sits somewhere in the history. -/
theorem exists_of_exchangesOf_eq {before after : List Exchange}
    (h : exchangesOf id events = before ++ x :: after) :
    ∃ first second, events = first ++ .asked id x :: second ∧ exchangesOf id first = before ∧
      exchangesOf id second = after := by
  obtain ⟨first, rest, rfl, hfirst, hrest⟩ := List.filterMap_eq_append_iff.1 h
  obtain ⟨skipped, e, second, rfl, hskipped, he, hsecond⟩ := List.filterMap_eq_cons_iff.1 hrest
  refine ⟨first ++ skipped, second, ?_, ?_, hsecond⟩
  · rw [exchangeOf?_eq_some_iff.1 he, List.append_assoc]
  · rw [exchangesOf_append]
    have hnone : exchangesOf id skipped = [] := List.filterMap_eq_nil_iff.2 hskipped
    have hbefore : exchangesOf id first = before := hfirst
    rw [hnone, hbefore, List.append_nil]

end Event

namespace Interleaving

variable {sv : Service} {outages : Outages} {s t u v : State} {e : Event} {events : List Event}

/-! ### Histories from their end -/

theorem run_concat_iff :
    Run sv outages s (events ++ [e]) u ↔
      ∃ t, Run sv outages s events t ∧ Step sv outages t e u := by
  rw [run_append_iff]
  refine exists_congr fun t => and_congr_right fun _ => ?_
  constructor
  · intro h
    cases h with
    | cons step rest =>
      cases rest
      exact step
  · exact fun step => .cons step (.nil u)

/-- A history with one of its events. -/
theorem Run.exists_step {before after : List Event}
    (h : Run sv outages s (before ++ e :: after) v) :
    ∃ t u, Run sv outages s before t ∧ Step sv outages t e u ∧ Run sv outages u after v := by
  obtain ⟨t, hbefore, h⟩ := run_append_iff.1 h
  cases h with
  | cons step rest => exact ⟨t, _, hbefore, step, rest⟩

/-- One event starts an operation, or leads it on, or has nothing to do with it. -/
theorem Step.underWay_cases (h : Step sv outages s e t) {id : Nat} {op : Operation}
    {q : Program op.Outcome} (hq : t.underWay id = some ⟨op, q⟩) :
    (∃ c, e = .started id c op) ∨ (¬ e.Finishes id ∧ ∃ p, s.underWay id = some ⟨op, p⟩) := by
  cases h with
  | @start other c op' h =>
    rw [underWay_move] at hq
    split at hq
    · next he =>
      cases hq
      exact .inl ⟨c, he ▸ rfl⟩
    · exact .inr ⟨fun h => h, q, hq⟩
  | @ask other op' r next reply w h _ =>
    rw [underWay_move] at hq
    refine .inr ⟨fun h => h, ?_⟩
    split at hq
    · next he =>
      cases hq
      exact ⟨_, he ▸ h⟩
    · exact ⟨q, hq⟩
  | @finish other op' outcome h =>
    rw [underWay_move] at hq
    split at hq
    · cases hq
    · next he => exact .inr ⟨fun h => he h.symm, q, hq⟩
  | clock => exact .inr ⟨fun h => h, q, hq⟩

/-- What is under way was started, and is where the answers since then lead. -/
theorem Run.exists_started (h : Run sv outages s events t) (hidle : ∀ id, s.underWay id = none)
    {id : Nat} {op : Operation} {q : Program op.Outcome} (hq : t.underWay id = some ⟨op, q⟩) :
    ∃ before c since, events = before ++ .started id c op :: since ∧
      (∀ e ∈ since, ¬ e.Finishes id) ∧
      (op.action sv c).run.Reaches (Event.exchangesOf id since) q := by
  -- Going back from the end, an event is the start, or finds the operation under way already.
  have hstarted : ∃ before c since, events = before ++ .started id c op :: since ∧
      ∀ e ∈ since, ¬ e.Finishes id := by
    induction events using List.reverseRecOn generalizing t q with
    | nil =>
      cases h
      rw [hidle] at hq
      cases hq
    | append_singleton events e ih =>
      obtain ⟨m, hrun, step⟩ := run_concat_iff.1 h
      rcases step.underWay_cases hq with ⟨c, rfl⟩ | ⟨hn, p, hp⟩
      · exact ⟨events, c, [], rfl, List.forall_mem_nil _⟩
      · obtain ⟨before, c, since, rfl, hsince⟩ := ih hrun hp
        refine ⟨before, c, since ++ [e], by simp, ?_⟩
        exact List.forall_mem_append.2 ⟨hsince, by simpa using hn⟩
  -- From the start, the answers lead the program on.
  obtain ⟨before, c, since, rfl, hsince⟩ := hstarted
  obtain ⟨m, n, -, step, hrun⟩ := h.exists_step
  have hn : n.underWay id = some ⟨op, (op.action sv c).run⟩ := by
    cases step
    exact if_pos rfl
  obtain ⟨q', hq', hreaches⟩ := hrun.reaches hn hsince
  rw [hq] at hq'
  cases hq'
  exact ⟨before, c, since, rfl, hsince, hreaches⟩

/-! ### The repository -/

/-- An event writes to the repository, or leaves it as it is. -/
theorem Step.store_cases (h : Step sv outages s e t) :
    (t.world.store = s.world.store ∧ ∀ id key, e ≠ .asked id ⟨.store (.delete key), .ok ()⟩) ∨
      (∃ id x key, ∃ fresh, e = .asked id ⟨.store (.add x), .ok key⟩ ∧
        s.world.store.add fresh x = .ok (key, t.world.store)) ∨
      (∃ id key changes v, e = .asked id ⟨.store (.modify key changes), .ok v⟩ ∧
        s.world.store.modify key changes = .ok (v, t.world.store)) ∨
      ∃ id key, e = .asked id ⟨.store (.delete key), .ok ()⟩ ∧
        s.world.store.delete key = .ok t.world.store := by
  cases h with
  | @ask id op r next reply w h answered =>
    cases answered with
    | outage h =>
      refine .inl ⟨rfl, fun id' key he => ?_⟩
      cases he
    | answered connectors r =>
      cases r with
      | store r =>
        simp only [World.answer, world_move]
        cases r with
        | add x =>
          simp only [Store.answer]
          cases hadd : s.world.store.add (World.freshOid s.world.serial) x with
          | error e =>
            refine .inl ⟨rfl, fun id' key he => ?_⟩
            cases he
          | ok added => exact .inr (.inl ⟨id, x, added.1, _, rfl, hadd⟩)
        | modify key changes =>
          simp only [Store.answer]
          cases hmodify : s.world.store.modify key changes with
          | error e =>
            refine .inl ⟨rfl, fun id' key he => ?_⟩
            cases he
          | ok modified =>
            exact .inr (.inr (.inl ⟨id, key, changes, modified.1, rfl, hmodify⟩))
        | delete key =>
          simp only [Store.answer]
          cases hdelete : s.world.store.delete key with
          | error e =>
            refine .inl ⟨rfl, fun id' key he => ?_⟩
            cases he
          | ok next => exact .inr (.inr (.inr ⟨id, key, rfl, hdelete⟩))
        | _ =>
          refine .inl ⟨rfl, fun id' key he => ?_⟩
          cases he
      | _ =>
        refine .inl ⟨rfl, fun id' key he => ?_⟩
        cases he
  | _ =>
    refine .inl ⟨rfl, fun id' key he => ?_⟩
    cases he

/-- An answer of the repository is up to what it holds. -/
theorem Step.answer_store {id : Nat} {r : StoreRequest} {reply : Except StoreError r.Reply}
    (h : Step sv outages s (.asked id ⟨.store r, reply⟩) t) :
    (∃ e, reply = .error e) ∨ ∃ fresh, (s.world.store.answer fresh r).1 = reply := by
  cases h with
  | ask h answered =>
    cases answered with
    | outage h => exact .inl ⟨_, rfl⟩
    | answered connectors r => exact .inr ⟨_, rfl⟩

/-- What was read was stored at that moment. -/
theorem Step.find?_of_read {id : Nat} {oid : String} {r : Resource}
    (h : Step sv outages s (.asked id ⟨.store (.read oid), .ok r⟩) t) :
    s.world.store.find? oid = some r := by
  rcases h.answer_store with ⟨e, he⟩ | ⟨fresh, hread⟩
  · cases he
  · exact Store.find?_of_read hread

/-- What the repository showed was stored at that moment. -/
theorem Step.find?_of_mem_shown {id : Nat} {x : Exchange}
    (h : Step sv outages s (.asked id x) t) {r : Resource} (hr : r ∈ x.shown) :
    s.world.store.find? r.oid = some r := by
  unfold Exchange.shown at hr
  split at hr
  · next oid found =>
    cases List.mem_singleton.1 hr
    have hfind : s.world.store.find? oid = some r := h.find?_of_read
    rw [Store.oid_of_find? hfind]
    exact hfind
  · next q found =>
    rcases h.answer_store with ⟨e, he⟩ | ⟨fresh, hsearch⟩
    · cases he
    · cases hsearch
      exact Store.find?_of_mem_search hr
  · cases hr

/-- What the repository told of a version was so at that moment. -/
theorem Step.version_of_sees {id : Nat} {x : Exchange} (h : Step sv outages s (.asked id x) t)
    {oid : String} {v : Version} (hx : x.Sees oid v) :
    (s.world.store.find? oid).map Resource.version = some v := by
  rcases hx with ⟨r, hr, rfl, rfl⟩ | rfl
  · rw [h.find?_of_mem_shown hr, Option.map_some]
  · rcases h.answer_store with ⟨e, he⟩ | ⟨fresh, hversion⟩
    · cases he
    · have hversion : s.world.store.version oid = .ok v := hversion
      rw [Store.version] at hversion
      cases hread : s.world.store.read oid with
      | error e =>
        rw [hread] at hversion
        cases hversion
      | ok r =>
        rw [hread] at hversion
        cases hversion
        rw [Store.find?_of_read hread, Option.map_some]

/-! ### Schedules -/

/-- One entry of a schedule: an operation is to start, or to go on to its next request or its
end. -/
inductive Move where
  | start (id : Nat) (c : Caller) (op : Operation)
  | go (id : Nat)

/-- Makes a move, if it is possible. -/
def State.make (sv : Service) (connectors : Connectors) (s : State) : Move → List Event × State
  | .start id c op =>
    match s.underWay id with
    | none => ([.started id c op], s.move s.world id (some ⟨op, (op.action sv c).run⟩))
    | some _ => ([], s)
  | .go id =>
    match s.underWay id with
    | none => ([], s)
    | some ⟨op, .done outcome⟩ => ([.finished id op outcome], s.move s.world id none)
    | some ⟨op, .ask r next⟩ =>
      let answered := s.world.answer connectors r
      ([.asked id ⟨r, answered.1⟩], s.move answered.2 id (some ⟨op, next answered.1⟩))

/-- Carries out a schedule. -/
def State.play (sv : Service) (connectors : Connectors) (s : State) :
    List Move → List Event × State
  | [] => ([], s)
  | move :: rest =>
    let made := s.make sv connectors move
    let later := made.2.play sv connectors rest
    (made.1 ++ later.1, later.2)

variable (sv outages) in
theorem run_make (connectors : Connectors) (s : State) (move : Move) :
    Run sv outages s (s.make sv connectors move).1 (s.make sv connectors move).2 := by
  unfold State.make
  split
  · split
    · next h => exact .cons (.start _ _ h) (.nil _)
    · exact .nil s
  · split
    · exact .nil s
    · next h => exact .cons (.finish h) (.nil _)
    · next h => exact .cons (.ask h (.answered connectors _)) (.nil _)

variable (sv outages) in
theorem run_play (connectors : Connectors) (s : State) (moves : List Move) :
    Run sv outages s (s.play sv connectors moves).1 (s.play sv connectors moves).2 := by
  induction moves generalizing s with
  | nil => exact .nil s
  | cons move rest ih => exact run_append_iff.2 ⟨_, run_make sv outages connectors s move, ih _⟩

/-- Only what is scheduled starts. -/
theorem start_mem_of_play {connectors : Connectors} {s : State} {moves : List Move} {id : Nat}
    {c : Caller} {op : Operation} (h : .started id c op ∈ (s.play sv connectors moves).1) :
    .start id c op ∈ moves := by
  induction moves generalizing s with
  | nil => cases h
  | cons move rest ih =>
    rcases List.mem_append.1 h with hmade | hlater
    · unfold State.make at hmade
      split at hmade <;> split at hmade <;> simp_all
    · exact List.mem_cons_of_mem move (ih hlater)

end Interleaving

end Reconciler
