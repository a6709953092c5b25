/-
Operations that are carried out one after another.

* `Contents`: what repository and cache hold, at whatever time;
* `Exchange.Leads`: an exchange may lead from some contents to others;
* `Program.Ensures`: a program that nothing interrupts asks only what is allowed, and what it comes
  to goes with the contents that it leaves;
* `Event.IsOf`, `Interleaving.Sequential`: no operation starts before the last one has finished.

Main statements:
* `Program.Ensures.bind`: a sequence ensures what its parts ensure one after the other;
* `Program.Ensures.of_still`: what changes nothing is answered from the same contents throughout;
* `Program.Ensures.of_run`: what runs without interruption does what it ensures;
* `Interleaving.ensured_of_run`: an operation that nothing interrupts does what its program ensures;
* `Interleaving.Sequential.keeps`: what every operation keeps is kept by all of them.

Design notes:
* The clock may be set while an operation is under way, so contents leave the time out.
* Connectors may answer anything at any time, and differently every time.
-/
import Reconciler.Proofs.History
import Reconciler.Proofs.Session

namespace Reconciler

/-! ### Contents -/

/-- What repository and cache hold. -/
structure Contents where
  store : Store
  cache : DefinitionCache

/-- What a world holds, at whatever time. -/
def World.contents (w : World) : Contents := ⟨w.store, w.cache⟩

/-- In some world that holds the first, an exchange is possible that leaves the second. -/
def Exchange.Leads (outages : Outages) (k : Contents) (x : Exchange) (k' : Contents) : Prop :=
  ∃ w w' : World, w.contents = k ∧ w.MayAnswer outages x.request x.reply w' ∧ w'.contents = k'

/-- The request changes nothing in the repository or in the cache. -/
def Request.Still : Request → Prop
  | .store (.add _) | .store (.modify _ _) | .store (.delete _) => False
  | .cache .ticket | .cache (.find _) => True
  | .cache _ => False
  | _ => True

theorem Request.Reads.still {r : Request} (h : r.Reads) : r.Still := by
  cases r with
  | store r =>
    cases r with
    | read _ => trivial
    | _ => exact h.elim
  | cache _ => exact h.elim
  | _ => trivial

namespace Exchange.Leads

variable {outages : Outages} {k k' : Contents}

theorem of_mayAnswer {w w' : World} {r : Request} {reply : r.Reply}
    (h : w.MayAnswer outages r reply w') : Leads outages w.contents ⟨r, reply⟩ w'.contents :=
  ⟨w, w', rfl, h, rfl⟩

/-- The repository answers, or fails and stays as it is. -/
theorem of_store {r : StoreRequest} {reply : Except StoreError r.Reply}
    (h : Leads outages k ⟨.store r, reply⟩ k') :
    (∃ fresh, reply = (k.store.answer fresh r).1 ∧ k' = ⟨(k.store.answer fresh r).2, k.cache⟩) ∨
      ∃ e, outages r e ∧ reply = .error e ∧ k' = k := by
  obtain ⟨w, w', rfl, hanswer, rfl⟩ := h
  cases hanswer with
  | answered => exact .inl ⟨_, rfl, rfl⟩
  | outage h => exact .inr ⟨_, h, rfl, rfl⟩

theorem of_cache {r : CacheRequest} {reply : r.Reply} (h : Leads outages k ⟨.cache r, reply⟩ k') :
    ∃ now, reply = (k.cache.answer now r).1 ∧ k' = ⟨k.store, (k.cache.answer now r).2⟩ := by
  obtain ⟨w, w', rfl, hanswer, rfl⟩ := h
  cases hanswer with
  | answered => exact ⟨w.clock, rfl, rfl⟩

/-- What was read is there. -/
theorem of_read {oid : String} {raw : Resource}
    (h : Leads outages k ⟨.store (.read oid), .ok raw⟩ k') : k.store.find? oid = some raw := by
  rcases h.of_store with ⟨fresh, hreply, -⟩ | ⟨e, -, hreply, -⟩
  · exact Store.find?_of_read hreply.symm
  · cases hreply

theorem of_still {x : Exchange} (h : Leads outages k x k') (hx : x.request.Still) : k' = k := by
  obtain ⟨r, reply⟩ := x
  obtain ⟨w, w', rfl, hanswer, rfl⟩ := h
  have hanswer : w.MayAnswer outages r reply w' := hanswer
  cases hanswer with
  | outage => rfl
  | answered connectors r =>
    cases r with
    | store r =>
      cases r with
      | add _ => exact hx.elim
      | modify _ _ => exact hx.elim
      | delete _ => exact hx.elim
      | _ => rfl
    | cache r =>
      cases r with
      | ticket => rfl
      | find _ => rfl
      | _ => exact hx.elim
    | _ => rfl

end Exchange.Leads

/-! ### What a program ensures -/

namespace Program

variable {α β : Type} {steps steps' : Contents → Exchange → Contents → Prop}
variable {asks asks' : Request → Prop} {k : Contents}

/-- If every exchange is a possible step and nothing else happens, a program asks only what is
allowed, and gives what goes with the contents that it leaves. -/
def Ensures (steps : Contents → Exchange → Contents → Prop) (asks : Request → Prop)
    (gives : α → Contents → Prop) : Program α → Contents → Prop
  | done a, k => gives a k
  | ask r next, k =>
    asks r ∧ ∀ reply k', steps k ⟨r, reply⟩ k' → (next reply).Ensures steps asks gives k'

theorem Ensures.mono {gives gives' : α → Contents → Prop} {p : Program α}
    (h : p.Ensures steps asks gives k) (hsteps : ∀ k x k', steps' k x k' → steps k x k')
    (hasks : ∀ r, asks r → asks' r) (hgives : ∀ a k, gives a k → gives' a k) :
    p.Ensures steps' asks' gives' k := by
  induction p generalizing k with
  | done a => exact hgives a k h
  | ask r next ih =>
    exact ⟨hasks r h.1, fun reply k' hstep => ih reply (h.2 reply k' (hsteps _ _ _ hstep))⟩

theorem Ensures.imp {gives gives' : α → Contents → Prop} {p : Program α}
    (h : p.Ensures steps asks gives k) (hgives : ∀ a k, gives a k → gives' a k) :
    p.Ensures steps asks gives' k :=
  h.mono (fun _ _ _ => id) (fun _ => id) hgives

theorem Ensures.bind {gives : β → Contents → Prop} {middle : α → Contents → Prop} {p : Program α}
    {f : α → Program β} (hp : p.Ensures steps asks middle k)
    (hf : ∀ a k', middle a k' → (f a).Ensures steps asks gives k') :
    (p >>= f).Ensures steps asks gives k := by
  induction p generalizing k with
  | done a => exact hf a k hp
  | ask r next ih => exact ⟨hp.1, fun reply k' hstep => ih reply (hp.2 reply k' hstep)⟩

/-- An action goes on if its first part does not fail. -/
theorem Ensures.action_bind {gives : Except ProvisioningError β → Contents → Prop}
    {middle : Except ProvisioningError α → Contents → Prop} {x : Action α} {f : α → Action β}
    (hx : x.run.Ensures steps asks middle k)
    (hok : ∀ a k', middle (.ok a) k' → (f a).run.Ensures steps asks gives k')
    (herror : ∀ e k', middle (.error e) k' → gives (.error e) k') :
    (x >>= f).run.Ensures steps asks gives k := by
  rw [ExceptT.run_bind]
  refine Ensures.bind hx fun r k' h => ?_
  cases r with
  | ok a => exact hok a k' h
  | error e => exact herror e k' h

theorem Ensures.lift_bind {gives : Except ProvisioningError β → Contents → Prop}
    {middle : α → Contents → Prop} {p : Program α} {f : α → Action β}
    (hp : p.Ensures steps asks middle k)
    (hf : ∀ a k', middle a k' → (f a).run.Ensures steps asks gives k') :
    (liftM p >>= f).run.Ensures steps asks gives k := by
  have hlift : (liftM p : Action α).run.Ensures steps asks
      (fun r k' => ∃ a, r = .ok a ∧ middle a k') k := hp.bind fun a k' h => ⟨a, rfl, h⟩
  refine Ensures.action_bind hlift (fun a k' h => ?_) fun e k' h => ?_
  · obtain ⟨b, he, h⟩ := h
    cases he
    exact hf a k' h
  · obtain ⟨b, he, -⟩ := h
    cases he

/-- What holds of the contents, whatever is exchanged, holds in the end. -/
theorem Ensures.of_asks {allowed : Request → Prop} {holds : Contents → Prop} {p : Program α}
    (hp : p.Asks allowed) (hasks : ∀ r, allowed r → asks r)
    (hkept : ∀ k x k', allowed x.request → steps k x k' → holds k → holds k') (hk : holds k) :
    p.Ensures steps asks (fun _ => holds) k := by
  induction p generalizing k with
  | done a => exact hk
  | ask r next ih =>
    exact ⟨hasks r hp.1, fun reply k' hstep => ih reply (hp.2 reply) (hkept k _ k' hp.1 hstep hk)⟩

/-- All that a program was answered which changes nothing was answered from the same contents. -/
theorem Ensures.of_still {outages : Outages} {gives : α → Contents → Prop} {p : Program α}
    (hp : p.Asks asks) (hstill : ∀ r, asks r → r.Still)
    (hgives : ∀ trace a, p.Reaches trace (done a) → (∀ x ∈ trace, x.Leads outages k k) →
      gives a k) : p.Ensures (Exchange.Leads outages) asks gives k := by
  induction p with
  | done a => exact hgives [] a (.here _) (List.forall_mem_nil _)
  | ask r next ih =>
    refine ⟨hp.1, fun reply k' hstep => ?_⟩
    obtain rfl := hstep.of_still (hstill r hp.1)
    refine ih reply (hp.2 reply) fun trace a h hleads => ?_
    exact hgives _ a (.step h) (List.forall_mem_cons.2 ⟨hstep, hleads⟩)

/-- A program that runs without interruption does what it ensures. -/
theorem Ensures.of_run {outages : Outages} {gives : α → Contents → Prop} {p : Program α} {w : World}
    (h : p.Ensures (Exchange.Leads outages) asks gives w.contents) (connectors : Connectors) :
    gives (World.run connectors p w).1 (World.run connectors p w).2.contents ∧
      ∀ x ∈ World.trace connectors p w, asks x.request := by
  induction p generalizing w with
  | done a => exact ⟨h, List.forall_mem_nil _⟩
  | ask r next ih =>
    obtain ⟨hask, hnext⟩ := h
    obtain ⟨hgives, hasks⟩ :=
      ih _ (hnext _ _ (.of_mayAnswer (.answered connectors r)))
    exact ⟨hgives, List.forall_mem_cons.2 ⟨hask, hasks⟩⟩

end Program

/-! ### Events of one operation -/

/-- The event is something that this operation asks; the clock may be set meanwhile. -/
def Event.IsOf (id : Nat) : Event → Prop
  | asked other _ => other = id
  | clockSet _ => True
  | _ => False

theorem Event.isOf_of_mem_map (id : Nat) (trace : List Exchange) :
    ∀ e ∈ trace.map (.asked id), Event.IsOf id e := by
  intro e he
  obtain ⟨x, -, rfl⟩ := List.mem_map.1 he
  exact rfl

namespace Interleaving

open Program

/-- Operations start and finish one after another. -/
inductive Sequential : List Event → Prop where
  | nil : Sequential []
  | clockSet (now : Instant) {rest : List Event} (hrest : Sequential rest) :
      Sequential (.clockSet now :: rest)
  | operation {id : Nat} {c : Caller} {op : Operation} {outcome : op.Outcome}
      {during rest : List Event} (hduring : ∀ e ∈ during, e.IsOf id) (hrest : Sequential rest) :
      Sequential (.started id c op :: (during ++ .finished id op outcome :: rest))

variable {sv : Service} {outages : Outages} {s t : State} {events during : List Event}
variable {id : Nat} {c : Caller} {op : Operation} {outcome : op.Outcome}
variable {steps : Contents → Exchange → Contents → Prop} {asks : Request → Prop}

/-- What is left of a program ensures what the whole ensured before. -/
theorem Run.ensures {gives : op.Outcome → Contents → Prop} {p : Program op.Outcome}
    (h : Run sv outages s events t) (hof : ∀ e ∈ events, e.IsOf id)
    (hp : s.underWay id = some ⟨op, p⟩) (hens : p.Ensures steps asks gives s.world.contents)
    (hsteps : ∀ x, .asked id x ∈ events → ∀ k k', x.Leads outages k k' → steps k x k') :
    (∃ q, t.underWay id = some ⟨op, q⟩ ∧ q.Ensures steps asks gives t.world.contents) ∧
      ∀ x, .asked id x ∈ events → asks x.request := by
  -- Induction on the run; what is left of the program ensures the same in the contents reached.
  induction h generalizing p with
  | nil => exact ⟨⟨p, hp, hens⟩, fun x hx => by cases hx⟩
  | @cons s m t e events step _ ih =>
    obtain ⟨he, hothers⟩ := List.forall_mem_cons.1 hof
    have hlater := fun x hx => hsteps x (List.mem_cons_of_mem e hx)
    cases step with
    | start => exact he.elim
    | finish => exact he.elim
    | clock now =>
      obtain ⟨hrest, hasks⟩ := ih hothers hp hens hlater
      refine ⟨hrest, fun x hx => hasks x ?_⟩
      simpa using hx
    | @ask other op' r next reply w hunder answered =>
      obtain rfl : other = id := he
      rw [hp] at hunder
      cases hunder
      obtain ⟨hask, hnext⟩ := hens
      have hleads := Exchange.Leads.of_mayAnswer answered
      have hstep := hsteps ⟨r, reply⟩ List.mem_cons_self _ _ hleads
      obtain ⟨hrest, hasks⟩ := ih hothers (if_pos rfl) (hnext reply _ hstep) hlater
      refine ⟨hrest, fun x hx => ?_⟩
      rcases List.mem_cons.1 hx with hx | hx
      · cases hx
        exact hask
      · exact hasks x hx

/-- An operation that nothing interrupts does what its program ensures. -/
theorem ensured_of_run {gives : op.Outcome → Contents → Prop}
    (h : Run sv outages s (.started id c op :: (during ++ [.finished id op outcome])) t)
    (hof : ∀ e ∈ during, e.IsOf id)
    (hens : (op.action sv c).run.Ensures steps asks gives s.world.contents)
    (hsteps : ∀ x, .asked id x ∈ during → ∀ k k', x.Leads outages k k' → steps k x k') :
    gives outcome t.world.contents ∧ ∀ x, .asked id x ∈ during → asks x.request := by
  cases h with
  | cons start rest =>
    cases start with
    | start _ _ hidle =>
      obtain ⟨m, hduring, hlast⟩ := run_concat_iff.1 rest
      obtain ⟨⟨q, hq, hgives⟩, hasks⟩ := hduring.ensures hof (if_pos rfl) hens hsteps
      cases hlast with
      | finish hunder =>
        rw [hq] at hunder
        cases hunder
        exact ⟨hgives, hasks⟩

/-- What every operation keeps is kept by one after another. -/
theorem Sequential.keeps {holds : Contents → Prop} (hseq : Sequential events)
    (h : Run sv outages s events t)
    (hops : ∀ id c op, .started id c op ∈ events → ∀ k, holds k →
      (op.action sv c).run.Ensures steps (fun _ => True) (fun _ => holds) k)
    (hsteps : ∀ id x, .asked id x ∈ events → ∀ k k', x.Leads outages k k' → steps k x k')
    (hs : holds s.world.contents) : holds t.world.contents := by
  induction hseq generalizing s with
  | nil =>
    cases h
    exact hs
  | clockSet now hrest ih =>
    cases h with
    | cons step rest =>
      cases step
      exact ih rest (fun id c op hop => hops id c op (List.mem_cons_of_mem _ hop))
        (fun id x hx => hsteps id x (List.mem_cons_of_mem _ hx)) hs
  | @operation id c op outcome during rest hduring hrest ih =>
    -- The run is cut where the operation finishes: up to there, nothing interrupts it.
    have hsplit : .started id c op :: (during ++ .finished id op outcome :: rest) =
        (.started id c op :: (during ++ [.finished id op outcome])) ++ rest := by simp
    rw [hsplit] at h hops hsteps
    obtain ⟨m, hfirst, hlater⟩ := run_append_iff.1 h
    have hkept := ensured_of_run hfirst hduring
      (hops id c op (List.mem_append_left _ List.mem_cons_self) _ hs)
      (fun x hx => hsteps id x (by simp [hx]))
    exact ih hlater (fun id c op hop => hops id c op (List.mem_append_right _ hop))
      (fun id x hx => hsteps id x (List.mem_append_right _ hx)) hkept.1

end Interleaving

end Reconciler
