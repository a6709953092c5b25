/-
Programs that agree, though one of them uses a cache.

* `Related`: a session with faithful entries in the cache, and one that went the same way;
* `Agree`: two programs give the same in two sessions, and leave them related.

Main statements:
* `Agree.bind`, `Agree.action_bind`: sequences agree if their parts do;
* `Agree.left_action`, `Agree.right_action`: what goes unnoticed may happen on one side only;
* `agree_of_reading`, `agree_store`: requests on which both sides agree.

Design notes:
* Programs need to agree only as long as writes can be counted by versions.  Since writes are never
  undone, what holds of the writes in the end holds of those on the way.
-/
import Reconciler.Proofs.Cache.Freshness

namespace Reconciler

/-- Steps at the repository that anyone may take: nothing is added without an OID, and to delete is
left to the service. -/
def StoreRequest.Ordinary : StoreRequest → Prop
  | .add r => r.oid.isEmpty = false
  | .delete _ => False
  | _ => True

namespace Session

variable {env : Surroundings} {mode : Completion.Mode} {σ σ' τ τ' : Session} {α β : Type}

/-- One session has faithful entries in its cache, and the other went the same way. -/
structure Related (env : Surroundings) (mode : Completion.Mode) (σ τ : Session) : Prop where
  store_eq : σ.store = τ.store
  readings_eq : σ.readings = τ.readings
  writes_eq : σ.writes = τ.writes
  sound : Sound env mode σ

theorem Related.left (h : Related env mode σ τ) (hquiet : Quiet σ σ') : Related env mode σ' τ where
  store_eq := hquiet.store_eq.trans h.store_eq
  readings_eq := hquiet.readings_eq.trans h.readings_eq
  writes_eq := hquiet.writes_eq.trans h.writes_eq
  sound := h.sound.quiet hquiet

theorem Related.right (h : Related env mode σ τ) (hquiet : Quiet τ τ') :
    Related env mode σ τ' where
  store_eq := h.store_eq.trans hquiet.store_eq.symm
  readings_eq := h.readings_eq.trans hquiet.readings_eq.symm
  writes_eq := h.writes_eq.trans hquiet.writes_eq.symm
  sound := h.sound

/-- Two programs give the same and leave related sessions, unless there are too many writes. -/
def Agree (env : Surroundings) (mode : Completion.Mode) (p q : Program α) (σ τ : Session) : Prop :=
  (run env q τ).2.writes < UInt64.size →
    (run env p σ).1 = (run env q τ).1 ∧ Related env mode (run env p σ).2 (run env q τ).2

/-! ### Sequences -/

theorem Agree.pure (h : Related env mode σ τ) (a : α) : Agree env mode (pure a) (pure a) σ τ :=
  fun _ => ⟨rfl, h⟩

theorem Agree.bind {p q : Program α} {f g : α → Program β} (h : Agree env mode p q σ τ)
    (hrest : Related env mode (run env p σ).2 (run env q τ).2 →
      Agree env mode (f (run env q τ).1) (g (run env q τ).1) (run env p σ).2 (run env q τ).2) :
    Agree env mode (p >>= f) (q >>= g) σ τ := by
  intro hwrites
  rw [run_bind] at hwrites
  obtain ⟨hvalue, hrelated⟩ := h (Nat.lt_of_le_of_lt (writes_le_run _ _) hwrites)
  rw [run_bind, run_bind, hvalue]
  exact hrest hrelated hwrites

theorem Agree.lift_bind {p q : Program α} {f g : α → Action β} (h : Agree env mode p q σ τ)
    (hrest : Related env mode (run env p σ).2 (run env q τ).2 →
      Agree env mode (f (run env q τ).1).run (g (run env q τ).1).run (run env p σ).2
        (run env q τ).2) :
    Agree env mode (liftM p >>= f).run (liftM q >>= g).run σ τ := by
  show Agree env mode (ExceptT.lift p >>= f).run (ExceptT.lift q >>= g).run σ τ
  rw [ExceptT.run_bind_lift, ExceptT.run_bind_lift]
  exact h.bind hrest

/-- After a failure nothing more happens on either side. -/
theorem Agree.action_bind {x y : Action α} {f g : α → Action β}
    (h : Agree env mode x.run y.run σ τ)
    (hrest : Related env mode (run env x.run σ).2 (run env y.run τ).2 →
      ∀ a, (run env y.run τ).1 = .ok a →
        Agree env mode (f a).run (g a).run (run env x.run σ).2 (run env y.run τ).2) :
    Agree env mode (x >>= f).run (y >>= g).run σ τ := by
  rw [ExceptT.run_bind, ExceptT.run_bind]
  refine h.bind fun hrelated => ?_
  cases hvalue : (run env y.run τ).1 with
  | ok a => exact hrest hrelated a hvalue
  | error e => exact .pure hrelated _

/-- What one side does by itself. -/
theorem Agree.left_action {x : Action α} {f : α → Action β} {q : Program (Except _ β)} {a : α}
    (hrun : run env x.run σ = (.ok a, σ')) (h : Agree env mode (f a).run q σ' τ) :
    Agree env mode (x >>= f).run q σ τ := by
  intro hwrites
  rw [run_action_bind, hrun]
  exact h hwrites

theorem Agree.right_action {p : Program (Except _ β)} {y : Action α} {g : α → Action β} {a : α}
    (hrun : run env y.run τ = (.ok a, τ')) (h : Agree env mode p (g a).run σ τ') :
    Agree env mode p (y >>= g).run σ τ := by
  intro hwrites
  rw [run_action_bind, hrun] at hwrites ⊢
  exact h hwrites

/-- Both sides come to an end without anything that could be noticed. -/
theorem Agree.of_run {p q : Program α} {a : α} (hp : run env p σ = (a, σ'))
    (hq : run env q τ = (a, τ')) (h : Related env mode σ' τ') : Agree env mode p q σ τ := by
  intro _
  rw [hp, hq]
  exact ⟨rfl, h⟩

/-! ### Requests -/

/-- What only reads gives the same on both sides. -/
theorem agree_of_reading {p : Program α} (h : Related env mode σ τ)
    (hp : p.Asks Request.Reads) : Agree env mode p p σ τ := by
  intro _
  obtain ⟨hσ, hleft⟩ := run_of_reading env hp σ
  obtain ⟨hτ, hright⟩ := run_of_reading env hp τ
  refine ⟨?_, (h.left hleft).right hright⟩
  rw [hσ, hτ]
  exact peek_congr hp h.store_eq

theorem agree_now (h : Related env mode σ τ) :
    Agree env mode (Program.perform .now) (Program.perform .now) σ τ := fun _ =>
  ⟨congrArg env.clock h.readings_eq, h.store_eq, congrArg (· + 1) h.readings_eq, h.writes_eq,
    h.sound.bounded, h.sound.faithful⟩

/-- Which remarks are made does not matter. -/
theorem agree_remark (h : Related env mode σ τ) (c : Caller) (level : LogLevel)
    (text text' : String) :
    Agree env mode (c.remark level text) (c.remark level text') σ τ :=
  fun _ => ⟨rfl, h⟩

/-- The answer to a request is the same on both sides, and so is the repository afterwards. -/
theorem Related.answer_store (h : Related env mode σ τ) {r : StoreRequest}
    (hadd : ∀ x, r = .add x → x.oid.isEmpty = false) :
    (σ.answer env (.store r)).1 = (τ.answer env (.store r)).1 ∧
      (σ.answer env (.store r)).2.store = (τ.answer env (.store r)).2.store ∧
      (σ.answer env (.store r)).2.writes = (τ.answer env (.store r)).2.writes := by
  have hanswer : ∀ fresh fresh' : String, σ.store.answer fresh r = τ.store.answer fresh' r := by
    intro fresh fresh'
    rw [h.store_eq]
    cases r with
    | add x =>
      -- A made-up OID could tell how many requests there were.
      have hsame : τ.store.add fresh x = τ.store.add fresh' x := by
        unfold Store.add
        rw [hadd x rfl]
        rfl
      simp only [Store.answer, hsame]
    | _ => rfl
  have hnow := hanswer (World.freshOid σ.world.serial) (World.freshOid τ.world.serial)
  refine ⟨congrArg (fun answered => answered.1) hnow,
    congrArg (fun answered => answered.2) hnow, ?_⟩
  show σ.writes + Request.writes (.store r) (σ.store.answer _ r).1 =
    τ.writes + Request.writes (.store r) (τ.store.answer _ r).1
  rw [h.writes_eq, hnow]

theorem agree_store (h : Related env mode σ τ) {r : StoreRequest} (hr : r.Ordinary) :
    Agree env mode (Action.store r).run (Action.store r).run σ τ := by
  have hadd : ∀ x, r = .add x → x.oid.isEmpty = false := by
    rintro x rfl
    exact hr
  have hdelete : ∀ oid, r ≠ .delete oid := by
    rintro oid rfl
    exact hr
  intro hwrites
  obtain ⟨hvalue, hstore, hcount⟩ := h.answer_store hadd
  have hwrites : (τ.answer env (.store r)).2.writes < UInt64.size := hwrites
  have hsound : Sound env mode (σ.answer env (.store r)).2 :=
    h.sound.write hdelete (hcount ▸ hwrites)
  exact ⟨congrArg (Except.mapError ProvisioningError.ofStore) hvalue, hstore, h.readings_eq, hcount,
    hsound⟩

end Session

end Reconciler
