/-
What a program does, told from what was exchanged.

* `Program.Yields`: a program comes to a result by the first of some exchanges;
* `Program.transcript`: what is exchanged if requests are answered in a given way;
* `Program.Meets`: if it is answered properly, a program asks and gives only what fits in with all
  that was exchanged before.

Main statements:
* `Program.yields_bind_iff`, `Program.Meets.bind`: both are told of a sequence part by part;
* `Program.Yields.unique`: exchanges leave no choice of the result, nor of where it is reached;
* `Program.Meets.of_reaches`: a program goes on to meet what it met from the start;
* `Program.Meets.of_run`: uninterrupted, it comes to what it meets.

Design notes:
* `Yields` takes exchanges from the front of a list, as a reader does with text, so that the parts
  of a sequence find their own exchanges.
* `Meets` is told all that was exchanged before the program started, so that parts of a sequence may
  refer to what earlier parts have learned.
-/
import Reconciler.Proofs.Session

namespace Reconciler.Program

variable {α β : Type}

/-! ### Results -/

/-- The program comes to a result by the first of these exchanges, and those after it are left. -/
def Yields : Program α → List Exchange → α → List Exchange → Prop
  | done b, trace, a, rest => b = a ∧ trace = rest
  | ask r next, trace, a, rest =>
    ∃ reply more, trace = ⟨r, reply⟩ :: more ∧ (next reply).Yields more a rest

theorem yields_bind_iff {p : Program α} {f : α → Program β} {trace rest : List Exchange} {b : β} :
    (p >>= f).Yields trace b rest ↔
      ∃ a more, p.Yields trace a more ∧ (f a).Yields more b rest := by
  induction p generalizing trace with
  | done a =>
    constructor
    · intro h
      exact ⟨a, trace, ⟨rfl, rfl⟩, h⟩
    · rintro ⟨a', more, ⟨rfl, rfl⟩, h⟩
      exact h
  | ask r next ih =>
    constructor
    · rintro ⟨reply, more, rfl, h⟩
      obtain ⟨a, later, hp, hf⟩ := (ih reply).1 h
      exact ⟨a, later, ⟨reply, more, rfl, hp⟩, hf⟩
    · rintro ⟨a, later, ⟨reply, more, rfl, hp⟩, hf⟩
      exact ⟨reply, more, rfl, (ih reply).2 ⟨a, later, hp, hf⟩⟩

/-- An action fails with its first part, or goes on after it. -/
theorem yields_action_bind_iff {x : Action α} {f : α → Action β} {trace rest : List Exchange}
    {result : Except ProvisioningError β} :
    (x >>= f).run.Yields trace result rest ↔
      (∃ e, x.run.Yields trace (.error e) rest ∧ result = .error e) ∨
        ∃ a more, x.run.Yields trace (.ok a) more ∧ (f a).run.Yields more result rest := by
  rw [ExceptT.run_bind, yields_bind_iff]
  constructor
  · rintro ⟨a | a, more, hx, hf⟩
    · obtain ⟨rfl, rfl⟩ := hf
      exact .inl ⟨a, hx, rfl⟩
    · exact .inr ⟨a, more, hx, hf⟩
  · rintro (⟨e, hx, rfl⟩ | ⟨a, more, hx, hf⟩)
    · exact ⟨.error e, rest, hx, rfl, rfl⟩
    · exact ⟨.ok a, more, hx, hf⟩

/-- What never fails is followed by what comes after it. -/
theorem yields_lift_bind_iff {p : Program α} {f : α → Action β} {trace rest : List Exchange}
    {result : Except ProvisioningError β} :
    (liftM p >>= f).run.Yields trace result rest ↔
      ∃ a more, p.Yields trace a more ∧ (f a).run.Yields more result rest := by
  have hlift : (liftM p : Action α).run = p >>= fun a => done (.ok a) := rfl
  have hrun : (liftM p >>= f).run = p >>= fun a => (f a).run := by
    rw [ExceptT.run_bind, hlift]
    exact bind_assoc p _ _
  rw [hrun, yields_bind_iff]

/-- A result and where it is reached are determined. -/
theorem Yields.unique {p : Program α} {trace rest rest' : List Exchange} {a b : α}
    (h : p.Yields trace a rest) (h' : p.Yields trace b rest') : a = b ∧ rest = rest' := by
  induction p generalizing trace with
  | done _ =>
    obtain ⟨rfl, rfl⟩ := h
    obtain ⟨rfl, rfl⟩ := h'
    exact ⟨rfl, rfl⟩
  | ask r next ih =>
    obtain ⟨reply, more, rfl, h⟩ := h
    obtain ⟨reply', more', he, h'⟩ := h'
    cases he
    exact ih reply h h'

/-- What is left was there before. -/
theorem Yields.suffix {p : Program α} {trace rest : List Exchange} {a : α}
    (h : p.Yields trace a rest) : rest <:+ trace := by
  induction p generalizing trace with
  | done b => exact h.2 ▸ List.suffix_refl rest
  | ask r next ih =>
    obtain ⟨reply, more, rfl, h⟩ := h
    exact (ih reply h).trans (List.suffix_cons _ _)

/-- What comes to a result with nothing left has been answered all the way. -/
theorem yields_nil_iff {p : Program α} {trace : List Exchange} {a : α} :
    p.Yields trace a [] ↔ p.Reaches trace (done a) := by
  induction p generalizing trace with
  | done b =>
    constructor
    · rintro ⟨rfl, rfl⟩
      exact .here _
    · intro h
      cases h
      exact ⟨rfl, rfl⟩
  | ask r next ih =>
    constructor
    · rintro ⟨reply, more, rfl, h⟩
      exact .step ((ih reply).1 h)
    · intro h
      cases h with
      | step h => exact ⟨_, _, rfl, (ih _).2 h⟩

/-! ### Transcripts -/

/-- What is exchanged if requests are answered like this, and the result. -/
def transcript (answer : (r : Request) → r.Reply) : Program α → List Exchange × α
  | done a => ([], a)
  | ask r next =>
    let later := (next (answer r)).transcript answer
    (⟨r, answer r⟩ :: later.1, later.2)

theorem reaches_transcript (answer : (r : Request) → r.Reply) (p : Program α) :
    p.Reaches (p.transcript answer).1 (done (p.transcript answer).2) := by
  induction p with
  | done a => exact .here _
  | ask r next ih => exact .step (ih (answer r))

/-! ### What a program asks and gives -/

variable {rely : Exchange → Prop} {asks : List Exchange → Request → Prop}

/-- If it is answered properly, a program asks and gives only what fits in with the past. -/
def Meets (rely : Exchange → Prop) (asks : List Exchange → Request → Prop)
    (gives : List Exchange → α → Prop) : Program α → List Exchange → Prop
  | done a, past => gives past a
  | ask r next, past =>
    asks past r ∧
      ∀ reply, rely ⟨r, reply⟩ → (next reply).Meets rely asks gives (past ++ [⟨r, reply⟩])

theorem Meets.mono {gives gives' : List Exchange → α → Prop} {p : Program α}
    {past : List Exchange} (h : p.Meets rely asks gives past)
    (hgives : ∀ later a, gives (past ++ later) a → gives' (past ++ later) a) :
    p.Meets rely asks gives' past := by
  induction p generalizing past with
  | done a =>
    have ha := hgives [] a
    rw [List.append_nil] at ha
    exact ha h
  | ask r next ih =>
    refine ⟨h.1, fun reply hreply => ih reply (h.2 reply hreply) fun later a => ?_⟩
    rw [List.append_assoc]
    exact hgives _ a

theorem Meets.bind {gives : List Exchange → β → Prop} {middle : List Exchange → α → Prop}
    {p : Program α} {f : α → Program β} {past : List Exchange}
    (hp : p.Meets rely asks middle past)
    (hf : ∀ later a, middle (past ++ later) a → (f a).Meets rely asks gives (past ++ later)) :
    (p >>= f).Meets rely asks gives past := by
  induction p generalizing past with
  | done a =>
    have ha := hf [] a
    rw [List.append_nil] at ha
    exact ha hp
  | ask r next ih =>
    refine ⟨hp.1, fun reply hreply => ih reply (hp.2 reply hreply) fun later a => ?_⟩
    rw [List.append_assoc]
    exact hf _ a

/-- An action goes on if its first part does not fail. -/
theorem Meets.action_bind {gives : List Exchange → Except ProvisioningError β → Prop}
    {middle : List Exchange → Except ProvisioningError α → Prop} {x : Action α}
    {f : α → Action β} {past : List Exchange} (hx : x.run.Meets rely asks middle past)
    (hok : ∀ later a, middle (past ++ later) (.ok a) →
      (f a).run.Meets rely asks gives (past ++ later))
    (herror : ∀ later e, middle (past ++ later) (.error e) → gives (past ++ later) (.error e)) :
    (x >>= f).run.Meets rely asks gives past := by
  rw [ExceptT.run_bind]
  refine Meets.bind hx fun later r h => ?_
  cases r with
  | ok a => exact hok later a h
  | error e => exact herror later e h

/-- An action does not fail, and what it gives is as wanted. -/
def Succeeds (gives : List Exchange → α → Prop) (later : List Exchange)
    (outcome : Except ProvisioningError α) : Prop :=
  ∃ a, outcome = .ok a ∧ gives later a

/-- An action goes on after a first part that does not fail. -/
theorem Meets.ok_bind {gives : List Exchange → Except ProvisioningError β → Prop}
    {middle : List Exchange → α → Prop} {x : Action α} {f : α → Action β} {past : List Exchange}
    (hx : x.run.Meets rely asks (Succeeds middle) past)
    (hf : ∀ later a, middle (past ++ later) a →
      (f a).run.Meets rely asks gives (past ++ later)) :
    (x >>= f).run.Meets rely asks gives past := by
  refine Meets.action_bind hx (fun later a h => ?_) fun later e h => ?_
  · obtain ⟨b, he, h⟩ := h
    cases he
    exact hf later a h
  · obtain ⟨b, he, -⟩ := h
    cases he

theorem Meets.lift_bind {gives : List Exchange → Except ProvisioningError β → Prop}
    {middle : List Exchange → α → Prop} {p : Program α} {f : α → Action β}
    {past : List Exchange} (hp : p.Meets rely asks middle past)
    (hf : ∀ later a, middle (past ++ later) a →
      (f a).run.Meets rely asks gives (past ++ later)) :
    (liftM p >>= f).run.Meets rely asks gives past :=
  .ok_bind (Meets.bind hp fun _ a h => ⟨a, rfl, h⟩) hf

/-- A program whose requests always fit in gives what its exchanges show. -/
theorem Meets.of_asks {allowed : Request → Prop} {gives : List Exchange → α → Prop}
    {p : Program α} {past : List Exchange} (hp : p.Asks allowed)
    (hasks : ∀ past r, allowed r → asks past r)
    (hgives : ∀ trace a, p.Reaches trace (done a) → (∀ x ∈ trace, rely x) →
      gives (past ++ trace) a) : p.Meets rely asks gives past := by
  induction p generalizing past with
  | done a =>
    have ha := hgives [] a (.here _) (List.forall_mem_nil _)
    rw [List.append_nil] at ha
    exact ha
  | ask r next ih =>
    refine ⟨hasks _ r hp.1, fun reply hreply => ih reply (hp.2 reply) fun trace a h hrely => ?_⟩
    rw [List.append_assoc]
    exact hgives _ a (.step h) (List.forall_mem_cons.2 ⟨hreply, hrely⟩)

/-- What is left of a program after exchanges meets what the whole met before. -/
theorem Meets.of_reaches {gives : List Exchange → α → Prop} {p q : Program α}
    {past trace : List Exchange} (h : p.Meets rely asks gives past) (hq : p.Reaches trace q)
    (hrely : ∀ x ∈ trace, rely x) : q.Meets rely asks gives (past ++ trace) := by
  induction hq generalizing past with
  | here p =>
    rw [List.append_nil]
    exact h
  | @step r next reply trace q _ ih =>
    obtain ⟨hreply, hrest⟩ := List.forall_mem_cons.1 hrely
    have hrest := ih (h.2 reply hreply) hrest
    rw [List.append_assoc] at hrest
    exact hrest

/-- A program meets what is asked of none. -/
theorem meets_true (p : Program α) (past : List Exchange) :
    p.Meets rely (fun _ _ => True) (fun _ _ => True) past := by
  induction p generalizing past with
  | done a => trivial
  | ask r next ih => exact ⟨trivial, fun reply _ => ih reply _⟩

/-- What a program gives, it gives after exchanges that lead there. -/
theorem Meets.tracing {gives : List Exchange → α → Prop} {p : Program α} {past : List Exchange}
    (h : p.Meets rely asks gives past) :
    p.Meets rely asks
      (fun later a => ∃ trace, later = past ++ trace ∧ p.Reaches trace (done a) ∧ gives later a)
      past := by
  induction p generalizing past with
  | done a => exact ⟨[], (List.append_nil past).symm, .here _, h⟩
  | ask r next ih =>
    refine ⟨h.1, fun reply hreply => (ih reply (h.2 reply hreply)).mono fun later a hlater => ?_⟩
    obtain ⟨trace, heq, hreaches, hgives⟩ := hlater
    refine ⟨⟨r, reply⟩ :: trace, ?_, .step hreaches, hgives⟩
    rw [heq, List.append_assoc]
    rfl

/-- A program that runs without interruption, in a world that answers properly, gives what it
meets. -/
theorem Meets.of_run {gives : List Exchange → α → Prop} {p : Program α} {past : List Exchange}
    {holds : World → Prop} {connectors : Connectors} {w : World}
    (h : p.Meets rely asks gives past)
    (hrely : ∀ w r, holds w → rely ⟨r, (w.answer connectors r).1⟩)
    (hholds : ∀ w r, holds w → holds (w.answer connectors r).2) (hw : holds w) :
    ∃ trace, gives (past ++ trace) (World.run connectors p w).1 := by
  induction p generalizing past w with
  | done a => exact ⟨[], by rwa [List.append_nil]⟩
  | ask r next ih =>
    obtain ⟨trace, hgives⟩ := ih _ (h.2 _ (hrely w r hw)) (hholds w r hw)
    refine ⟨⟨r, (w.answer connectors r).1⟩ :: trace, ?_⟩
    rw [List.append_assoc] at hgives
    exact hgives

end Reconciler.Program
