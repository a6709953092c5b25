/-
Results that follow one another, and lists of results.

Main statements:
* `Except.bind_eq_ok_iff`: one result after another succeeds when both do;
* `List.mapM_eq_ok_iff`: a list of results succeeds when all of them do;
* `List.mapM_eq_error_iff`: it fails with the first of them that does;
* `List.exists_of_forall₂`: what lists related element by element have of each other.
-/
import Mathlib.Data.List.Forall2

namespace Reconciler

/-- One result after another succeeds when both do. -/
theorem Except.bind_eq_ok_iff {α β ε : Type} {x : Except ε α} {f : α → Except ε β} {b : β} :
    (x >>= f) = .ok b ↔ ∃ a, x = .ok a ∧ f a = .ok b := by
  cases x <;> simp [bind, Except.bind]

/-- Just what does not succeed fails. -/
theorem Except.exists_eq_error_iff {α ε : Type} {x : Except ε α} :
    (∃ e, x = .error e) ↔ ¬ ∃ a, x = .ok a := by
  cases x <;> simp

/-- A list of results succeeds when all of them do. -/
theorem List.mapM_eq_ok_iff {α β ε : Type} {f : α → Except ε β} {xs : List α} {ys : List β} :
    xs.mapM f = .ok ys ↔ xs.Forall₂ (fun x y => f x = .ok y) ys := by
  induction xs generalizing ys with
  | nil =>
    rw [List.mapM_nil, List.forall₂_nil_left_iff]
    exact ⟨fun h => by cases h; rfl, fun h => by rw [h]; rfl⟩
  | cons x xs ih =>
    have hcons : (x :: xs).mapM f = .ok ys ↔
        ∃ z zs, f x = .ok z ∧ xs.mapM f = .ok zs ∧ ys = z :: zs := by
      rw [List.mapM_cons]
      cases f x with
      | error e => simp [bind, Except.bind]
      | ok z => cases xs.mapM f <;> simp [bind, Except.bind, pure, Except.pure, eq_comm]
    rw [hcons, List.forall₂_cons_left_iff]
    simp only [ih]

/-- What a list is mapped to, element by element. -/
theorem List.forall₂_eq_some_iff {α β : Type} {f : α → Option β} {xs : List α} {ys : List β} :
    xs.Forall₂ (fun x y => f x = some y) ys ↔ xs.map f = ys.map some := by
  rw [← List.forall₂_eq_eq_eq, List.forall₂_map_left_iff, List.forall₂_map_right_iff]

/-- In lists that are related element by element, every element is related to one of the other
list. -/
theorem List.exists_of_forall₂ {α β : Type} {R : α → β → Prop} {xs : List α} {ys : List β}
    (h : xs.Forall₂ R ys) : (∀ x ∈ xs, ∃ y ∈ ys, R x y) ∧ ∀ y ∈ ys, ∃ x ∈ xs, R x y := by
  induction h with
  | nil => exact ⟨nofun, nofun⟩
  | cons hxy _ ih =>
    constructor
    · exact List.forall_mem_cons.2 ⟨⟨_, List.mem_cons_self, hxy⟩, fun x hx =>
        (ih.1 x hx).imp fun y hy => ⟨List.mem_cons_of_mem _ hy.1, hy.2⟩⟩
    · exact List.forall_mem_cons.2 ⟨⟨_, List.mem_cons_self, hxy⟩, fun y hy =>
        (ih.2 y hy).imp fun x hx => ⟨List.mem_cons_of_mem _ hx.1, hx.2⟩⟩

/-- A list of results fails with the first of them that does. -/
theorem List.mapM_eq_error_iff {α β ε : Type} {f : α → Except ε β} {xs : List α} {e : ε} :
    xs.mapM f = .error e ↔
      ∃ earlier x later, xs = earlier ++ x :: later ∧ (∀ y ∈ earlier, ∃ z, f y = .ok z) ∧
        f x = .error e := by
  induction xs with
  | nil =>
    constructor
    · intro h
      cases h
    · rintro ⟨earlier, x, later, h, -⟩
      cases earlier <;> cases h
  | cons x xs ih =>
    rw [List.mapM_cons]
    cases hx : f x with
    | error e' =>
      constructor
      · intro h
        cases h
        exact ⟨[], x, xs, rfl, List.forall_mem_nil _, hx⟩
      · rintro ⟨earlier, y, later, h, hearlier, hy⟩
        cases earlier with
        | nil =>
          cases h
          rw [hx] at hy
          cases hy
          rfl
        | cons x' earlier =>
          cases h
          obtain ⟨z, hz⟩ := hearlier x List.mem_cons_self
          rw [hx] at hz
          cases hz
    | ok z =>
      have hrest : (Except.ok z >>= fun z => xs.mapM f >>= fun zs => pure (z :: zs)) =
          Except.error e ↔ xs.mapM f = .error e := by
        cases xs.mapM f <;> simp [bind, Except.bind, pure, Except.pure]
      rw [hrest, ih]
      constructor
      · rintro ⟨earlier, y, later, rfl, hearlier, hy⟩
        exact ⟨x :: earlier, y, later, rfl, List.forall_mem_cons.2 ⟨⟨z, hx⟩, hearlier⟩, hy⟩
      · rintro ⟨earlier, y, later, h, hearlier, hy⟩
        cases earlier with
        | nil =>
          cases h
          rw [hx] at hy
          cases hy
        | cons x' earlier =>
          cases h
          exact ⟨earlier, y, later, rfl, (List.forall_mem_cons.1 hearlier).2, hy⟩

theorem List.mapM_congr_of_mem {α β ε : Type} {f g : α → Except ε β} {xs : List α}
    (h : ∀ x ∈ xs, f x = g x) : xs.mapM f = xs.mapM g := by
  induction xs with
  | nil => rfl
  | cons x xs ih =>
    obtain ⟨hx, hxs⟩ := List.forall_mem_cons.1 h
    rw [List.mapM_cons, List.mapM_cons, hx, ih hxs]

end Reconciler
