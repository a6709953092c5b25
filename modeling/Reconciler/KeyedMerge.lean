/-
Lists of entries merged by key, the order of first mention kept.

An incoming entry is merged into the first entry that it belongs to; without one it is appended.

Main statements:
* `put_of_not_any`: an entry that belongs nowhere is appended;
* `put_eq_append`: an entry that belongs somewhere changes the first such entry only.
-/

namespace Reconciler.KeyedMerge

variable {α : Type}

/-- Merges an entry into the first one that it belongs to, or appends it. -/
def put (belongs : α → α → Bool) (merge : α → α → α) (incoming : α) : List α → List α
  | [] => [incoming]
  | existing :: rest =>
    if belongs existing incoming then merge existing incoming :: rest
    else existing :: put belongs merge incoming rest

/-- Merges entries one after another. -/
def merge (belongs : α → α → Bool) (combine : α → α → α) (base top : List α) : List α :=
  top.foldl (fun acc x => put belongs combine x acc) base

@[simp] theorem merge_nil (belongs : α → α → Bool) (combine : α → α → α) (base : List α) :
    merge belongs combine base [] = base := rfl

theorem put_of_not_any {belongs : α → α → Bool} {combine : α → α → α} {x : α} {xs : List α}
    (h : ∀ y ∈ xs, belongs y x = false) : put belongs combine x xs = xs ++ [x] := by
  induction xs with
  | nil => rfl
  | cons y rest ih =>
    rw [put, h y (List.mem_cons_self ..), ih fun z hz => h z (List.mem_cons_of_mem _ hz)]
    rfl

theorem put_eq_append {belongs : α → α → Bool} {combine : α → α → α} {x y : α} {xs ys : List α}
    (h : ∀ z ∈ xs, belongs z x = false) (hy : belongs y x = true) :
    put belongs combine x (xs ++ y :: ys) = xs ++ combine y x :: ys := by
  induction xs with
  | nil => simp [put, hy]
  | cons z rest ih =>
    rw [List.cons_append, put, h z (List.mem_cons_self ..),
      ih fun w hw => h w (List.mem_cons_of_mem _ hw)]
    rfl

end Reconciler.KeyedMerge
