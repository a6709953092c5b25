/-
Association lists with ordered keys.

An entry list is read by its first entry with a key.  Insertion is a single pass that replaces the
entry of an equal key and otherwise stops in front of the first greater key, so a list whose keys
ascend keeps ascending, while the laws of look-up hold for every list.

Main statements:
* `Assoc.lookup_insert`, `Assoc.lookup_erase`: what a change does to every look-up;
* `Assoc.ascending_insert`, `Assoc.ascending_erase`: changes keep the order of the keys;
* `Assoc.eq_of_lookup_eq`: two ascending lists that answer every look-up alike are the same list.

Design notes:
* Members of JSON objects are such lists directly; `SortedMap` bundles one with the proof that its
  keys ascend.
* Keys need an order that is transitive and whose `eq` is equality; no linear-order class is used,
  so that the running modules need core only.
-/

namespace Reconciler.Assoc

variable {κ ν : Type}

/-- The value of the first entry with this key. -/
def lookup [DecidableEq κ] (key : κ) : List (κ × ν) → Option ν
  | [] => none
  | (k, v) :: rest => if key = k then some v else lookup key rest

/-- Puts an entry in front of the first greater key, or in place of an equal one. -/
def insert [Ord κ] (key : κ) (value : ν) : List (κ × ν) → List (κ × ν)
  | [] => [(key, value)]
  | (k, v) :: rest =>
    match compare key k with
    | .lt => (key, value) :: (k, v) :: rest
    | .eq => (key, value) :: rest
    | .gt => (k, v) :: insert key value rest

/-- Drops every entry with this key. -/
def erase [DecidableEq κ] (key : κ) (entries : List (κ × ν)) : List (κ × ν) :=
  entries.filter fun e => decide (key ≠ e.1)

/-- Entries put in one after another: of two with one key the later stays. -/
def ofList [Ord κ] (entries : List (κ × ν)) : List (κ × ν) :=
  entries.foldl (fun acc e => insert e.1 e.2 acc) []

/-- Entries overlaid on others: of two with one key the overlay's stays. -/
def overlay [Ord κ] (base top : List (κ × ν)) : List (κ × ν) :=
  top.foldl (fun acc e => insert e.1 e.2 acc) base

/-- Keys strictly ascend, so none repeats. -/
def Ascending [Ord κ] (entries : List (κ × ν)) : Prop :=
  entries.Pairwise fun a b => compare a.1 b.1 = .lt

instance [Ord κ] (entries : List (κ × ν)) : Decidable (Ascending entries) :=
  inferInstanceAs (Decidable (entries.Pairwise fun a b => compare a.1 b.1 = .lt))

/-! ### Look-ups -/

section Lookup

variable [DecidableEq κ]

@[simp] theorem lookup_nil (key : κ) : lookup key ([] : List (κ × ν)) = none := rfl

theorem lookup_cons (key k : κ) (v : ν) (rest : List (κ × ν)) :
    lookup key ((k, v) :: rest) = if key = k then some v else lookup key rest := rfl

theorem lookup_append (key : κ) (xs ys : List (κ × ν)) :
    lookup key (xs ++ ys) = (lookup key xs <|> lookup key ys) := by
  induction xs with
  | nil => rfl
  | cons e rest ih =>
    by_cases h : key = e.1
    · simp [lookup, h]
    · simp only [List.cons_append, lookup, h, if_false, ih]

theorem mem_of_lookup {key : κ} {v : ν} {entries : List (κ × ν)}
    (h : lookup key entries = some v) : (key, v) ∈ entries := by
  induction entries with
  | nil => simp at h
  | cons e rest ih =>
    by_cases hk : key = e.1
    · simp only [lookup, hk, if_true, Option.some.injEq] at h
      simp [hk, ← h]
    · simp only [lookup, hk, if_false] at h
      exact List.mem_cons_of_mem _ (ih h)

theorem lookup_eq_none_iff {key : κ} {entries : List (κ × ν)} :
    lookup key entries = none ↔ ∀ e ∈ entries, key ≠ e.1 := by
  induction entries with
  | nil => simp
  | cons e rest ih => by_cases h : key = e.1 <;> simp [lookup, h, ih]

theorem lookup_map (key : κ) {μ : Type} (f : ν → μ) (entries : List (κ × ν)) :
    lookup key (entries.map fun e => (e.1, f e.2)) = (lookup key entries).map f := by
  induction entries with
  | nil => rfl
  | cons e rest ih => by_cases h : key = e.1 <;> simp [lookup, h, ih]

theorem lookup_filter_ne (key other : κ) (h : other ≠ key) (entries : List (κ × ν)) :
    lookup other (erase key entries) = lookup other entries := by
  induction entries with
  | nil => rfl
  | cons e rest ih =>
    unfold erase at ih ⊢
    by_cases hk : key = e.1
    · have ho : other ≠ e.1 := hk ▸ h
      simp [lookup, hk, ho, ← ih]
    · by_cases ho : other = e.1 <;> simp_all [lookup]

theorem lookup_erase (key other : κ) (entries : List (κ × ν)) :
    lookup other (erase key entries) = if other = key then none else lookup other entries := by
  split
  · next h =>
    subst h
    rw [lookup_eq_none_iff]
    intro e he
    simpa using (List.mem_filter.1 he).2
  · next h => exact lookup_filter_ne key other h entries

end Lookup

/-! ### Insertion -/

section Insert

variable [Ord κ]

@[simp] theorem insert_nil (key : κ) (value : ν) : insert key value [] = [(key, value)] := rfl

@[simp] theorem insert_ne_nil (key : κ) (value : ν) (entries : List (κ × ν)) :
    insert key value entries ≠ [] := by
  cases entries with
  | nil => simp
  | cons e rest => rw [insert]; split <;> simp

theorem mem_insert {key : κ} {value : ν} {entries : List (κ × ν)} {e : κ × ν}
    (h : e ∈ insert key value entries) : e = (key, value) ∨ e ∈ entries := by
  induction entries with
  | nil => simpa using h
  | cons hd rest ih =>
    rw [insert] at h
    split at h
    · simpa using h
    · rcases List.mem_cons.1 h with h | h
      · exact .inl h
      · exact .inr (List.mem_cons_of_mem _ h)
    · rcases List.mem_cons.1 h with h | h
      · exact .inr (h ▸ List.mem_cons_self ..)
      · exact (ih h).imp_right (List.mem_cons_of_mem _)

theorem mem_overlay {base top : List (κ × ν)} {e : κ × ν} (h : e ∈ overlay base top) :
    e ∈ base ∨ e ∈ top := by
  induction top generalizing base with
  | nil => exact .inl h
  | cons first rest ih =>
    rcases ih h with hbase | hrest
    · rcases mem_insert hbase with rfl | hbase
      · exact .inr List.mem_cons_self
      · exact .inl hbase
    · exact .inr (List.mem_cons_of_mem _ hrest)

variable [Std.LawfulEqOrd κ] [DecidableEq κ]

@[simp] theorem lookup_insert_self (key : κ) (value : ν) (entries : List (κ × ν)) :
    lookup key (insert key value entries) = some value := by
  induction entries with
  | nil => simp [lookup]
  | cons hd rest ih =>
    rw [insert]
    split
    · simp [lookup]
    · simp [lookup]
    · next h =>
      have hne : key ≠ hd.1 := by rintro rfl; simp [Std.ReflOrd.compare_self] at h
      simp [lookup, hne, ih]

theorem lookup_insert_of_ne {key other : κ} (h : other ≠ key) (value : ν)
    (entries : List (κ × ν)) : lookup other (insert key value entries) = lookup other entries := by
  induction entries with
  | nil => simp [lookup, h]
  | cons hd rest ih =>
    rw [insert]
    split
    · simp [lookup, h]
    · next heq =>
      have hk : key = hd.1 := Std.LawfulEqOrd.eq_of_compare heq
      simp [lookup, h, ← hk]
    · simp [lookup, ih]

theorem lookup_insert (key other : κ) (value : ν) (entries : List (κ × ν)) :
    lookup other (insert key value entries) =
      if other = key then some value else lookup other entries := by
  split
  · next h => rw [h, lookup_insert_self]
  · next h => rw [lookup_insert_of_ne h]

/-- Of overlaid entries the last one with a key counts. -/
theorem lookup_overlay (key : κ) (base top : List (κ × ν)) :
    lookup key (overlay base top) = (lookup key top.reverse <|> lookup key base) := by
  unfold overlay
  induction top generalizing base with
  | nil => rfl
  | cons e rest ih =>
    rw [List.foldl_cons, ih, List.reverse_cons, lookup_append, lookup_insert]
    cases lookup key rest.reverse with
    | some v => rfl
    | none => by_cases h : key = e.1 <;> simp [lookup, h]

end Insert

/-! ### Order of the keys -/

section Order

variable [Ord κ]

theorem ascending_filter (p : κ × ν → Bool) {entries : List (κ × ν)} (h : Ascending entries) :
    Ascending (entries.filter p) :=
  List.Pairwise.filter p h

theorem ascending_erase [DecidableEq κ] (key : κ) {entries : List (κ × ν)}
    (h : Ascending entries) : Ascending (erase key entries) :=
  ascending_filter _ h

theorem ascending_map {μ : Type} (f : κ × ν → μ) {entries : List (κ × ν)} (h : Ascending entries) :
    Ascending (entries.map fun e => (e.1, f e)) :=
  List.pairwise_map.2 h

variable [Std.TransOrd κ]

theorem ascending_insert [Std.LawfulEqOrd κ] (key : κ) (value : ν) {entries : List (κ × ν)}
    (h : Ascending entries) : Ascending (insert key value entries) := by
  induction entries with
  | nil => simp [Ascending]
  | cons hd rest ih =>
    obtain ⟨hhd, hrest⟩ := List.pairwise_cons.1 h
    rw [insert]
    split
    · next hlt =>
      refine List.pairwise_cons.2 ⟨fun e he => ?_, h⟩
      rcases List.mem_cons.1 he with rfl | he
      · exact hlt
      · exact Std.TransCmp.lt_trans hlt (hhd e he)
    · next heq =>
      have hk : key = hd.1 := Std.LawfulEqOrd.eq_of_compare heq
      exact List.pairwise_cons.2 ⟨fun e he => hk ▸ hhd e he, hrest⟩
    · next hgt =>
      refine List.pairwise_cons.2 ⟨fun e he => ?_, ih hrest⟩
      rcases mem_insert he with rfl | he
      · exact Std.OrientedCmp.lt_of_gt hgt
      · exact hhd e he

theorem ascending_overlay [Std.LawfulEqOrd κ] {base : List (κ × ν)} (h : Ascending base)
    (top : List (κ × ν)) : Ascending (overlay base top) := by
  unfold overlay
  induction top generalizing base with
  | nil => exact h
  | cons e rest ih => exact ih (ascending_insert _ _ h)

theorem ascending_ofList [Std.LawfulEqOrd κ] (entries : List (κ × ν)) :
    Ascending (ofList entries) :=
  ascending_overlay .nil entries

/-- In an ascending list the head's key occurs only at the head. -/
theorem lookup_tail_of_ascending [DecidableEq κ] {k : κ} {v : ν} {rest : List (κ × ν)}
    (h : Ascending ((k, v) :: rest)) : lookup k rest = none := by
  rw [lookup_eq_none_iff]
  rintro e he rfl
  have := (List.pairwise_cons.1 h).1 e he
  simp [Std.ReflOrd.compare_self] at this

theorem lookup_of_mem [DecidableEq κ] {key : κ} {v : ν} {entries : List (κ × ν)}
    (h : Ascending entries) (hm : (key, v) ∈ entries) : lookup key entries = some v := by
  induction entries with
  | nil => simp at hm
  | cons hd rest ih =>
    rcases List.mem_cons.1 hm with rfl | hm
    · simp [lookup]
    · have hlt := (List.pairwise_cons.1 h).1 _ hm
      have hne : key ≠ hd.1 := by
        rintro rfl
        simp [Std.ReflOrd.compare_self] at hlt
      simp [lookup, hne, ih (List.pairwise_cons.1 h).2 hm]

theorem eq_of_lookup_eq [Std.LawfulEqOrd κ] [DecidableEq κ] {a b : List (κ × ν)}
    (ha : Ascending a) (hb : Ascending b) (h : ∀ key, lookup key a = lookup key b) : a = b := by
  induction a generalizing b with
  | nil =>
    cases b with
    | nil => rfl
    | cons e rest => have := h e.1; simp [lookup] at this
  | cons x xs ih =>
    cases b with
    | nil => have := h x.1; simp [lookup] at this
    | cons y ys =>
      obtain ⟨k, v⟩ := x
      obtain ⟨k', v'⟩ := y
      have hk : k = k' := by
        by_cases hne : k = k'
        · exact hne
        exfalso
        have h1 : (k', v') ∈ xs := by
          have hm : (k', v') ∈ (k, v) :: xs := mem_of_lookup (by rw [h k']; simp [lookup])
          simpa [Ne.symm hne] using hm
        have h2 : (k, v) ∈ ys := by
          have hm : (k, v) ∈ (k', v') :: ys := mem_of_lookup (by rw [← h k]; simp [lookup])
          simpa [hne] using hm
        have l1 := (List.pairwise_cons.1 ha).1 _ h1
        have l2 := (List.pairwise_cons.1 hb).1 _ h2
        have := Std.TransCmp.lt_trans l1 l2
        simp [Std.ReflOrd.compare_self] at this
      subst hk
      have hv : v = v' := by simpa [lookup] using h k
      subst hv
      congr 1
      refine ih (List.pairwise_cons.1 ha).2 (List.pairwise_cons.1 hb).2 fun key => ?_
      by_cases hkey : key = k
      · rw [hkey, lookup_tail_of_ascending ha, lookup_tail_of_ascending hb]
      · simpa [lookup, hkey] using h key

end Order

end Reconciler.Assoc
