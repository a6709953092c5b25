/-
Finite maps that list their keys in ascending order.

A map is an entry list together with the proof that its keys strictly ascend.  The list is
determined by the look-ups, so two maps with the same contents are equal, whatever the order in
which they were filled.

Main statements:
* `SortedMap.get?_insert`, `SortedMap.get?_erase`, `SortedMap.get?_empty`, `SortedMap.get?_overlay`;
* `SortedMap.ext_get?`: maps that answer every look-up alike are equal;
* `SortedMap.mem_entries_iff`: entries and look-ups say the same.

Design notes:
* A set of ordered elements is a map to `Unit`; its members are its keys.
-/
import Reconciler.Assoc

namespace Reconciler

/-- A finite map whose keys strictly ascend. -/
structure SortedMap (κ ν : Type) [Ord κ] where
  entries : List (κ × ν)
  ascending : Assoc.Ascending entries
deriving DecidableEq

namespace SortedMap

variable {κ ν : Type} [Ord κ]

@[ext] theorem ext {a b : SortedMap κ ν} (h : a.entries = b.entries) : a = b := by
  cases a; cases b; cases h; rfl

/-- The map without entries. -/
def empty : SortedMap κ ν := ⟨[], .nil⟩

instance : Inhabited (SortedMap κ ν) := ⟨empty⟩
instance : EmptyCollection (SortedMap κ ν) := ⟨empty⟩

/-- The value under a key. -/
def get? [DecidableEq κ] (m : SortedMap κ ν) (key : κ) : Option ν := Assoc.lookup key m.entries

/-- Whether the map has the key. -/
def contains [DecidableEq κ] (m : SortedMap κ ν) (key : κ) : Bool := (m.get? key).isSome

/-- Number of entries. -/
def size (m : SortedMap κ ν) : Nat := m.entries.length

/-- Whether there is no entry. -/
def isEmpty (m : SortedMap κ ν) : Bool := m.entries.isEmpty

/-- Keys in ascending order. -/
def keys (m : SortedMap κ ν) : List κ := m.entries.map (·.1)

/-- Values in the order of their keys. -/
def values (m : SortedMap κ ν) : List ν := m.entries.map (·.2)

/-- Applies a function to every value. -/
def map {μ : Type} (f : κ → ν → μ) (m : SortedMap κ ν) : SortedMap κ μ :=
  ⟨m.entries.map fun e => (e.1, f e.1 e.2), Assoc.ascending_map (fun e => f e.1 e.2) m.ascending⟩

/-- Keeps the entries that satisfy a predicate. -/
def filter (p : κ → ν → Bool) (m : SortedMap κ ν) : SortedMap κ ν :=
  ⟨m.entries.filter fun e => p e.1 e.2, Assoc.ascending_filter _ m.ascending⟩

/-- Drops the entry of a key. -/
def erase [DecidableEq κ] (m : SortedMap κ ν) (key : κ) : SortedMap κ ν :=
  ⟨Assoc.erase key m.entries, Assoc.ascending_erase key m.ascending⟩

section Changes

variable [Std.TransOrd κ] [Std.LawfulEqOrd κ]

/-- Sets the value under a key. -/
def insert (m : SortedMap κ ν) (key : κ) (value : ν) : SortedMap κ ν :=
  ⟨Assoc.insert key value m.entries, Assoc.ascending_insert key value m.ascending⟩

/-- Entries put in one after another: of two with one key the later stays. -/
def ofList (entries : List (κ × ν)) : SortedMap κ ν :=
  ⟨Assoc.ofList entries, Assoc.ascending_ofList entries⟩

/-- The entries of `top` on top of those of `base`. -/
def overlay (base top : SortedMap κ ν) : SortedMap κ ν :=
  ⟨Assoc.overlay base.entries top.entries, Assoc.ascending_overlay base.ascending _⟩

theorem mem_of_mem_ofList {entries : List (κ × ν)} {e : κ × ν}
    (h : e ∈ (ofList entries).entries) : e ∈ entries :=
  (Assoc.mem_overlay h).resolve_left (List.not_mem_nil)

end Changes

theorem nodup_keys [Std.TransOrd κ] (m : SortedMap κ ν) : m.keys.Nodup := by
  refine List.pairwise_map.2 (m.ascending.imp fun {e e'} hlt heq => ?_)
  rw [heq, Std.ReflOrd.compare_self] at hlt
  cases hlt

/-! ### Laws of look-up -/

variable [DecidableEq κ]

@[simp] theorem get?_empty (key : κ) : (empty : SortedMap κ ν).get? key = none := rfl

theorem get?_erase (m : SortedMap κ ν) (key other : κ) :
    (m.erase key).get? other = if other = key then none else m.get? other :=
  Assoc.lookup_erase key other m.entries

theorem get?_map {μ : Type} (f : ν → μ) (m : SortedMap κ ν) (key : κ) :
    (m.map fun _ v => f v).get? key = (m.get? key).map f :=
  Assoc.lookup_map key f m.entries

theorem get?_insert [Std.TransOrd κ] [Std.LawfulEqOrd κ] (m : SortedMap κ ν) (key other : κ)
    (value : ν) :
    (m.insert key value).get? other = if other = key then some value else m.get? other :=
  Assoc.lookup_insert key other value m.entries

/-- Of the entries of a list the last one with a key counts. -/
theorem get?_ofList [Std.TransOrd κ] [Std.LawfulEqOrd κ] (entries : List (κ × ν)) (key : κ) :
    (ofList entries).get? key = Assoc.lookup key entries.reverse :=
  (Assoc.lookup_overlay key [] entries).trans (by simp)

theorem get?_filter [Std.TransOrd κ] (p : ν → Bool) (m : SortedMap κ ν) (key : κ) :
    (m.filter fun _ v => p v).get? key = (m.get? key).filter p := by
  obtain ⟨entries, h⟩ := m
  show Assoc.lookup key (entries.filter fun e => p e.2) = (Assoc.lookup key entries).filter p
  induction entries with
  | nil => rfl
  | cons e rest ih =>
    obtain ⟨k, v⟩ := e
    have ih := ih (List.pairwise_cons.1 h).2
    by_cases hk : key = k
    · subst hk
      have hno : Assoc.lookup key (rest.filter fun e => p e.2) = none := by
        rw [ih, Assoc.lookup_tail_of_ascending h]
        rfl
      cases hp : p v <;> simp [Assoc.lookup, Option.filter, hp, hno]
    · cases hp : p v <;> simp [Assoc.lookup, hk, hp, ih]

theorem mem_entries_iff [Std.TransOrd κ] {m : SortedMap κ ν} {key : κ} {value : ν} :
    (key, value) ∈ m.entries ↔ m.get? key = some value :=
  ⟨Assoc.lookup_of_mem m.ascending, Assoc.mem_of_lookup⟩

theorem mem_keys_iff [Std.TransOrd κ] {m : SortedMap κ ν} {key : κ} :
    key ∈ m.keys ↔ (m.get? key).isSome := by
  simp only [keys, List.mem_map, Option.isSome_iff_exists, ← mem_entries_iff]
  constructor
  · rintro ⟨⟨k, v⟩, h, rfl⟩
    exact ⟨v, h⟩
  · rintro ⟨v, h⟩
    exact ⟨(key, v), h, rfl⟩

theorem ext_get? [Std.TransOrd κ] [Std.LawfulEqOrd κ] {a b : SortedMap κ ν}
    (h : ∀ key, a.get? key = b.get? key) : a = b :=
  ext (Assoc.eq_of_lookup_eq a.ascending b.ascending h)

theorem mem_keys_ofList [Std.TransOrd κ] [Std.LawfulEqOrd κ] {entries : List (κ × ν)} {key : κ}
    (h : key ∈ entries.map Prod.fst) : key ∈ (ofList entries).keys := by
  rw [mem_keys_iff, get?_ofList, Option.isSome_iff_ne_none]
  intro hnone
  obtain ⟨e, he, hek⟩ := List.mem_map.1 h
  exact Assoc.lookup_eq_none_iff.1 hnone e (List.mem_reverse.2 he) hek.symm

/-- Entries of which those with one key agree are found by their keys. -/
theorem get?_ofList_of_mem [Std.TransOrd κ] [Std.LawfulEqOrd κ] (f : κ → Option ν)
    {entries : List (κ × ν)} (h : ∀ e ∈ entries, some e.2 = f e.1) {key : κ}
    (hkey : key ∈ entries.map Prod.fst) : (ofList entries).get? key = f key := by
  obtain ⟨v, hv⟩ := Option.isSome_iff_exists.1 (mem_keys_iff.1 (mem_keys_ofList hkey))
  rw [hv]
  exact h (key, v) (mem_of_mem_ofList (mem_entries_iff.2 hv))

/-- A map is made again of its entries, in whatever order and however often they are listed. -/
theorem ofList_eq_of_mem [Std.TransOrd κ] [Std.LawfulEqOrd κ] {m : SortedMap κ ν}
    {entries : List (κ × ν)} (h : ∀ e ∈ entries, e ∈ m.entries)
    (hkeys : ∀ key ∈ m.keys, key ∈ entries.map Prod.fst) : ofList entries = m := by
  refine ext_get? fun key => ?_
  by_cases hkey : key ∈ m.keys
  · exact get?_ofList_of_mem m.get? (fun e he => (mem_entries_iff.1 (h e he)).symm) (hkeys key hkey)
  · have hnone : m.get? key = none :=
      Option.not_isSome_iff_eq_none.1 fun hsome => hkey (mem_keys_iff.2 hsome)
    rw [hnone]
    cases hget : (ofList entries).get? key with
    | none => rfl
    | some v =>
      have hmem : (key, v) ∈ m.entries := h _ (mem_of_mem_ofList (mem_entries_iff.2 hget))
      rw [mem_entries_iff.1 hmem] at hnone
      cases hnone

/-- On top of a map, another one answers first. -/
theorem get?_overlay [Std.TransOrd κ] [Std.LawfulEqOrd κ] (base top : SortedMap κ ν) (key : κ) :
    (base.overlay top).get? key = (top.get? key <|> base.get? key) := by
  have htop : ofList top.entries = top := ofList_eq_of_mem (fun _ he => he) fun _ hkey => hkey
  have hlookup : Assoc.lookup key top.entries.reverse = top.get? key := by
    rw [← get?_ofList, htop]
  exact (Assoc.lookup_overlay key base.entries top.entries).trans (by rw [hlookup]; rfl)

end SortedMap

/-- A finite set listed in ascending order: the keys of a map to nothing. -/
abbrev SortedSet (κ : Type) [Ord κ] := SortedMap κ Unit

namespace SortedSet

variable {κ : Type} [Ord κ]

/-- The members in ascending order. -/
def toList (s : SortedSet κ) : List κ := s.keys

section Changes

variable [Std.TransOrd κ] [Std.LawfulEqOrd κ]

/-- The set with one more member. -/
def insert (s : SortedSet κ) (member : κ) : SortedSet κ := SortedMap.insert s member ()

/-- The set of the elements of a list. -/
def ofList (members : List κ) : SortedSet κ := SortedMap.ofList (members.map (·, ()))

/-- A set is made again of its members. -/
theorem ofList_toList (s : SortedSet κ) : ofList s.toList = s := by
  classical
  have hentries : s.toList.map (·, ()) = s.entries := by
    rw [toList, SortedMap.keys, List.map_map]
    exact List.map_id _
  rw [ofList, hentries]
  exact SortedMap.ofList_eq_of_mem (fun _ he => he) fun _ hkey => hkey

theorem mem_of_mem_ofList {members : List κ} {a : κ} (h : a ∈ (ofList members).toList) :
    a ∈ members := by
  obtain ⟨e, he, rfl⟩ := List.mem_map.1 h
  obtain ⟨b, hb, rfl⟩ := List.mem_map.1 (SortedMap.mem_of_mem_ofList he)
  exact hb

end Changes

end SortedSet

end Reconciler
