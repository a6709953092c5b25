/-
Settings: JSON values by name, as connectors, capabilities and scripts take them.

Settings inherited from a template are merged leaf by leaf: where both sides hold an object the
objects are merged, everywhere else the overlay's value stands.

Main statements:
* `Settings.get?_deepMerge`: what a merged name holds.
-/
import Reconciler.Json.Codec

namespace Reconciler

/-- JSON values by name. -/
abbrev Settings := SortedMap String Json

namespace Json

mutual

/-- A value laid over what was there. -/
def mergeOver (top : Json) (base : Option Json) : Json :=
  match top, base with
  | .obj incoming, some (.obj existing) => .obj (mergeMembers incoming existing)
  | v, _ => v

/-- Members laid over others, one after another. -/
def mergeMembers (top : List (String × Json)) (base : List (String × Json)) :
    List (String × Json) :=
  match top with
  | [] => base
  | (name, v) :: rest =>
    mergeMembers rest (Assoc.insert name (mergeOver v (Assoc.lookup name base)) base)

end

theorem ascending_mergeMembers (top : List (String × Json)) {base : List (String × Json)}
    (h : Assoc.Ascending base) : Assoc.Ascending (mergeMembers top base) := by
  induction top generalizing base with
  | nil => rw [mergeMembers]; exact h
  | cons e rest ih => rw [mergeMembers]; exact ih (Assoc.ascending_insert _ _ h)

theorem lookup_mergeMembers_of_not_mem {name : String} {top : List (String × Json)}
    (h : ∀ e ∈ top, name ≠ e.1) (base : List (String × Json)) :
    Assoc.lookup name (mergeMembers top base) = Assoc.lookup name base := by
  induction top generalizing base with
  | nil => rw [mergeMembers]
  | cons e rest ih =>
    rw [mergeMembers, ih fun e he => h e (List.mem_cons_of_mem _ he),
      Assoc.lookup_insert_of_ne (h e (List.mem_cons_self ..))]

theorem lookup_mergeMembers {name : String} {top base : List (String × Json)}
    (h : Assoc.Ascending top) :
    Assoc.lookup name (mergeMembers top base) =
      match Assoc.lookup name top with
      | some v => some (mergeOver v (Assoc.lookup name base))
      | none => Assoc.lookup name base := by
  induction top generalizing base with
  | nil => rw [mergeMembers]; rfl
  | cons e rest ih =>
    obtain ⟨k, v⟩ := e
    rw [mergeMembers]
    by_cases hk : name = k
    · subst hk
      have hno := Assoc.lookup_eq_none_iff.1 (Assoc.lookup_tail_of_ascending h)
      rw [lookup_mergeMembers_of_not_mem hno, Assoc.lookup_insert_self]
      simp [Assoc.lookup]
    · rw [ih (List.pairwise_cons.1 h).2, Assoc.lookup_insert_of_ne hk]
      simp [Assoc.lookup, hk]

end Json

namespace Settings

/-- Settings laid over others, leaf by leaf. -/
def deepMerge (base top : Settings) : Settings :=
  ⟨Json.mergeMembers top.entries base.entries, Json.ascending_mergeMembers _ base.ascending⟩

theorem get?_deepMerge (base top : Settings) (name : String) :
    (deepMerge base top).get? name =
      match top.get? name with
      | some v => some (v.mergeOver (base.get? name))
      | none => base.get? name :=
  Json.lookup_mergeMembers top.ascending

end Settings

end Reconciler
