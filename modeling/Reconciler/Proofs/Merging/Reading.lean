/-
Settings that were read can be merged.

Merging asks that members of objects be listed in order.  Readers put them there, so that every
value that comes from a text is tidy, however deep its objects are nested.

Main statements:
* `Json.tidy_of_ofText?`: a value that was read is tidy;
* `Settings.tidy_of_decode?`: so are settings that were read from a tidy value.
-/
import Mathlib.Order.Basic
import Reconciler.Json.Reader
import Reconciler.Proofs.Codec.Containers
import Reconciler.Proofs.Merging.Settings
import Reconciler.Proofs.Results

namespace Reconciler

namespace Json

theorem Tidy.record {members : List (String × Json)} (h : ∀ e ∈ members, e.2.Tidy) :
    (Json.record members).Tidy :=
  .object (Assoc.ascending_ofList members) fun e he => h e (SortedMap.mem_of_mem_ofList he)

namespace Reader

variable {fuel depth : Nat} {cs rest : List Char} {v : Json} {members : List (String × Json)}

theorem eq_of_word? {value : Json} {word : List Char} (h : word? value word cs = .ok (v, rest)) :
    v = value := by
  induction word generalizing cs with
  | nil =>
    cases h
    rfl
  | cons c word ih =>
    rw [word?] at h
    split at h
    · exact ih h
    · cases h

theorem tidy_of_float? {n : Numeral} (h : n.float? = some v) : v.Tidy := by
  obtain ⟨x, -, hx⟩ := Option.bind_eq_some_iff.1 h
  cases hx
  exact .other rfl

theorem tidy_of_numeral {n : Numeral} (h : n.value? = some v) : v.Tidy := by
  unfold Numeral.value? at h
  dsimp only at h
  split at h
  · exact tidy_of_float? h
  · split at h
    · split at h
      · exact tidy_of_float? h
      · cases h
        exact .other rfl
    · split at h
      · cases h
        exact .other rfl
      · exact tidy_of_float? h

theorem tidy_of_number? (h : number? cs = .ok (v, rest)) : v.Tidy := by
  obtain ⟨⟨n, left⟩, -, h⟩ := Except.bind_eq_ok_iff.1 h
  dsimp only at h
  split at h
  · next w hw =>
    cases h
    exact tidy_of_numeral hw
  · cases h

/-- A value is tidy if the members that are read for it are. -/
theorem tidy_of_value?
    (hmembers : ∀ n, fuel = n + 1 → ∀ {depth cs members rest},
      members? n depth cs = .ok (members, rest) → ∀ e ∈ members, e.2.Tidy)
    (h : value? fuel depth cs = .ok (v, rest)) : v.Tidy := by
  unfold value? at h
  split at h
  · -- A list, with whatever it holds.
    split at h
    · cases h
    · split at h
      · cases h
      · cases h
        exact .other rfl
      · obtain ⟨_, -, h⟩ := Except.bind_eq_ok_iff.1 h
        cases h
        exact .other rfl
  · -- An object.
    split at h
    · cases h
    · split at h
      · cases h
      · cases h
        exact .record (List.forall_mem_nil _)
      · obtain ⟨_, hread, h⟩ := Except.bind_eq_ok_iff.1 h
        cases h
        exact .record (hmembers _ rfl hread)
  · obtain ⟨_, -, h⟩ := Except.bind_eq_ok_iff.1 h
    cases h
    exact .other rfl
  · exact eq_of_word? h ▸ .other rfl
  · exact eq_of_word? h ▸ .other rfl
  · exact eq_of_word? h ▸ .other rfl
  · split at h
    · exact tidy_of_number? h
    · cases h

/-- Members are tidy, since both their values and the members after them are read with less fuel. -/
theorem tidy_of_members? (h : members? fuel depth cs = .ok (members, rest)) :
    ∀ e ∈ members, e.2.Tidy := by
  induction fuel using Nat.strong_induction_on generalizing depth cs members rest with
  | _ fuel ih =>
    cases fuel with
    | zero => cases h
    | succ fuel =>
      have hvalue {depth cs v rest} (h : value? fuel depth cs = .ok (v, rest)) : v.Tidy :=
        tidy_of_value? (fun n hn => ih n (by omega)) h
      unfold members? at h
      split at h
      · obtain ⟨⟨name, left⟩, -, h⟩ := Except.bind_eq_ok_iff.1 h
        dsimp only at h
        split at h
        · obtain ⟨⟨w, left⟩, hw, h⟩ := Except.bind_eq_ok_iff.1 h
          dsimp only at h
          split at h
          · cases h
            exact List.forall_mem_cons.2 ⟨hvalue hw, List.forall_mem_nil _⟩
          · split at h
            · cases h
            · obtain ⟨⟨later, left⟩, hlater, h⟩ := Except.bind_eq_ok_iff.1 h
              cases h
              exact List.forall_mem_cons.2 ⟨hvalue hw, ih fuel (by omega) hlater⟩
          · cases h
        · cases h
      · cases h

theorem eq_of_finish {α : Type} {a b : α} (h : Reader.finish a rest = .ok b) : b = a := by
  unfold Reader.finish at h
  dsimp only at h
  split at h
  · cases h
    rfl
  · cases h

end Reader

/-- **A value that was read is tidy.** -/
theorem tidy_of_ofText? {text : String} {v : Json} (h : ofText? text = .ok v) : v.Tidy := by
  unfold ofText? at h
  cases hread : (Reader.value? (Reader.fuelFor text.toList) depthLimit
      (Reader.skip text.toList) >>= fun found => Reader.finish found.1 found.2) with
  | error stop =>
    exact nomatch (congrArg (Except.mapError _) hread).symm.trans h
  | ok w =>
    obtain rfl := Except.ok.inj ((congrArg (Except.mapError _) hread).symm.trans h)
    obtain ⟨⟨u, rest⟩, hvalue, hfinish⟩ := Except.bind_eq_ok_iff.1 hread
    rw [Reader.eq_of_finish hfinish]
    exact Reader.tidy_of_value? (fun _ _ => Reader.tidy_of_members?) hvalue

end Json

/-- Settings are tidy if they were read from a tidy value. -/
theorem Settings.tidy_of_decode? {j : Json} {s : Settings} (hj : j.Tidy)
    (h : decode? j = some s) : s.Tidy := by
  cases j with
  | obj members =>
    obtain ⟨entries, hentries, he⟩ := Option.bind_eq_some_iff.1 h
    cases he
    intro e he
    obtain ⟨member, hmember, hread⟩ :=
      exists_of_mapM_eq_some hentries e (SortedMap.mem_of_mem_ofList he)
    cases hread
    exact hj.of_mem hmember
  | _ => cases h

end Reconciler
