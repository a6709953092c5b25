/-
What a version says about a resource in the repository.

* `Store.Step`, `Store.after`: requests and removals of everything, and what they leave behind;
* `Store.Stays`: a resource is there at every moment;
* `Store.Step.on`: what a step makes of a resource that stays.

Main statements:
* `Store.find?_after`: what stays is what it was, with the changes since made to it one by one;
* `Store.sequence_after`: its version counts them, up to the last version;
* `Store.read_eq_of_version_eq`: of a resource that stays, the same version at two moments means
  the same content;
* `Store.exists_after_version`: where resources may be deleted, any content can come under any
  version.

Design notes:
* A version is forgotten with its resource.  A resource that is added again starts anew, and takes
  versions that the former one had.
-/
import Mathlib.Data.List.Infix
import Reconciler.Proofs.Cache.Freshness
import Reconciler.Proofs.Completion.Gate

namespace Reconciler

theorem Version.sequence_next (v : Version) :
    v.next.sequence = min lastSequence (v.sequence + 1) := by
  have := v.le_last
  unfold next
  split
  · dsimp only
    omega
  · omega

namespace Store

/-! ### Runs -/

/-- A step of the repository. -/
inductive Step where
  /-- A request, with the OID that a resource without one takes. -/
  | request (fresh : String) (r : StoreRequest)
  /-- Everything is removed. -/
  | clear

/-- The repository after a step. -/
def next (s : Store) : Step → Store
  | .request fresh r => (s.answer fresh r).2
  | .clear => empty

/-- The repository after a run. -/
def after (s : Store) (steps : List Step) : Store := steps.foldl next s

/-- A resource is there at every moment of a run. -/
def Stays (s : Store) (oid : String) (steps : List Step) : Prop :=
  ∀ earlier, earlier <+: steps → (s.after earlier).find? oid ≠ none

instance (s : Store) (oid : String) (steps : List Step) : Decidable (s.Stays oid steps) :=
  decidable_of_iff (∀ earlier ∈ steps.inits, ((s.after earlier).find? oid).isSome = true) <| by
    simp only [List.mem_inits, Option.isSome_iff_ne_none, Stays]

/-- Whether a step is to change a resource. -/
def Step.modifies (oid : String) : Step → Bool
  | .request _ (.modify key _) => key == oid
  | _ => false

/-- What a step makes of the resource with an OID, if it stays. -/
def Step.on (oid : String) (r : Resource) : Step → Resource
  | .request _ (.modify key changes) => if key = oid then changed r changes else r
  | _ => r

variable {s : Store} {oid : String} {r : Resource} {v : Version} {step : Step} {steps : List Step}

theorem Stays.tail (h : s.Stays oid (step :: steps)) : (s.next step).Stays oid steps :=
  fun earlier hearlier => h (step :: earlier) (List.cons_prefix_cons.2 ⟨rfl, hearlier⟩)

theorem Stays.find?_next (h : s.Stays oid (step :: steps)) : (s.next step).find? oid ≠ none :=
  h.tail [] List.nil_prefix

/-! ### What a step is to change -/

theorem Step.version_on (oid : String) (r : Resource) (step : Step) :
    (step.on oid r).version = if step.modifies oid then r.version.next else r.version := by
  cases step with
  | clear => rfl
  | request fresh request =>
    cases request with
    | modify key changes =>
      by_cases hkey : key = oid
      · simp [on, modifies, hkey]
      · simp [on, modifies, hkey]
    | _ => rfl

theorem Step.on_eq_of_not_modifies (h : step.modifies oid = false) (r : Resource) :
    step.on oid r = r := by
  cases step with
  | clear => rfl
  | request fresh request =>
    cases request with
    | modify key changes =>
      have hkey : key ≠ oid := by simpa [modifies] using h
      exact if_neg hkey
    | _ => rfl

theorem foldl_on_of_not_modifies (h : ∀ step ∈ steps, step.modifies oid = false) (r : Resource) :
    steps.foldl (Step.on oid) r = r := by
  induction steps with
  | nil => rfl
  | cons step steps ih =>
    obtain ⟨hstep, hsteps⟩ := List.forall_mem_cons.1 h
    rw [List.foldl_cons, Step.on_eq_of_not_modifies hstep, ih hsteps]

/-! ### What a request leaves behind -/

theorem find?_answer_add (h : s.find? oid = some r) (fresh : String) (x : Resource) :
    (s.answer fresh (.add x)).2.find? oid = some r := by
  unfold answer
  dsimp only
  cases hadd : s.add fresh x with
  | error e => exact h
  | ok added =>
    obtain ⟨key, s'⟩ := added
    -- Under the new OID there was nothing.
    have hne : oid ≠ key := by
      rintro rfl
      rw [find?_of_add hadd] at h
      cases h
    show s'.find? oid = some r
    rw [read_add hadd, if_neg hne, h]

theorem find?_answer_modify (s : Store) (fresh key oid : String) (changes : List ResourceChange) :
    (s.answer fresh (.modify key changes)).2.find? oid =
      (s.find? oid).map fun r => if key = oid then changed r changes else r := by
  unfold answer
  dsimp only
  cases hmodify : s.modify key changes with
  | error e =>
    -- Nothing can be modified where there is nothing.
    cases hr : s.find? oid with
    | none => rfl
    | some r =>
      have hne : key ≠ oid := by
        rintro rfl
        rw [modify, read_eq, hr] at hmodify
        cases hmodify
      rw [Option.map_some, if_neg hne]
  | ok modified =>
    obtain ⟨v, s'⟩ := modified
    show s'.find? oid = _
    rw [read_modify hmodify]
    by_cases hkey : key = oid
    · simp [hkey]
    · simp [hkey, Ne.symm hkey]

theorem find?_answer_delete (s : Store) (fresh key oid : String) :
    (s.answer fresh (.delete key)).2.find? oid = if oid = key then none else s.find? oid := by
  unfold answer
  dsimp only
  cases hdelete : s.delete key with
  | error e =>
    have hnone : s.find? key = none := by
      unfold delete at hdelete
      split at hdelete
      · assumption
      · cases hdelete
    show s.find? oid = _
    split
    · next hkey => rw [hkey, hnone]
    · rfl
  | ok s' => exact read_delete hdelete oid

/-! ### What stays -/

/-- Of a resource that stays, a step changes what it is to change. -/
theorem find?_next (h : s.find? oid = some r) (hstays : (s.next step).find? oid ≠ none) :
    (s.next step).find? oid = some (step.on oid r) := by
  cases step with
  | clear => exact absurd rfl hstays
  | request fresh request =>
    cases request with
    | read | version | search | count => exact h
    | add x => exact find?_answer_add h fresh x
    | modify key changes =>
      refine (s.find?_answer_modify fresh key oid changes).trans ?_
      rw [h]
      rfl
    | delete key =>
      have hdelete := s.find?_answer_delete fresh key oid
      have hne : oid ≠ key := fun hkey => hstays (hdelete.trans (if_pos hkey))
      exact hdelete.trans ((if_neg hne).trans h)

/-- **What stays is what it was, with the changes since made to it one by one.** -/
theorem find?_after (h : s.find? oid = some r) (hstays : s.Stays oid steps) :
    (s.after steps).find? oid = some (steps.foldl (Step.on oid) r) := by
  induction steps generalizing s r with
  | nil => exact h
  | cons step steps ih => exact ih (find?_next h hstays.find?_next) hstays.tail

/-- The version of what stays counts the changes to it, up to the last version. -/
theorem sequence_foldl_on (oid : String) (steps : List Step) (r : Resource) :
    (steps.foldl (Step.on oid) r).version.sequence =
      min Version.lastSequence (r.version.sequence + steps.countP (Step.modifies oid)) := by
  induction steps generalizing r with
  | nil => exact (Nat.min_eq_right r.version.le_last).symm
  | cons step steps ih =>
    rw [List.foldl_cons, ih, Step.version_on, List.countP_cons]
    split
    · rw [Version.sequence_next]
      omega
    · omega

theorem version_eq_ok_iff : s.version oid = .ok v ↔ ∃ r, s.find? oid = some r ∧ r.version = v := by
  rw [version, read_eq]
  constructor
  · intro h
    cases hr : s.find? oid with
    | none =>
      rw [hr] at h
      cases h
    | some r =>
      rw [hr] at h
      exact ⟨r, rfl, Except.ok.inj h⟩
  · rintro ⟨r, hr, rfl⟩
    rw [hr]
    rfl

theorem sequence_after (h : s.version oid = .ok v) (hstays : s.Stays oid steps) :
    ∃ v', (s.after steps).version oid = .ok v' ∧
      v'.sequence = min Version.lastSequence
        (v.sequence + steps.countP (Step.modifies oid)) := by
  obtain ⟨r, hr, rfl⟩ := version_eq_ok_iff.1 h
  exact ⟨_, version_eq_ok_iff.2 ⟨_, find?_after hr hstays, rfl⟩, sequence_foldl_on oid steps r⟩

/-- **A version below the last one identifies the content of a resource as long as it stays**: who
sees it at two moments sees the same, and no request in between was to change it. -/
theorem read_eq_of_version_eq (h : s.version oid = .ok v)
    (hafter : (s.after steps).version oid = .ok v) (hstays : s.Stays oid steps)
    (hlast : v.sequence < Version.lastSequence) :
    (s.after steps).read oid = s.read oid ∧ ∀ step ∈ steps, step.modifies oid = false := by
  obtain ⟨v', hv', hcount⟩ := sequence_after h hstays
  rw [hafter] at hv'
  cases hv'
  have hnone : steps.countP (Step.modifies oid) = 0 := by omega
  have hquiet : ∀ step ∈ steps, step.modifies oid = false := by
    simpa [List.countP_eq_zero] using hnone
  obtain ⟨r, hr, -⟩ := version_eq_ok_iff.1 h
  refine ⟨?_, hquiet⟩
  rw [read_eq, read_eq, find?_after hr hstays, foldl_on_of_not_modifies hquiet, hr]

/-- A template and an heir of it are added, and the heir gets a new name. -/
def sampleEarlier : List Step := [
  .request "" (.add Completion.sampleTemplate), .request "" (.add Completion.sampleHeir),
  .request "" (.modify "heir" [.rename "First"])]

/-- The template is changed and goes. -/
def sampleLater : List Step := [
  .request "" (.modify "directory" [.rename "Other"]), .request "" (.read "heir"),
  .request "" (.delete "directory")]

/-- The heir is still what it was. -/
theorem read_eq_of_version_eq_sample : ∃ v,
    (empty.after sampleEarlier).version "heir" = .ok v ∧
      ((empty.after sampleEarlier).after sampleLater).version "heir" = .ok v ∧
      (empty.after sampleEarlier).Stays "heir" sampleLater ∧ v.sequence < Version.lastSequence ∧
      ((empty.after sampleEarlier).after sampleLater).read "heir" =
        (empty.after sampleEarlier).read "heir" := by
  have hstays : (empty.after sampleEarlier).Stays "heir" sampleLater := by decide +kernel
  exact ⟨Version.initial.next, rfl, rfl, hstays, by decide,
    (read_eq_of_version_eq rfl rfl hstays (by decide)).1⟩

/-! ### What goes and comes back -/

theorem find?_next_add {x : Resource} (h : s.find? x.oid = none) (hx : x.oid ≠ "")
    (fresh : String) :
    (s.next (.request fresh (.add x))).find? x.oid = some { x with version := .initial } := by
  show (s.answer fresh (.add x)).2.find? x.oid = _
  unfold answer
  dsimp only
  cases hadd : s.add fresh x with
  | error e =>
    simp [add, h, hx] at hadd
  | ok added =>
    obtain ⟨key, s'⟩ := added
    have hkey : x.oid = key := by
      simp [add, h, hx] at hadd
      exact hadd.1
    show s'.find? x.oid = _
    rw [read_add hadd, if_pos hkey, hkey]

/-- What is there can be brought to any later version without a change of content. -/
theorem find?_after_replicate (h : s.find? oid = some r) (n : Nat) :
    ∃ v, v.sequence = min Version.lastSequence (r.version.sequence + n) ∧
      (s.after (List.replicate n (.request "" (.modify oid [])))).find? oid =
        some { r with version := v } := by
  induction n generalizing s r with
  | zero => exact ⟨r.version, (Nat.min_eq_right r.version.le_last).symm, h⟩
  | succ n ih =>
    have hnext : (s.next (.request "" (.modify oid []))).find? oid = some (changed r []) := by
      refine (s.find?_answer_modify "" oid oid []).trans ?_
      rw [h, Option.map_some, if_pos rfl]
    obtain ⟨v, hv, hfind⟩ := ih hnext
    refine ⟨v, ?_, hfind⟩
    rw [hv, changed_version, Version.sequence_next]
    omega

/-- Where resources may be deleted, versions say nothing: any content can come under any version. -/
theorem exists_after_version (s : Store) (hoid : oid ≠ "") (v : Version) (other : Resource) :
    ∃ steps, (s.after steps).find? oid = some { other with oid := oid, version := v } := by
  let again : Resource := { other with oid := oid }
  have hgone : (s.next (.request "" (.delete oid))).find? oid = none :=
    (s.find?_answer_delete "" oid oid).trans (if_pos rfl)
  have hback := find?_next_add (x := again) hgone hoid ""
  obtain ⟨v', hv', hfind⟩ := find?_after_replicate hback v.sequence
  have hversion : v' = v := by
    have := v.le_last
    refine Version.ext ?_
    rw [hv']
    show min _ (0 + _) = _
    omega
  refine ⟨.request "" (.delete oid) :: .request "" (.add again) ::
    List.replicate v.sequence (.request "" (.modify oid [])), ?_⟩
  exact hversion ▸ hfind

/-- A resource goes and comes back. -/
def sampleReturn : List Step := [
  .request "" (.delete "heir"), .request "" (.add { Completion.sampleHeir with name := "Second" }),
  .request "" (.modify "heir" [])]

/-- What comes back has a version that it had, and another content. -/
theorem version_comes_back : ∃ v,
    (empty.after sampleEarlier).version "heir" = .ok v ∧
      (empty.after (sampleEarlier ++ sampleReturn)).version "heir" = .ok v ∧
      (empty.after (sampleEarlier ++ sampleReturn)).read "heir" ≠
        (empty.after sampleEarlier).read "heir" := by
  refine ⟨Version.initial.next, rfl, rfl, fun h => ?_⟩
  have hname : "Second" = "First" := congrArg Resource.name (Except.ok.inj h)
  exact absurd hname (by decide)

end Store

end Reconciler
