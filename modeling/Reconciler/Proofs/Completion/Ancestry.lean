/-
What a resource inherits, told from the references between stored resources.

* `Inheritance.reference`: the template to which so many steps lead;
* `Inheritance.LeadsBack`, `LeadsAstray`: the references lead to where one was before, or to nothing
  that is stored;
* `Inheritance.Passes`: the templates that one passes on the way;
* `Inheritance.Ends`: how looking for templates ends.

Main statements:
* `Inheritance.peek_templates_cases`: looking for templates goes along a way, and ends;
* `Inheritance.Passes.length_le`: it cannot go on for longer than there are resources;
* `Inheritance.resolve_outcome`: what is inherited is the resource's own configuration on top of
  what its template inherits, unless the references lead back or astray.

Design notes:
* The resource itself counts as the start of the way, whether or not it is stored, so that a way
  that leads back to it does not lead astray.
* A limit greater than the number of stored resources is never reached.
-/
import Mathlib.Data.List.Perm.Subperm
import Reconciler.Proofs.Completion.Chain

namespace Reconciler.Inheritance

open Session

variable {env : Surroundings} {σ : Session} {s : Store} {c : Caller} {resource : String}
variable {limit : Nat} {visited visited' : List String} {next last : Option String}
variable {chain : List Template}

/-! ### References -/

/-- The template that a stored resource refers to. -/
def superRef? (s : Store) (oid : String) : Option String :=
  (s.find? oid).bind fun t => t.configuration.superRef

/-- Where `n` references lead, one after another. -/
def follow (s : Store) : Nat → Option String → Option String
  | 0, next => next
  | n + 1, next => follow s n (next.bind (superRef? s))

/-- The template to which the references of a resource lead after `n` others. -/
def reference (s : Store) (raw : Resource) (n : Nat) : Option String :=
  follow s n raw.configuration.superRef

/-- The references lead to the resource itself, or to a template for the second time. -/
def LeadsBack (s : Store) (raw : Resource) : Prop :=
  ∃ n oid, reference s raw n = some oid ∧
    (oid = raw.oid ∨ ∃ m < n, reference s raw m = some oid)

/-- The references lead to a template that is not stored, and not to the resource itself before
that. -/
def LeadsAstray (s : Store) (raw : Resource) : Prop :=
  ∃ n oid, reference s raw n = some oid ∧ s.find? oid = none ∧
    ∀ m ≤ n, reference s raw m ≠ some raw.oid

theorem follow_succ (s : Store) (n : Nat) (next : Option String) :
    follow s (n + 1) next = (follow s n next).bind (superRef? s) := by
  induction n generalizing next with
  | zero => rfl
  | succ n ih => exact ih _

/-- From a place where one was before, everything comes again. -/
theorem follow_of_repeats {m n : Nat} (h : follow s n next = follow s m next) (hmn : m < n)
    (k : Nat) : ∃ j < n, follow s k next = follow s j next := by
  induction k with
  | zero => exact ⟨0, by omega, rfl⟩
  | succ k ih =>
    obtain ⟨j, hj, hk⟩ := ih
    have hnext : follow s (k + 1) next = follow s (j + 1) next := by
      rw [follow_succ, follow_succ, hk]
    by_cases hlast : j + 1 = n
    · exact ⟨m, hmn, by rw [hnext, hlast, h]⟩
    · exact ⟨j + 1, by omega, hnext⟩

theorem follow_eq_none {k n : Nat} (h : (follow s k next).bind (superRef? s) = none) (hkn : k < n) :
    follow s n next = none := by
  induction n with
  | zero => omega
  | succ n ih =>
    rw [follow_succ]
    by_cases hk : k = n
    · rw [← hk, h]
    · rw [ih (by omega)]
      rfl

/-! ### The way -/

/-- From a reference one passes these templates, none of them visited before or twice, and comes to
the last reference. -/
inductive Passes (s : Store) : List String → Option String → List Template → Option String → Prop
  where
  | here (visited : List String) (next : Option String) : Passes s visited next [] next
  | on {visited : List String} {oid : String} {template : Resource} {chain : List Template}
      {last : Option String} (new : oid ∉ visited) (stored : s.find? oid = some template)
      (rest : Passes s (oid :: visited) template.configuration.superRef chain last) :
      Passes s visited (some oid) ((oid, template) :: chain) last

namespace Passes

theorem stored (h : Passes s visited next chain last) : ∀ t ∈ chain, s.find? t.1 = some t.2 := by
  induction h with
  | here => exact List.forall_mem_nil _
  | on _ stored _ ih => exact List.forall_mem_cons.2 ⟨stored, ih⟩

theorem new (h : Passes s visited next chain last) : ∀ t ∈ chain, t.1 ∉ visited := by
  induction h with
  | here => exact List.forall_mem_nil _
  | on new _ _ ih =>
    exact List.forall_mem_cons.2 ⟨new, fun t ht hv => ih t ht (List.mem_cons_of_mem _ hv)⟩

theorem nodup (h : Passes s visited next chain last) : (chain.map Prod.fst).Nodup := by
  induction h with
  | here => exact List.nodup_nil
  | on _ _ rest ih =>
    refine List.nodup_cons.2 ⟨fun hmem => ?_, ih⟩
    obtain ⟨t, ht, he⟩ := List.mem_map.1 hmem
    exact rest.new t ht (he ▸ List.mem_cons_self)

/-- One cannot pass more templates than there are resources. -/
theorem length_le (h : Passes s visited next chain last) : chain.length ≤ s.objects.size := by
  have hkeys : chain.map Prod.fst ⊆ s.objects.keys := by
    intro oid hoid
    obtain ⟨t, ht, rfl⟩ := List.mem_map.1 hoid
    have hfind : s.objects.get? t.1 = some t.2 := h.stored t ht
    rw [SortedMap.mem_keys_iff, hfind]
    rfl
  have hle := (List.subperm_of_subset h.nodup hkeys).length_le
  rwa [List.length_map, SortedMap.keys, List.length_map] at hle

/-- With fewer visited before, one passes the same templates. -/
theorem anti (h : Passes s visited next chain last) (hsub : visited' ⊆ visited) :
    Passes s visited' next chain last := by
  induction h generalizing visited' with
  | here => exact .here _ _
  | on new stored _ ih =>
    exact .on (fun hv => new (hsub hv)) stored (ih (List.cons_subset_cons _ hsub))

/-- The templates are those to which the references lead, in their order. -/
theorem follow_eq (h : Passes s visited next chain last) :
    follow s chain.length next = last ∧
      ∀ n (hn : n < chain.length), follow s n next = some (chain[n]).1 := by
  induction h with
  | here => exact ⟨rfl, fun n hn => absurd hn (Nat.not_lt_zero n)⟩
  | @on visited oid template chain last new stored rest ih =>
    have hstep : (some oid).bind (superRef? s) = template.configuration.superRef := by
      show (s.find? oid).bind _ = _
      rw [stored]
      rfl
    refine ⟨?_, fun n hn => ?_⟩
    · rw [List.length_cons, follow, hstep]
      exact ih.1
    · cases n with
      | zero => rfl
      | succ n =>
        rw [follow, hstep]
        exact ih.2 n (by simpa using hn)

theorem exists_mem (h : Passes s visited next chain last) {n : Nat} {oid : String}
    (hlt : n < chain.length) (hn : follow s n next = some oid) : ∃ t ∈ chain, t.1 = oid := by
  refine ⟨chain[n], List.getElem_mem hlt, ?_⟩
  rw [h.follow_eq.2 n hlt] at hn
  exact Option.some.inj hn

/-- No two references along the way are the same. -/
theorem follow_ne (h : Passes s visited next chain last) {m n : Nat} (hmn : m < n)
    (hlt : n < chain.length) : follow s m next ≠ follow s n next := by
  intro he
  rw [h.follow_eq.2 m (by omega), h.follow_eq.2 n hlt, Option.some.injEq] at he
  have hm : m < (chain.map Prod.fst).length := by rw [List.length_map]; omega
  have hn : n < (chain.map Prod.fst).length := by rw [List.length_map]; exact hlt
  refine List.pairwise_iff_getElem.1 h.nodup m n hm hn hmn ?_
  rw [List.getElem_map, List.getElem_map, he]

end Passes

/-! ### Looking for templates -/

/-- How looking for templates ends, when these were passed and this reference came last: with all of
them, where one was before, where nothing is stored, or at the limit. -/
inductive Ends (s : Store) (resource : String) (limit : Nat) (visited : List String)
    (chain : List Template) : Option String → Except ProvisioningError (List Template) → Prop
  where
  | whole : Ends s resource limit visited chain none (.ok chain)
  | back {oid : String} (before : oid ∈ visited ∨ ∃ t ∈ chain, t.1 = oid) :
      Ends s resource limit visited chain (some oid)
        (.error (.misconfiguration (.templateCycle oid resource)))
  | astray {oid : String} (new : oid ∉ visited ∧ ∀ t ∈ chain, t.1 ≠ oid)
      (missing : s.find? oid = none) :
      Ends s resource limit visited chain (some oid) (.error (.ofStore (.noResource oid)))
  | limited {oid : String} {outcome : Except ProvisioningError (List Template)}
      (reached : chain.length = limit) : Ends s resource limit visited chain (some oid) outcome

/-- From the resource before, looking ends in the same way. -/
theorem Ends.on {oid : String} {outcome : Except ProvisioningError (List Template)}
    (h : Ends s resource limit (oid :: visited) chain last outcome) (template : Resource) :
    Ends s resource (limit + 1) visited ((oid, template) :: chain) last
      (outcome.map ((oid, template) :: ·)) := by
  cases h with
  | whole => exact .whole
  | back before =>
    refine .back ?_
    rcases before with hvisited | ⟨t, ht, he⟩
    · rcases List.mem_cons.1 hvisited with rfl | hvisited
      · exact .inr ⟨(_, template), List.mem_cons_self, rfl⟩
      · exact .inl hvisited
    · exact .inr ⟨t, List.mem_cons_of_mem _ ht, he⟩
  | astray new missing =>
    refine .astray ⟨fun hvisited => new.1 (List.mem_cons_of_mem _ hvisited), ?_⟩ missing
    refine List.forall_mem_cons.2 ⟨?_, new.2⟩
    rintro rfl
    exact new.1 List.mem_cons_self
  | limited reached => exact .limited (by rw [List.length_cons, reached])

/-- Looking for templates goes along a way, and ends. -/
theorem peek_templates_cases (env : Surroundings) (σ : Session) (c : Caller) (resource : String)
    (limit : Nat) (visited : List String) (next : Option String) :
    ∃ chain last, Passes σ.store visited next chain last ∧
      Ends σ.store resource limit visited chain last
        (peek env σ (templates c resource limit visited next).run) := by
  induction limit generalizing visited next with
  | zero =>
    refine ⟨[], next, .here _ _, ?_⟩
    cases next with
    | none => exact .whole
    | some oid => exact .limited rfl
  | succ limit ih =>
    cases next with
    | none => exact ⟨[], none, .here _ _, .whole⟩
    | some oid =>
      rw [peek_templates_succ]
      by_cases hvisited : visited.contains oid = true
      · rw [if_pos hvisited]
        exact ⟨[], some oid, .here _ _, .back (.inl (List.contains_iff_mem.1 hvisited))⟩
      · rw [if_neg hvisited]
        have hnew : oid ∉ visited := fun hmem => hvisited (List.contains_iff_mem.2 hmem)
        cases hfind : σ.store.find? oid with
        | none =>
          exact ⟨[], some oid, .here _ _, .astray ⟨hnew, List.forall_mem_nil _⟩ hfind⟩
        | some template =>
          obtain ⟨chain, last, hpasses, hends⟩ :=
            ih (oid :: visited) template.configuration.superRef
          refine ⟨(oid, template) :: chain, last, .on hnew hfind hpasses, ?_⟩
          have hon := hends.on template
          dsimp only
          generalize peek env σ (templates c resource limit (oid :: visited)
            template.configuration.superRef).run = outcome at hon ⊢
          cases outcome <;> exact hon

/-- Whoever has a limit beyond it comes to the end of a way. -/
theorem peek_templates_of_passes (h : Passes σ.store visited next chain none)
    (hlimit : chain.length ≤ limit) :
    peek env σ (templates c resource limit visited next).run = .ok chain := by
  generalize hnone : (none : Option String) = last at h
  induction h generalizing limit with
  | here visited next =>
    cases hnone
    cases limit <;> rfl
  | @on visited oid template chain last new stored rest ih =>
    cases limit with
    | zero => exact absurd hlimit (by simp)
    | succ limit =>
      have hlimit : chain.length ≤ limit := by simpa using hlimit
      have hnew : ¬ visited.contains oid = true := fun hmem => new (List.contains_iff_mem.1 hmem)
      rw [peek_templates_succ, if_neg hnew, stored]
      dsimp only
      rw [ih hlimit hnone]

/-- A limit that was not reached may be raised. -/
theorem peek_templates_limit_succ
    (h : ∀ n, peek env σ (templates c resource limit visited next).run ≠
      .error (.misconfiguration (.templateDepth n resource))) :
    peek env σ (templates c resource (limit + 1) visited next).run =
      peek env σ (templates c resource limit visited next).run := by
  induction limit generalizing visited next with
  | zero =>
    cases next with
    | none => rfl
    | some oid =>
      rw [templates] at h ⊢
      rw [peek_templates_succ]
      by_cases hvisited : visited.contains oid = true
      · rw [if_pos hvisited, if_pos hvisited]
        rfl
      · rw [if_neg hvisited] at h
        exact (h _ rfl).elim
  | succ limit ih =>
    cases next with
    | none => rfl
    | some oid =>
      rw [peek_templates_succ] at h ⊢
      rw [peek_templates_succ]
      split
      · rfl
      · next hnew =>
        rw [if_neg hnew] at h
        cases hfind : σ.store.find? oid with
        | none => rfl
        | some template =>
          rw [hfind] at h
          dsimp only at h ⊢
          rw [ih fun n he => h n (by rw [he])]

/-- Looking for templates ends before a limit greater than the number of resources, however great it
is. -/
theorem peek_templates_limit {limit' : Nat} (hlimit : σ.store.objects.size < limit)
    (hle : limit ≤ limit') :
    peek env σ (templates c resource limit' visited next).run =
      peek env σ (templates c resource limit visited next).run := by
  induction hle with
  | refl => rfl
  | @step limit' hle ih =>
    rw [← ih]
    refine peek_templates_limit_succ fun n hdepth => ?_
    obtain ⟨chain, last, hpasses, hends⟩ :=
      peek_templates_cases env σ c resource limit' visited next
    have hlength : chain.length ≤ σ.store.objects.size := hpasses.length_le
    have hlimit' : limit ≤ limit' := hle
    rw [hdepth] at hends
    cases hends with
    | limited reached => omega

/-! ### What is inherited -/

/-- The versions of templates are those above the first, and its own. -/
theorem versions_cons {oid : String} {template : Resource} {above : List Template}
    (h : ∀ t ∈ above, t.1 ≠ oid) :
    versions ((oid, template) :: above) = (versions above).insert oid template.version := by
  refine SortedMap.ext_get? fun key => ?_
  have hlookup : (versions ((oid, template) :: above)).get? key =
      ((versions above).get? key <|> Assoc.lookup key [(oid, template.version)]) := by
    rw [versions, versions, SortedMap.get?_ofList, SortedMap.get?_ofList, List.map_cons,
      List.reverse_cons, Assoc.lookup_append]
  rw [hlookup, SortedMap.get?_insert]
  by_cases hkey : key = oid
  · -- The template is not above itself, so that its own version is the only one.
    have hnone : (versions above).get? key = none := by
      rw [versions, SortedMap.get?_ofList, Assoc.lookup_eq_none_iff]
      intro e he hkeye
      obtain ⟨t, ht, rfl⟩ := List.mem_map.1 (List.mem_reverse.1 he)
      exact h t ht (hkeye.symm.trans hkey)
    rw [hnone, if_pos hkey, Assoc.lookup_cons, if_pos hkey]
    rfl
  · rw [if_neg hkey, Assoc.lookup_cons, if_neg hkey, Assoc.lookup_nil]
    cases (versions above).get? key <;> rfl

/-- What a resource inherits from the repository as it is. -/
def inherited (env : Surroundings) (σ : Session) (c : Caller) (limit : Nat) (raw : Resource) :
    Except ProvisioningError Resolved :=
  (run env (resolve c limit raw).run σ).1

theorem inherited_eq (env : Surroundings) (σ : Session) (c : Caller) (limit : Nat)
    (raw : Resource) :
    inherited env σ c limit raw =
      (peek env σ (templates c raw.oid limit [raw.oid] raw.configuration.superRef).run).map
        fun chain => ⟨configuration raw.configuration chain, versions chain⟩ := by
  rw [inherited, (run_of_reading env (resolve_reads c limit raw) σ).1, resolve, peek_action_bind]
  cases peek env σ (templates c raw.oid limit [raw.oid] raw.configuration.superRef).run <;> rfl

section Ways

variable {raw : Resource} {oid : String}

/-- A way that ends where one was not before does not lead back. -/
theorem not_leadsBack (h : Passes s [raw.oid] raw.configuration.superRef chain last)
    (hend : last.bind (superRef? s) = none)
    (hnew : ∀ oid, last = some oid → oid ≠ raw.oid ∧ ∀ t ∈ chain, t.1 ≠ oid) :
    ¬ LeadsBack s raw := by
  rintro ⟨n, oid, hn, hback⟩
  have hle : n ≤ chain.length := by
    by_contra hlt
    have hnone : reference s raw n = none :=
      follow_eq_none (k := chain.length) (by rw [h.follow_eq.1, hend]) (by omega)
    rw [hnone] at hn
    cases hn
  by_cases hlt : n < chain.length
  · -- Along the way the templates are new, and none comes twice.
    rcases hback with rfl | ⟨m, hmn, hm⟩
    · obtain ⟨t, ht, hoid⟩ := h.exists_mem hlt hn
      exact h.new t ht (by rw [hoid]; exact List.mem_singleton_self _)
    · exact h.follow_ne hmn hlt (hm.trans hn.symm)
  · have hlength : n = chain.length := by omega
    have hlast : last = some oid := by
      rw [← h.follow_eq.1, ← hlength]
      exact hn
    obtain ⟨hself, hothers⟩ := hnew oid hlast
    rcases hback with hback | ⟨m, hmn, hm⟩
    · exact hself hback
    · obtain ⟨t, ht, hoid⟩ := h.exists_mem (by omega) hm
      exact hothers t ht hoid

theorem not_leadsAstray_of_none (h : Passes s [raw.oid] raw.configuration.superRef chain none) :
    ¬ LeadsAstray s raw := by
  rintro ⟨n, oid, hn, hmissing, -⟩
  by_cases hlt : n < chain.length
  · obtain ⟨t, ht, rfl⟩ := h.exists_mem hlt hn
    rw [h.stored t ht] at hmissing
    cases hmissing
  · have hnone : reference s raw n = none := by
      by_cases hlength : n = chain.length
      · rw [hlength]
        exact h.follow_eq.1
      · exact follow_eq_none (k := chain.length) (by rw [h.follow_eq.1]; rfl) (by omega)
    rw [hnone] at hn
    cases hn

theorem leadsBack_of_passes (h : Passes s [raw.oid] raw.configuration.superRef chain (some oid))
    (hback : oid ∈ [raw.oid] ∨ ∃ t ∈ chain, t.1 = oid) :
    LeadsBack s raw ∧ ¬ LeadsAstray s raw := by
  have hlast : reference s raw chain.length = some oid := h.follow_eq.1
  have hback : oid = raw.oid ∨ ∃ m < chain.length, reference s raw m = some oid := by
    rcases hback with hself | ⟨t, ht, rfl⟩
    · exact .inl (List.mem_singleton.1 hself)
    · obtain ⟨m, hm, rfl⟩ := List.getElem_of_mem ht
      exact .inr ⟨m, hm, h.follow_eq.2 m hm⟩
  refine ⟨⟨chain.length, oid, hlast, hback⟩, ?_⟩
  rintro ⟨n, oid', hn, hmissing, hother⟩
  -- Wherever the references lead, they led there along the way already.
  have hbefore : ∃ j < chain.length, reference s raw n = reference s raw j := by
    rcases hback with rfl | ⟨m, hm, hsame⟩
    · refine ⟨n, ?_, rfl⟩
      by_contra hge
      exact hother chain.length (by omega) hlast
    · exact follow_of_repeats (hlast.trans hsame.symm) hm n
  obtain ⟨j, hj, hsame⟩ := hbefore
  obtain ⟨t, ht, rfl⟩ := h.exists_mem hj (hsame.symm.trans hn)
  rw [h.stored t ht] at hmissing
  cases hmissing

theorem leadsAstray_of_passes (h : Passes s [raw.oid] raw.configuration.superRef chain (some oid))
    (hnew : oid ∉ [raw.oid] ∧ ∀ t ∈ chain, t.1 ≠ oid) (hmissing : s.find? oid = none) :
    LeadsAstray s raw := by
  have hlast : reference s raw chain.length = some oid := h.follow_eq.1
  refine ⟨chain.length, oid, hlast, hmissing, fun m hm hself => ?_⟩
  by_cases hlt : m < chain.length
  · obtain ⟨t, ht, hoid⟩ := h.exists_mem hlt hself
    exact h.new t ht (by rw [hoid]; exact List.mem_singleton_self _)
  · have hlength : m = chain.length := by omega
    rw [hlength, hlast, Option.some.injEq] at hself
    exact hnew.1 (by rw [hself]; exact List.mem_singleton_self _)

end Ways

/-- What is inherited comes from a way that ends, or else the references lead back or astray. -/
theorem inherited_cases (env : Surroundings) (σ : Session) (c : Caller) {limit : Nat}
    (hlimit : σ.store.objects.size < limit) (raw : Resource) :
    (∃ chain, Passes σ.store [raw.oid] raw.configuration.superRef chain none ∧
        inherited env σ c limit raw =
          .ok ⟨configuration raw.configuration chain, versions chain⟩ ∧
        ¬ LeadsBack σ.store raw ∧ ¬ LeadsAstray σ.store raw) ∨
      (∃ oid, inherited env σ c limit raw =
          .error (.misconfiguration (.templateCycle oid raw.oid)) ∧
        LeadsBack σ.store raw ∧ ¬ LeadsAstray σ.store raw) ∨
      ∃ oid, inherited env σ c limit raw = .error (.ofStore (.noResource oid)) ∧
        LeadsAstray σ.store raw ∧ ¬ LeadsBack σ.store raw := by
  rw [inherited_eq]
  obtain ⟨chain, last, hpasses, hends⟩ :=
    peek_templates_cases env σ c raw.oid limit [raw.oid] raw.configuration.superRef
  have hlength : chain.length ≤ σ.store.objects.size := hpasses.length_le
  generalize peek env σ (templates c raw.oid limit [raw.oid] raw.configuration.superRef).run =
    outcome at hends
  cases hends with
  | whole =>
    have hback : ¬ LeadsBack σ.store raw :=
      not_leadsBack hpasses rfl fun _ hnone => by cases hnone
    exact .inl ⟨chain, hpasses, rfl, hback, not_leadsAstray_of_none hpasses⟩
  | @back oid before => exact .inr (.inl ⟨oid, rfl, leadsBack_of_passes hpasses before⟩)
  | @astray oid new missing =>
    have hend : (some oid).bind (superRef? σ.store) = none := by
      show (σ.store.find? oid).bind _ = none
      rw [missing]
      rfl
    have hback : ¬ LeadsBack σ.store raw := by
      refine not_leadsBack hpasses hend fun oid' he => ?_
      cases he
      exact ⟨fun hself => new.1 (List.mem_singleton.2 hself), new.2⟩
    exact .inr (.inr ⟨oid, rfl, leadsAstray_of_passes hpasses new missing, hback⟩)
  | limited reached => omega

/-- A resource without a template has what it has itself; and what one with a template inherits is
put together from what that template inherits. -/
theorem inherited_of_passes (env : Surroundings) (σ : Session) (c : Caller) {limit : Nat}
    (hlimit : σ.store.objects.size < limit) {raw : Resource}
    (h : Passes σ.store [raw.oid] raw.configuration.superRef chain none) :
    match raw.configuration.superRef with
    | none => chain = []
    | some oid => ∃ template above, σ.store.find? oid = some template ∧
        inherited env σ c limit template = .ok above ∧
        configuration raw.configuration chain =
          raw.configuration.mergedOver above.configuration ∧
        versions chain = above.ancestorVersions.insert oid template.version := by
  generalize raw.configuration.superRef = next at h
  generalize hnone : (none : Option String) = last at h
  cases h with
  | here =>
    subst hnone
    rfl
  | @on _ oid template above _ new stored rest =>
    subst hnone
    -- From the template on, the way is the same, but the resource itself was not visited.
    have hown : Passes σ.store [template.oid] template.configuration.superRef above none := by
      rw [Store.oid_of_find? stored]
      exact rest.anti (List.cons_subset_cons _ (List.nil_subset _))
    have hlength : above.length ≤ limit := Nat.le_of_lt (Nat.lt_of_le_of_lt hown.length_le hlimit)
    have htemplates : peek env σ (templates c template.oid limit [template.oid]
        template.configuration.superRef).run = .ok above :=
      peek_templates_of_passes hown hlength
    have habove : ∀ t ∈ above, t.1 ≠ oid :=
      fun t ht he => rest.new t ht (he ▸ List.mem_cons_self)
    refine ⟨template, ⟨configuration template.configuration above, versions above⟩, stored, ?_,
      rfl, versions_cons habove⟩
    rw [inherited_eq, htemplates]
    rfl

/-- **Inheritance composes.**  Looking for what a resource inherits always comes to an end, the same
for every limit greater than the number of stored resources.  It fails with a cycle just when the
references lead back, and with a missing template just when they lead astray; and otherwise it gives
the resource's own configuration on top of what its template inherits, with the versions that its
template notes and the version of the template. -/
theorem resolve_outcome (env : Surroundings) (σ : Session) (c : Caller) {limit : Nat}
    (hlimit : σ.store.objects.size < limit) (raw : Resource) :
    (∀ limit', limit ≤ limit' → inherited env σ c limit' raw = inherited env σ c limit raw) ∧
      ((∃ oid, inherited env σ c limit raw =
          .error (.misconfiguration (.templateCycle oid raw.oid))) ↔ LeadsBack σ.store raw) ∧
      ((∃ oid, inherited env σ c limit raw =
          .error (.objectNotFound StoreError.resourceType oid)) ↔ LeadsAstray σ.store raw) ∧
      (¬ LeadsBack σ.store raw → ¬ LeadsAstray σ.store raw →
        ∃ found, inherited env σ c limit raw = .ok found ∧
          match raw.configuration.superRef with
          | none => found = ⟨raw.configuration, .empty⟩
          | some oid => ∃ template above, σ.store.find? oid = some template ∧
              inherited env σ c limit template = .ok above ∧
              found.configuration = raw.configuration.mergedOver above.configuration ∧
              found.ancestorVersions =
                above.ancestorVersions.insert oid template.version) := by
  refine ⟨fun limit' hle => ?_, ?_⟩
  · rw [inherited_eq, inherited_eq, peek_templates_limit hlimit hle]
  rcases inherited_cases env σ c hlimit raw with ⟨chain, hpasses, hok, hback, hastray⟩ |
    ⟨oid, herror, hback, hastray⟩ | ⟨oid, herror, hastray, hback⟩
  · rw [hok]
    refine ⟨⟨fun ⟨_, he⟩ => ?_, fun h => absurd h hback⟩,
      ⟨fun ⟨_, he⟩ => ?_, fun h => absurd h hastray⟩, fun _ _ => ⟨_, rfl, ?_⟩⟩
    · cases he
    · cases he
    · have hfound := inherited_of_passes env σ c hlimit hpasses
      split
      · next hnone =>
        rw [hnone] at hfound
        dsimp only at hfound
        rw [hfound]
        rfl
      · next oid hsome =>
        rw [hsome] at hfound
        exact hfound
  · rw [herror]
    refine ⟨⟨fun _ => hback, fun _ => ⟨oid, rfl⟩⟩, ⟨fun ⟨_, he⟩ => ?_, fun h => absurd h hastray⟩,
      fun h => absurd hback h⟩
    cases he
  · rw [herror]
    refine ⟨⟨fun ⟨_, he⟩ => ?_, fun h => absurd h hback⟩, ⟨fun _ => hastray, fun _ => ⟨oid, rfl⟩⟩,
      fun _ h => absurd hastray h⟩
    cases he

/-- A template with a connector. -/
def sampleRoot : Resource where
  oid := "directory"
  name := "directory"
  configuration := { connector := some ⟨"ldap", none⟩, isTemplate := true }

/-- A template on top of it. -/
def sampleBranch : Resource where
  oid := "branch"
  name := "branch"
  configuration := { superRef := some "directory", isTemplate := true }

/-- A resource that is not stored itself, with both templates above it. -/
def sampleLeaf : Resource where
  oid := "leaf"
  name := "leaf"
  configuration := { superRef := some "branch" }

/-- A repository with these templates. -/
def sampleSession : Session where
  world := { store := (Store.empty.put sampleRoot).put sampleBranch }

/-- Surroundings that have nothing to do with it. -/
def sampleSurroundings : Surroundings := ⟨fun _ _ => .error default, fun _ => default⟩

/-- The resource has what its template inherits from the one above. -/
theorem resolve_outcome_sample : sampleSession.store.objects.size < 3 ∧
    ∃ found template above,
      inherited sampleSurroundings sampleSession default 3 sampleLeaf = .ok found ∧
      sampleSession.store.find? "branch" = some template ∧
      inherited sampleSurroundings sampleSession default 3 template = .ok above ∧
      found.configuration = sampleLeaf.configuration.mergedOver above.configuration ∧
      found.ancestorVersions = above.ancestorVersions.insert "branch" template.version := by
  have hlimit : sampleSession.store.objects.size < 3 := by decide
  obtain ⟨-, hback, hastray, hcomposes⟩ :=
    resolve_outcome sampleSurroundings sampleSession default hlimit sampleLeaf
  have hok : (inherited sampleSurroundings sampleSession default 3 sampleLeaf).toBool = true := by
    decide +kernel
  have hleadsBack : ¬ LeadsBack sampleSession.store sampleLeaf := by
    intro h
    obtain ⟨_, he⟩ := hback.2 h
    rw [he] at hok
    cases hok
  have hleadsAstray : ¬ LeadsAstray sampleSession.store sampleLeaf := by
    intro h
    obtain ⟨_, he⟩ := hastray.2 h
    rw [he] at hok
    cases hok
  obtain ⟨found, hfound, template, above, h⟩ := hcomposes hleadsBack hleadsAstray
  exact ⟨hlimit, found, template, above, hfound, h⟩

end Reconciler.Inheritance
