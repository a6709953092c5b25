/-
What the completion of a resource depends on.

Main statements:
* `Inheritance.templates_reads`, `Completion.run_reads`: completing only reads;
* `Completion.exists_chain`: a completion that succeeds used some templates as they are stored, and
  comes out the same wherever just these are stored alike, whoever asks for it.
-/
import Reconciler.Proofs.Session

namespace Reconciler

open Session

variable {env : Surroundings} {σ τ : Session}

/-! ### Templates -/

namespace Inheritance

theorem templates_succ (c : Caller) (resource : String) (limit : Nat) (visited : List String)
    (oid : String) :
    templates c resource (limit + 1) visited (some oid) =
      if visited.contains oid = true then
        throw (.misconfiguration (.templateCycle oid resource))
      else do
        let template ← Action.store (.read oid)
        c.remark .debug
          s!"Resource {resource} inherits from {oid} (version {template.version.toText})"
        let rest ← templates c resource limit (oid :: visited) template.configuration.superRef
        return (oid, template) :: rest := by
  rw [templates]
  split <;> rfl

theorem templates_reads (c : Caller) (resource : String) (limit : Nat) (visited : List String)
    (next : Option String) :
    (templates c resource limit visited next).run.Asks Request.Reads := by
  induction limit generalizing visited next with
  | zero =>
    cases next with
    | none => trivial
    | some oid =>
      rw [templates]
      split <;> trivial
  | succ limit ih =>
    cases next with
    | none => trivial
    | some oid =>
      rw [templates_succ]
      split
      · trivial
      · refine .action_bind ⟨trivial, fun _ => trivial⟩ fun template => ?_
        refine .action_bind ⟨trivial, fun _ => trivial⟩ fun _ => ?_
        exact .action_bind (ih _ _) fun _ => trivial

/-- Who asks for templates does not matter. -/
theorem peek_templates_succ (c : Caller) (resource : String) (limit : Nat) (visited : List String)
    (oid : String) :
    peek env σ (templates c resource (limit + 1) visited (some oid)).run =
      if visited.contains oid = true then
        .error (.misconfiguration (.templateCycle oid resource))
      else
        match σ.store.find? oid with
        | none => .error (.ofStore (.noResource oid))
        | some template =>
          match peek env σ
            (templates c resource limit (oid :: visited) template.configuration.superRef).run with
          | .error e => .error e
          | .ok rest => .ok ((oid, template) :: rest) := by
  rw [templates_succ]
  split
  · rfl
  · have hread : peek env σ (Action.store (.read oid)).run = (σ.store.read oid).mapError .ofStore :=
      rfl
    rw [peek_action_bind, hread, Store.read_eq]
    cases σ.store.find? oid with
    | none => rfl
    | some template =>
      show peek env σ
        (templates c resource limit (oid :: visited) template.configuration.superRef >>= fun rest =>
          (return (oid, template) :: rest : Action (List Template))).run = _
      rw [peek_action_bind]
      dsimp only
      cases peek env σ
        (templates c resource limit (oid :: visited) template.configuration.superRef).run <;> rfl

/-- Templates are read as they are stored, and are the same wherever these are stored alike, whoever
reads them. -/
theorem peek_templates {c : Caller} {resource : String} {limit : Nat} {visited : List String}
    {next : Option String} {chain : List Template}
    (h : peek env σ (templates c resource limit visited next).run = .ok chain) :
    (∀ t ∈ chain, σ.store.find? t.1 = some t.2) ∧
      ∀ (τ : Session) (c' : Caller), (∀ t ∈ chain, τ.store.find? t.1 = some t.2) →
        peek env τ (templates c' resource limit visited next).run = .ok chain := by
  induction limit generalizing visited next chain with
  | zero =>
    cases next with
    | none =>
      cases h
      exact ⟨List.forall_mem_nil _, fun _ _ _ => rfl⟩
    | some oid =>
      rw [templates] at h
      split at h <;> cases h
  | succ limit ih =>
    cases next with
    | none =>
      cases h
      exact ⟨List.forall_mem_nil _, fun _ _ _ => rfl⟩
    | some oid =>
      -- One template is read, and the rest by induction from its own reference.
      rw [peek_templates_succ] at h
      split at h
      · cases h
      · next hnew =>
        split at h
        · cases h
        · next template hfind =>
          split at h
          · cases h
          · next rest hrest =>
            cases h
            obtain ⟨hstored, hagain⟩ := ih hrest
            refine ⟨List.forall_mem_cons.2 ⟨hfind, hstored⟩, fun τ c' hτ => ?_⟩
            obtain ⟨hfirst, hothers⟩ := List.forall_mem_cons.1 hτ
            rw [peek_templates_succ, if_neg hnew]
            dsimp only at hfirst
            rw [hfirst]
            dsimp only
            rw [hagain τ c' hothers]

/-- Templates that are each stored as read have their own versions among the versions of all. -/
theorem get?_versions {chain : List Template} {s : Store}
    (h : ∀ t ∈ chain, s.find? t.1 = some t.2) {t : Template} (ht : t ∈ chain) :
    (versions chain).get? t.1 = some t.2.version := by
  have hversion : ∀ e ∈ chain.map fun t => (t.1, t.2.version),
      some e.2 = (s.find? e.1).map Resource.version := by
    intro e he
    obtain ⟨u, hu, rfl⟩ := List.mem_map.1 he
    rw [h u hu]
    rfl
  have hkey : t.1 ∈ (chain.map fun t => (t.1, t.2.version)).map Prod.fst := by
    rw [List.map_map]
    exact List.mem_map_of_mem ht
  rw [versions, SortedMap.get?_ofList_of_mem (fun oid => (s.find? oid).map Resource.version)
    hversion hkey, h t ht]
  rfl

theorem resolve_reads (c : Caller) (limit : Nat) (r : Resource) :
    (resolve c limit r).run.Asks Request.Reads :=
  .action_bind (templates_reads c r.oid limit _ _) fun _ => trivial

/-- What is inherited comes from templates as they are stored. -/
theorem exists_chain_of_resolve {c : Caller} {limit : Nat} {r : Resource} {resolved : Resolved}
    (h : peek env σ (resolve c limit r).run = .ok resolved) :
    ∃ chain : List Template, resolved.ancestorVersions = versions chain ∧
      (∀ t ∈ chain, σ.store.find? t.1 = some t.2) ∧
      ∀ (τ : Session) (c' : Caller), (∀ t ∈ chain, τ.store.find? t.1 = some t.2) →
        peek env τ (resolve c' limit r).run = .ok resolved := by
  unfold resolve at h
  rw [peek_action_bind] at h
  split at h
  · next chain hchain =>
    cases h
    obtain ⟨hstored, hagain⟩ := peek_templates hchain
    refine ⟨chain, rfl, hstored, fun τ c' hτ => ?_⟩
    unfold resolve
    rw [peek_action_bind, hagain τ c' hτ]
    rfl
  · cases h

end Inheritance

/-! ### Steps after that -/

namespace Completion

theorem fetch_reads (c : Caller) (configuration : Configuration) :
    (fetch c configuration).run.Asks Request.Reads := by
  unfold fetch
  split
  · trivial
  · refine .action_bind ⟨trivial, fun _ => trivial⟩ fun schema => ?_
    refine .action_bind ⟨trivial, fun _ => trivial⟩ fun capabilities => ?_
    exact .action_bind ⟨trivial, fun _ => trivial⟩ fun _ => trivial

theorem native_reads (c : Caller) (noFetch : Bool) (configuration : Configuration) :
    (native c noFetch configuration).run.Asks Request.Reads := by
  unfold native
  split
  · trivial
  · exact .action_bind (fetch_reads c configuration) fun _ => trivial

theorem finish_reads (c : Caller) (o : Completion) : (finish c o).Asks Request.Reads := by
  unfold finish
  split <;> exact .bind ⟨trivial, fun _ => trivial⟩ fun _ => trivial

/-- Completing a resource only reads. -/
theorem run_reads (c : Caller) (mode : Mode) (raw : Resource) :
    (run c mode raw).Asks Request.Reads := by
  unfold run
  split
  · trivial
  · refine .bind ⟨trivial, fun _ => trivial⟩ fun _ => ?_
    refine .bind (Inheritance.resolve_reads c mode.templateLimit raw) fun inherited => ?_
    cases inherited with
    | error e => exact finish_reads c _
    | ok inherited =>
      refine .bind (native_reads c mode.noFetch inherited.configuration) fun found => ?_
      cases found with
      | error e => exact finish_reads c _
      | ok found =>
        dsimp only
        split
        · exact .bind ⟨trivial, fun _ => trivial⟩ fun _ => finish_reads c _
        · exact finish_reads c _

theorem peek_connector (σ : Session) (target : Target) (r : ConnectorRequest) :
    peek env σ (Action.connector target r).run = (env.connectors target r).mapError .ofConnector :=
  rfl

/-- What a connector has is known alike to everyone at any time. -/
theorem peek_native (σ τ : Session) (c c' : Caller) (noFetch : Bool)
    (configuration : Configuration) :
    peek env σ (native c noFetch configuration).run =
      peek env τ (native c' noFetch configuration).run := by
  have hfetch :
      peek env σ (fetch c configuration).run = peek env τ (fetch c' configuration).run := by
    unfold fetch
    cases configuration.connector with
    | none => rfl
    | some connector =>
      dsimp only
      rw [peek_action_bind, peek_action_bind, peek_connector, peek_connector]
      cases env.connectors ⟨connector, configuration.connectorSettings⟩ .schema with
      | error e => rfl
      | ok schema =>
        dsimp only [Except.mapError]
        rw [peek_action_bind, peek_action_bind, peek_connector, peek_connector]
        cases env.connectors ⟨connector, configuration.connectorSettings⟩ .capabilities <;> rfl
  unfold native
  split
  · rfl
  · rw [peek_action_bind, peek_action_bind, hfetch]
    cases peek env τ (fetch c' configuration).run <;> rfl

theorem peek_finish (c : Caller) (o : Completion) : peek env σ (finish c o) = o := by
  unfold finish
  split <;> rfl

theorem run_of_completed (c : Caller) (mode : Mode) {raw : Resource} (h : raw.isCompleted = true) :
    run c mode raw = pure ⟨raw, .success, []⟩ := by
  unfold run
  rw [if_pos h]

/-- A resource with what it inherits. -/
def inheriting (raw : Resource) (inherited : Inheritance.Resolved) : Resource :=
  { raw with
    completionStatus := .notCompleted
    configuration := inherited.configuration
    ancestorVersions := inherited.ancestorVersions }

/-- The outcome of a completion, step by step. -/
theorem peek_run (c : Caller) (mode : Mode) {raw : Resource} (h : raw.isCompleted = false) :
    peek env σ (run c mode raw) =
      match peek env σ (Inheritance.resolve c mode.templateLimit raw).run with
      | .error e =>
        conclude { raw with completionStatus := .notCompleted } .success [⟨.fatalError, e⟩]
      | .ok inherited =>
        match peek env σ (native c mode.noFetch inherited.configuration).run with
        | .error e => conclude (inheriting raw inherited) .success [⟨.fatalError, e⟩]
        | .ok (native, found) => assemble (inheriting raw inherited) native found := by
  unfold run
  rw [if_neg (by rw [h]; exact Bool.false_ne_true), peek_bind, peek_bind]
  dsimp only
  cases peek env σ (Inheritance.resolve c mode.templateLimit raw).run with
  | error e => exact peek_finish c _
  | ok inherited =>
    dsimp only
    rw [peek_bind]
    cases peek env σ (native c mode.noFetch inherited.configuration).run with
    | error e => exact peek_finish c _
    | ok found =>
      obtain ⟨native, found⟩ := found
      dsimp only
      -- Whether there is a remark on the schema does not matter.
      split
      · exact peek_finish c _
      · exact peek_finish c _

theorem conclude_fatal (definition : Resource) (e : ProvisioningError) :
    (conclude definition .success [⟨.fatalError, e⟩]).status.isFatal = true := rfl

/-- What completion takes over from a resource and its templates. -/
theorem assemble_keeps (definition : Resource) (native : Native) (found : Findings) :
    (assemble definition native found).definition.oid = definition.oid ∧
      (assemble definition native found).definition.version = definition.version ∧
      (assemble definition native found).definition.ancestorVersions =
        definition.ancestorVersions := by
  obtain ⟨schema, capabilities⟩ := native
  unfold assemble
  dsimp only
  split
  · exact ⟨rfl, rfl, rfl⟩
  · cases schema <;> cases capabilities <;> exact ⟨rfl, rfl, rfl⟩

/-- Completing a resource comes out like this wherever these templates are stored. -/
def ComesOut (env : Surroundings) (mode : Mode) (raw : Resource) (chain : List Inheritance.Template)
    (o : Completion) : Prop :=
  ∀ (τ : Session) (c : Caller), (∀ t ∈ chain, τ.store.find? t.1 = some t.2) →
    peek env τ (run c mode raw) = o

/-- A completion that succeeds found its templates and what the connector has. -/
theorem exists_assembled {c : Caller} {mode : Mode} {raw : Resource}
    (hraw : raw.isCompleted = false) (h : (peek env σ (run c mode raw)).status.isFatal = false) :
    ∃ inherited had found,
      peek env σ (Inheritance.resolve c mode.templateLimit raw).run = .ok inherited ∧
      peek env σ (native c mode.noFetch inherited.configuration).run = .ok (had, found) ∧
      peek env σ (run c mode raw) = assemble (inheriting raw inherited) had found := by
  rw [peek_run c mode hraw] at h ⊢
  cases hresolve : peek env σ (Inheritance.resolve c mode.templateLimit raw).run with
  | error e =>
    rw [hresolve] at h
    dsimp only at h
    rw [conclude_fatal] at h
    cases h
  | ok inherited =>
    rw [hresolve] at h
    dsimp only at h
    cases hnative : peek env σ (native c mode.noFetch inherited.configuration).run with
    | error e =>
      rw [hnative] at h
      dsimp only at h
      rw [conclude_fatal] at h
      cases h
    | ok found =>
      refine ⟨inherited, found.1, found.2, rfl, hnative, ?_⟩
      dsimp only
      rw [hnative]

/-- A completion that succeeds is up to the resource and to some templates, whose versions it
notes. -/
theorem exists_chain {c : Caller} {mode : Mode} {raw : Resource}
    (h : (peek env σ (run c mode raw)).status.isFatal = false) :
    (peek env σ (run c mode raw)).definition.oid = raw.oid ∧
      (peek env σ (run c mode raw)).definition.version = raw.version ∧
      ∃ chain : List Inheritance.Template, (∀ t ∈ chain, σ.store.find? t.1 = some t.2) ∧
        (∀ t ∈ chain, (peek env σ (run c mode raw)).definition.ancestorVersions.get? t.1 =
          some t.2.version) ∧
        ComesOut env mode raw chain (peek env σ (run c mode raw)) := by
  cases hraw : raw.isCompleted with
  | true =>
    -- Whatever versions the resource notes itself, nothing is read.
    have hleft : ∀ (τ : Session) (c' : Caller),
        peek env τ (run c' mode raw) = ⟨raw, .success, []⟩ := by
      intro τ c'
      rw [run_of_completed c' mode hraw, peek_pure]
    rw [hleft]
    exact ⟨rfl, rfl, [], List.forall_mem_nil _, List.forall_mem_nil _, fun τ c' _ => hleft τ c'⟩
  | false =>
    obtain ⟨inherited, had, found, hresolve, hnative, hrun⟩ := exists_assembled hraw h
    obtain ⟨chain, hversions, hstored, hagain⟩ := Inheritance.exists_chain_of_resolve hresolve
    obtain ⟨hoid, hversion, hancestors⟩ := assemble_keeps (inheriting raw inherited) had found
    rw [hrun]
    refine ⟨hoid, hversion, chain, hstored, fun t ht => ?_, fun τ c' hτ => ?_⟩
    · rw [hancestors]
      show inherited.ancestorVersions.get? t.1 = some t.2.version
      rw [hversions]
      exact Inheritance.get?_versions hstored ht
    · rw [peek_run c' mode hraw, hagain τ c' hτ]
      dsimp only
      rw [peek_native τ σ c' c, hnative]

end Completion

end Reconciler
