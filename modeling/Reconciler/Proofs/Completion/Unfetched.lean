/-
Doing without the connector, when it has nothing new to say.

* `Completion.atBest`: an outcome with a status that is at least as bad as a given one.

Main statements:
* `Completion.assemble_worst`: a worse start makes for the same outcome, but for its status;
* `Completion.Course.eq_atBest`: without fetch, a completion comes out like one that is told by the
  connector what is stored, but at best with a warning;
* `Completion.run_noFetch`: so it is for one that nothing interrupts, in detail.

Design notes:
* `Course.eq_atBest` is told of exchanges, so that the repository may change between and during both
  completions as long as they inherit alike.
* A completion that was fatal is the same in both ways, problems included.
-/
import Reconciler.Proofs.Completion.Ancestry
import Reconciler.Proofs.Completion.Gate

namespace Reconciler

namespace StepStatus

theorem rank_injective : Function.Injective rank := by
  intro a b h
  cases a <;> cases b <;> first | rfl | cases h

theorem rank_worst (a b : StepStatus) : (a.worst b).rank = max a.rank b.rank := by
  unfold worst
  split <;> omega

theorem worst_assoc (a b c : StepStatus) : (a.worst b).worst c = a.worst (b.worst c) := by
  refine rank_injective ?_
  rw [rank_worst, rank_worst, rank_worst, rank_worst, Nat.max_assoc]

end StepStatus

namespace Completion

open Session

variable {raw : Resource} {status : StepStatus} {c c' : Caller} {mode mode' : Mode}
variable {trace trace' rest later : List Exchange} {o o' : Completion}
variable {inherited : Inheritance.Resolved} {target : Target} {schema : NativeSchema}
variable {capabilities : CapabilitySet}

/-! ### A worse start -/

/-- The outcome with a status that is at least this bad. -/
def atBest (status : StepStatus) (o : Completion) : Completion :=
  let worst := status.worst o.status
  { o with
    definition := { o.definition with completionStatus := worst.completionStatus }
    status := worst }

/-- The worst of all is the worse of the start and all that came after it. -/
theorem worstOf_worst (status start : StepStatus) (problems : List Problem) :
    worstOf (status.worst start) problems = status.worst (worstOf start problems) := by
  induction problems generalizing start with
  | nil => rfl
  | cons p problems ih =>
    show worstOf ((status.worst start).worst p.status) problems = _
    rw [StepStatus.worst_assoc, ih]
    rfl

theorem conclude_worst (definition : Resource) (status start : StepStatus)
    (problems : List Problem) :
    conclude definition (status.worst start) problems =
      (conclude definition start problems).atBest status := by
  rw [conclude, worstOf_worst]
  rfl

/-- A worse start makes for the same outcome, but for its status. -/
theorem assemble_worst (definition : Resource) (native : Native) (status : StepStatus)
    (found : Findings) :
    assemble definition native { found with status := status.worst found.status } =
      (assemble definition native found).atBest status := by
  unfold assemble
  dsimp only
  split
  · exact conclude_worst ..
  · exact conclude_worst ..

/-- The status of the whole tells how far it got. -/
theorem completionStatus_assemble (definition : Resource) (native : Native) (found : Findings) :
    (assemble definition native found).definition.completionStatus =
      (assemble definition native found).status.completionStatus := by
  unfold assemble
  dsimp only
  split
  · rfl
  · rfl

/-- Nothing is worse than a fatal outcome. -/
theorem atBest_of_fatal (h : o.definition.completionStatus = o.status.completionStatus)
    (hfatal : o.status.isFatal = true) : o.atBest status = o := by
  obtain ⟨definition, worst, problems⟩ := o
  obtain rfl : worst = .fatalError := eq_of_beq hfatal
  have hworst : status.worst .fatalError = .fatalError := by
    cases status <;> rfl
  rw [atBest, hworst]
  dsimp only at h ⊢
  rw [← h]

/-- What came of asking the connector is fatal or a success. -/
theorem status_assemble_fetched (definition : Resource) (native : Native)
    (h : (assemble definition native {}).status.isFatal = false) :
    (assemble definition native {}).status = .success := by
  cases hoverrides : CapabilitySet.withOverrides (native.capabilities.getD .empty)
      definition.configuration.capabilities with
  | error e =>
    rw [assemble_of_error hoverrides] at h
    cases h
  | ok capabilities =>
    obtain ⟨built, -, hassemble⟩ := assemble_of_ok definition native {} hoverrides
    rw [hassemble] at h ⊢
    cases herrors : declarationErrors definition.configuration capabilities native.schema with
    | nil => rfl
    | cons e errors =>
      -- All errors of building the schema are fatal.
      rw [herrors, conclude_status, isFatal_worstOf] at h
      cases h

/-- What is stored counts like what was fetched, but with a warning. -/
theorem stored_eq {configuration : Configuration}
    (hschema : configuration.nativeSchema = some schema)
    (hcapabilities : configuration.nativeCapabilities = some capabilities) :
    stored configuration =
      (⟨some schema, some capabilities⟩, { status := StepStatus.worst .warning .success }) := by
  rw [stored, hschema, hcapabilities]
  rfl

/-! ### Both ways -/

/-- Without fetch, a completion comes out like one that is told by the connector what is stored, but
at best with a warning. -/
theorem Course.eq_atBest (h : Course c mode raw trace o) (h' : Course c' mode' raw trace' o')
    (hstays : mode.noFetch = true) (hfetches : mode'.noFetch = false)
    (hresolves : Resolves c mode raw trace (.ok inherited) rest)
    (hresolves' : Resolves c' mode' raw trace' (.ok inherited)
      (⟨.connector target .schema, .ok schema⟩ ::
        ⟨.connector target .capabilities, .ok capabilities⟩ :: later))
    (hconnects : inherited.configuration.target? = some target)
    (hschema : inherited.configuration.nativeSchema = some schema)
    (hcapabilities : inherited.configuration.nativeCapabilities = some capabilities) :
    o = o'.atBest .warning := by
  rw [h.eq_of_ok hresolves (.stored hstays),
    h'.eq_of_ok hresolves' (.fetched hfetches hconnects rfl), stored_eq hschema hcapabilities]
  exact assemble_worst (inheriting raw inherited) _ .warning {}

/-! ### Without interruption -/

variable {env : Surroundings} {σ : Session} {limit : Nat}

theorem peek_resolve (h : Inheritance.inherited env σ c limit raw = .ok inherited) :
    peek env σ (Inheritance.resolve c limit raw).run = .ok inherited := by
  rw [← (run_of_reading env (Inheritance.resolve_reads c limit raw) σ).1]
  exact h

/-- What the connector reports is what is known of it. -/
theorem peek_native_fetched {configuration : Configuration}
    (hconnects : configuration.target? = some target)
    (hreports : env.connectors target .schema = .ok schema)
    (hreports' : env.connectors target .capabilities = .ok capabilities) :
    peek env σ (native c false configuration).run =
      .ok (⟨some schema, some capabilities⟩, {}) := by
  obtain ⟨connector, hconnector, rfl⟩ := Option.map_eq_some_iff.1 hconnects
  have hfetch : peek env σ (fetch c configuration).run =
      .ok ⟨some schema, some capabilities⟩ := by
    unfold fetch
    rw [hconnector]
    dsimp only
    rw [peek_action_bind, peek_connector, hreports]
    dsimp only [Except.mapError]
    rw [peek_action_bind, peek_connector, hreports']
    rfl
  unfold native
  rw [if_neg Bool.false_ne_true, peek_action_bind, hfetch]
  rfl

/-- What comes of completing a resource if nothing happens in between. -/
def outcome (env : Surroundings) (σ : Session) (c : Caller) (mode : Mode) (raw : Resource) :
    Completion :=
  (Session.run env (run c mode raw) σ).1

theorem outcome_of_inherited (hraw : raw.isCompleted = false)
    (hinherits : Inheritance.inherited env σ c mode.templateLimit raw = .ok inherited)
    {had : Native} {found : Findings}
    (hnative : peek env σ (native c mode.noFetch inherited.configuration).run = .ok (had, found)) :
    outcome env σ c mode raw = assemble (inheriting raw inherited) had found := by
  rw [outcome, (run_of_reading env (run_reads c mode raw) σ).1, peek_run c mode hraw,
    peek_resolve hinherits]
  dsimp only
  rw [hnative]

/-- **Completing with and without fetch agree**, if the connector reports what is stored.  Both
outcomes have the same configuration, capabilities, schema and ancestors, and the same problems; one
is fatal just when the other is, and then they are the same; otherwise the one without fetch is
complete but for errors, and the other is complete. -/
theorem run_noFetch (env : Surroundings) (σ : Session) (c : Caller)
    (hraw : raw.isCompleted = false)
    (hinherits : Inheritance.inherited env σ c limit raw = .ok inherited)
    (hconnects : inherited.configuration.target? = some target)
    (hschema : inherited.configuration.nativeSchema = some schema)
    (hcapabilities : inherited.configuration.nativeCapabilities = some capabilities)
    (hreports : env.connectors target .schema = .ok schema)
    (hreports' : env.connectors target .capabilities = .ok capabilities) :
    let unfetched := outcome env σ c { noFetch := true, templateLimit := limit } raw
    let fetched := outcome env σ c { noFetch := false, templateLimit := limit } raw
    unfetched.definition.configuration = fetched.definition.configuration ∧
      unfetched.definition.capabilities = fetched.definition.capabilities ∧
      unfetched.definition.schema = fetched.definition.schema ∧
      unfetched.definition.ancestorVersions = fetched.definition.ancestorVersions ∧
      (unfetched.status.isFatal = true ↔ fetched.status.isFatal = true) ∧
      (fetched.status.isFatal = true → unfetched = fetched) ∧
      (fetched.status.isFatal = false →
        unfetched.definition.completionStatus = .completedWithErrors ∧
        fetched.definition.completionStatus = .completed) ∧
      unfetched = fetched.atBest .warning := by
  intro unfetched fetched
  have hfetched : fetched =
      assemble (inheriting raw inherited) ⟨some schema, some capabilities⟩ {} :=
    outcome_of_inherited hraw hinherits (peek_native_fetched hconnects hreports hreports')
  have hunfetched : unfetched = fetched.atBest .warning := by
    rw [hfetched, ← assemble_worst]
    refine outcome_of_inherited hraw hinherits ?_
    exact congrArg Except.ok (stored_eq hschema hcapabilities)
  have hfatal : unfetched.status.isFatal = fetched.status.isFatal := by
    rw [hunfetched]
    exact StepStatus.worst_isFatal .warning fetched.status
  have htells : fetched.definition.completionStatus = fetched.status.completionStatus := by
    rw [hfetched]
    exact completionStatus_assemble ..
  rw [hunfetched] at hfatal ⊢
  refine ⟨rfl, rfl, rfl, rfl, ?_, fun h => atBest_of_fatal htells h, fun h => ?_, rfl⟩
  · rw [hfatal]
  · have hsuccess : fetched.status = .success := by
      rw [hfetched] at h ⊢
      exact status_assemble_fetched _ _ h
    constructor
    · rw [atBest, hsuccess]
      rfl
    · rw [htells, hsuccess]
      rfl

/-- The template as it is once an earlier completion stored what its connector has. -/
def sampleStocked : Resource :=
  { sampleTemplate with
    configuration :=
      { sampleTemplate.configuration with
        nativeSchema := some {}
        nativeCapabilities := some .empty } }

/-- A repository with this template. -/
def sampleStock : Session where
  world := { store := Store.empty.put sampleStocked }

/-- Connectors that have not changed since. -/
def sampleUnchanged : Surroundings := ⟨sampleConnectors, fun _ => default⟩

/-- The resource is complete, and complete but for errors without its connector. -/
theorem run_noFetch_sample :
    let unfetched := outcome sampleUnchanged sampleStock default ⟨true, 3⟩ sampleHeir
    let fetched := outcome sampleUnchanged sampleStock default ⟨false, 3⟩ sampleHeir
    sampleHeir.isCompleted = false ∧ fetched.status.isFatal = false ∧
      unfetched.definition.schema = fetched.definition.schema ∧
      unfetched.definition.completionStatus = .completedWithErrors ∧
      fetched.definition.completionStatus = .completed := by
  intro unfetched fetched
  obtain ⟨found, hfound, hconnects, hschema, hcapabilities⟩ : ∃ found,
      Inheritance.inherited sampleUnchanged sampleStock default 3 sampleHeir = .ok found ∧
        found.configuration.target? = some ⟨⟨"ldap", none⟩, .empty⟩ ∧
        found.configuration.nativeSchema = some {} ∧
        found.configuration.nativeCapabilities = some .empty :=
    ⟨_, rfl, by decide +kernel, by decide +kernel, by decide +kernel⟩
  have hgood : fetched.status.isFatal = false := by decide +kernel
  obtain ⟨-, -, hsame, -, -, -, hstatus, -⟩ := run_noFetch sampleUnchanged sampleStock default
    (rfl : sampleHeir.isCompleted = false) hfound hconnects hschema hcapabilities rfl rfl
  exact ⟨rfl, hgood, hsame, hstatus hgood⟩

end Completion

end Reconciler
