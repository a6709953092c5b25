/-
What becomes of a completion, told from how its steps went.

* `Completion.Resolves`: what came of looking for templates, and what was exchanged after that;
* `Completion.Answers`: what a completion gets to know of the connector;
* `Completion.GoesThrough`: every step of a completion went well, and the connector was asked;
* `Completion.Fails`: the fatal problems of a completion in the order of their occurrence.

Main statements:
* `Completion.cause_conclude`: the cause is the first fatal problem, though problems are sorted;
* `Completion.course_of_run`: how a completion comes to its outcome;
* `Completion.run_gate`: it is good enough for the cache just when it went through, usable but not
  complete just when it did without the connector and nothing was fatal, and a failure otherwise.

Design notes:
* All of this is told of the exchanges of a completion, so that repository and connector may answer
  anything at any time.
-/
import Reconciler.Proofs.Completion.Chain
import Reconciler.Proofs.Exchanges

namespace Reconciler

/-- The connector of a configuration with its settings. -/
def Configuration.target? (c : Configuration) : Option Target :=
  c.connector.map fun connector => ⟨connector, c.connectorSettings⟩

namespace Completion

/-! ### The worst of all problems -/

variable {definition raw : Resource} {status : StepStatus} {problems : List Problem}

/-- The whole is fatal just when it was so from the start or one problem is. -/
theorem isFatal_worstOf :
    (worstOf status problems).isFatal = (status.isFatal || problems.any (·.status.isFatal)) := by
  induction problems generalizing status with
  | nil => exact (Bool.or_false _).symm
  | cons p problems ih =>
    show (worstOf (status.worst p.status) problems).isFatal = _
    rw [ih, StepStatus.worst_isFatal, List.any_cons, Bool.or_assoc]

/-- Sorting by status keeps the order of the fatal problems. -/
theorem filter_isFatal_mergeSort (problems : List Problem) :
    (problems.mergeSort fun a b => b.status.rank ≤ a.status.rank).filter (·.status.isFatal) =
      problems.filter (·.status.isFatal) := by
  let notWorse : Problem → Problem → Bool := fun a b => b.status.rank ≤ a.status.rank
  let fatal := problems.filter (·.status.isFatal)
  have htrans : ∀ a b c, notWorse a b = true → notWorse b c = true → notWorse a c = true := by
    intro a b c hab hbc
    simp only [notWorse, decide_eq_true_eq] at hab hbc ⊢
    omega
  have htotal : ∀ a b, (notWorse a b || notWorse b a) = true := by
    intro a b
    simp only [notWorse, Bool.or_eq_true, decide_eq_true_eq]
    omega
  have hsorted : fatal.Pairwise fun a b => notWorse a b = true := by
    refine List.pairwise_of_forall_mem_list fun a ha b hb => ?_
    have hstatus : ∀ p ∈ fatal, p.status = .fatalError :=
      fun p hp => eq_of_beq (List.mem_filter.1 hp).2
    simp only [notWorse, hstatus a ha, hstatus b hb, decide_eq_true_eq, Nat.le_refl]
  -- What is in order already keeps its order, and nothing can have been added to it.
  have hsublist : fatal.Sublist ((problems.mergeSort notWorse).filter (·.status.isFatal)) := by
    have hkept : fatal.filter (·.status.isFatal) = fatal :=
      List.filter_eq_self.2 fun p hp => (List.mem_filter.1 hp).2
    have hinside : fatal.Sublist (problems.mergeSort notWorse) :=
      List.sublist_mergeSort htrans htotal hsorted List.filter_sublist
    exact hkept ▸ hinside.filter _
  have hlength : fatal.length =
      ((problems.mergeSort notWorse).filter (·.status.isFatal)).length :=
    ((List.mergeSort_perm problems notWorse).filter _).length_eq.symm
  exact (hsublist.eq_of_length hlength).symm

/-- The cause is the first fatal problem that occurred. -/
theorem cause_conclude {p : Problem} (h : problems.find? (·.status.isFatal) = some p) :
    (conclude definition status problems).cause = p.error := by
  have hsorted : (conclude definition status problems).problems.find? (·.status.isFatal) =
      some p := by
    rw [← h, ← List.head?_filter, ← List.head?_filter]
    exact congrArg List.head? (filter_isFatal_mergeSort problems)
  rw [cause, hsorted]

/-- With a fatal problem, a completion comes to nothing, because of the first one. -/
theorem conclude_of_fatal {oid : String} {e : ProvisioningError} (hoid : definition.oid = oid)
    (h : problems.find? (·.status.isFatal) = some ⟨.fatalError, e⟩) :
    (conclude definition status problems).definition.completionStatus = .notCompleted ∧
      (conclude definition status problems).result = .error (.completionFailed oid e
        (some (conclude definition status problems).definition)) := by
  have hfatal : (worstOf status problems).isFatal = true := by
    rw [isFatal_worstOf, Bool.or_eq_true]
    exact .inr (List.any_eq_true.2 ⟨_, List.mem_of_find?_eq_some h, rfl⟩)
  constructor
  · show (worstOf status problems).completionStatus = .notCompleted
    rw [eq_of_beq hfatal]
    rfl
  · have hcause : (conclude definition status problems).cause = e := cause_conclude h
    rw [result, hcause, ← hoid]
    exact if_pos hfatal

/-! ### Steps -/

variable {c : Caller} {mode : Mode} {trace rest rest' : List Exchange} {o : Completion}
variable {inherited : Inheritance.Resolved} {e : ProvisioningError}
variable {errors : List ProvisioningError}

/-- Templates were looked for with this result, after an announcement, and this followed. -/
def Resolves (c : Caller) (mode : Mode) (raw : Resource) (trace : List Exchange)
    (x : Except ProvisioningError Inheritance.Resolved) (rest : List Exchange) : Prop :=
  ∃ announcement more, trace = announcement :: more ∧
    (Inheritance.resolve c mode.templateLimit raw).run.Yields more x rest

theorem Resolves.unique {x y : Except ProvisioningError Inheritance.Resolved}
    (h : Resolves c mode raw trace x rest) (h' : Resolves c mode raw trace y rest') :
    x = y ∧ rest = rest' := by
  obtain ⟨announcement, more, rfl, h⟩ := h
  obtain ⟨announcement', more', he, h'⟩ := h'
  cases he
  exact h.unique h'

/-- What a completion with this configuration gets to know of its connector. -/
inductive Answers (noFetch : Bool) (configuration : Configuration) (rest : List Exchange) :
    Except ProvisioningError (Native × Findings) → Prop where
  | stored (h : noFetch = true) : Answers noFetch configuration rest (.ok (stored configuration))
  | missing (h : noFetch = false) (misses : configuration.target? = none) :
      Answers noFetch configuration rest (.error (.misconfiguration .noConnector))
  | noSchema {target : Target} {e : ConnectorError} {later : List Exchange} (h : noFetch = false)
      (connects : configuration.target? = some target)
      (fetches : rest = ⟨.connector target .schema, .error e⟩ :: later) :
      Answers noFetch configuration rest (.error (.ofConnector e))
  | noCapabilities {target : Target} {schema : NativeSchema} {e : ConnectorError}
      {later : List Exchange} (h : noFetch = false)
      (connects : configuration.target? = some target)
      (fetches : rest = ⟨.connector target .schema, .ok schema⟩ ::
        ⟨.connector target .capabilities, .error e⟩ :: later) :
      Answers noFetch configuration rest (.error (.ofConnector e))
  | fetched {target : Target} {schema : NativeSchema} {capabilities : CapabilitySet}
      {later : List Exchange} (h : noFetch = false)
      (connects : configuration.target? = some target)
      (fetches : rest = ⟨.connector target .schema, .ok schema⟩ ::
        ⟨.connector target .capabilities, .ok capabilities⟩ :: later) :
      Answers noFetch configuration rest (.ok (⟨some schema, some capabilities⟩, {}))

/-- What is wrong with the declared types, if there is a schema to build them on. -/
def declarationErrors (configuration : Configuration) (capabilities : CapabilitySet) :
    Option NativeSchema → List Misconfiguration
  | none => []
  | some native => (Schema.build native configuration.declarations capabilities).errors

/-- The connector was asked and nothing went wrong. -/
inductive GoesThrough (c : Caller) (mode : Mode) (raw : Resource) (trace : List Exchange) :
    Prop where
  | intro {inherited : Inheritance.Resolved} {target : Target} {schema : NativeSchema}
      {native capabilities : CapabilitySet} {later : List Exchange}
      (fetches : mode.noFetch = false)
      (connects : inherited.configuration.target? = some target)
      (resolves : Resolves c mode raw trace (.ok inherited)
        (⟨.connector target .schema, .ok schema⟩ ::
          ⟨.connector target .capabilities, .ok native⟩ :: later))
      (overrides : CapabilitySet.withOverrides native inherited.configuration.capabilities =
        .ok capabilities)
      (builds : (Schema.build schema inherited.configuration.declarations capabilities).errors = [])

/-- A step failed that nothing else can do without; the problems are listed in the order of their
occurrence. -/
inductive Fails (c : Caller) (mode : Mode) (raw : Resource) (trace : List Exchange) :
    List ProvisioningError → Prop where
  | templates {e : ProvisioningError} {rest : List Exchange}
      (h : Resolves c mode raw trace (.error e) rest) : Fails c mode raw trace [e]
  | connector {inherited : Inheritance.Resolved} {e : ProvisioningError} {rest : List Exchange}
      (resolves : Resolves c mode raw trace (.ok inherited) rest)
      (h : Answers mode.noFetch inherited.configuration rest (.error e)) :
      Fails c mode raw trace [e]
  | overrides {inherited : Inheritance.Resolved} {native : Native} {found : Findings}
      {e : Misconfiguration} {rest : List Exchange}
      (resolves : Resolves c mode raw trace (.ok inherited) rest)
      (answers : Answers mode.noFetch inherited.configuration rest (.ok (native, found)))
      (h : CapabilitySet.withOverrides (native.capabilities.getD .empty)
        inherited.configuration.capabilities = .error e) :
      Fails c mode raw trace [.misconfiguration e]
  | declarations {inherited : Inheritance.Resolved} {native : Native} {found : Findings}
      {capabilities : CapabilitySet} {rest : List Exchange}
      (resolves : Resolves c mode raw trace (.ok inherited) rest)
      (answers : Answers mode.noFetch inherited.configuration rest (.ok (native, found)))
      (overrides : CapabilitySet.withOverrides (native.capabilities.getD .empty)
        inherited.configuration.capabilities = .ok capabilities)
      (h : declarationErrors inherited.configuration capabilities native.schema ≠ []) :
      Fails c mode raw trace
        ((declarationErrors inherited.configuration capabilities native.schema).map
          .misconfiguration)

theorem Fails.ne_nil (h : Fails c mode raw trace errors) : errors ≠ [] := by
  cases h with
  | declarations _ _ _ h => exact fun hnil => h (List.map_eq_nil_iff.1 hnil)
  | _ => exact List.cons_ne_nil _ _

/-! ### What is known of a connector -/

theorem yields_connector {target : Target} {r : ConnectorRequest}
    {y : Except ProvisioningError r.Reply}
    (h : (Action.connector target r).run.Yields trace y rest) :
    ∃ reply, trace = ⟨.connector target r, reply⟩ :: rest ∧ y = reply.mapError .ofConnector := by
  obtain ⟨reply, more, rfl, rfl, rfl⟩ := h
  exact ⟨reply, rfl, rfl⟩

theorem answers_of_fetch {configuration : Configuration} {y : Except ProvisioningError Native}
    (h : (fetch c configuration).run.Yields trace y rest) :
    Answers false configuration trace (y.map (·, {})) := by
  unfold fetch at h
  cases hconnector : configuration.connector with
  | none =>
    rw [hconnector] at h
    obtain ⟨rfl, rfl⟩ := h
    exact .missing rfl (by rw [Configuration.target?, hconnector, Option.map_none])
  | some connector =>
    have hconnects : configuration.target? =
        some ⟨connector, configuration.connectorSettings⟩ := by
      rw [Configuration.target?, hconnector, Option.map_some]
    rw [hconnector] at h
    -- The schema is asked for first, then the capabilities; an error ends it.
    rcases Program.yields_action_bind_iff.1 h with ⟨e, hfails, rfl⟩ | ⟨schema, more, hschema, hrest⟩
    · obtain ⟨reply, rfl, he⟩ := yields_connector hfails
      cases reply with
      | ok schema => cases he
      | error e =>
        cases he
        exact .noSchema rfl hconnects rfl
    obtain ⟨reply, rfl, hok⟩ := yields_connector hschema
    cases reply with
    | error e => cases hok
    | ok schema =>
      cases hok
      rcases Program.yields_action_bind_iff.1 hrest with
        ⟨e, hfails, rfl⟩ | ⟨native, later, hnative, hend⟩
      · obtain ⟨reply, rfl, he⟩ := yields_connector hfails
        cases reply with
        | ok native => cases he
        | error e =>
          cases he
          exact .noCapabilities rfl hconnects rfl
      obtain ⟨reply, rfl, hok⟩ := yields_connector hnative
      cases reply with
      | error e => cases hok
      | ok native =>
        cases hok
        obtain ⟨_, _, rfl, rfl, rfl⟩ := hend
        exact .fetched rfl hconnects rfl

theorem answers_of_native {noFetch : Bool} {configuration : Configuration}
    {y : Except ProvisioningError (Native × Findings)}
    (h : (native c noFetch configuration).run.Yields trace y rest) :
    Answers noFetch configuration trace y := by
  unfold native at h
  cases noFetch with
  | true =>
    obtain ⟨rfl, rfl⟩ := h
    exact .stored rfl
  | false =>
    rw [if_neg Bool.false_ne_true] at h
    rcases Program.yields_action_bind_iff.1 h with ⟨e, he, rfl⟩ | ⟨had, more, hfetch, h⟩
    · exact answers_of_fetch he
    · obtain ⟨rfl, rfl⟩ := h
      exact answers_of_fetch hfetch

/-- Two accounts of what is known of a connector agree. -/
theorem Answers.unique {noFetch : Bool} {configuration : Configuration}
    {y z : Except ProvisioningError (Native × Findings)} (h : Answers noFetch configuration rest y)
    (h' : Answers noFetch configuration rest z) : y = z := by
  cases h <;> cases h' <;> simp_all

/-- What is known without asking is worth a warning; what was fetched is all right. -/
theorem Answers.found_cases {noFetch : Bool} {configuration : Configuration} {native : Native}
    {found : Findings} (h : Answers noFetch configuration rest (.ok (native, found))) :
    (noFetch = true ∧ found.status = .warning ∧
        (found.problems = [] ∨
          found.problems = [⟨.partialError, .schemaViolation .noStoredSchema⟩])) ∨
      ∃ target schema capabilities later, noFetch = false ∧
        configuration.target? = some target ∧
        rest = ⟨.connector target .schema, .ok schema⟩ ::
          ⟨.connector target .capabilities, .ok capabilities⟩ :: later ∧
        native = ⟨some schema, some capabilities⟩ ∧ found = {} := by
  cases h with
  | stored h =>
    refine .inl ⟨h, rfl, ?_⟩
    show (if configuration.nativeSchema.isNone then _ else []) = [] ∨
      (if configuration.nativeSchema.isNone then _ else []) = _
    split
    · exact .inr rfl
    · exact .inl rfl
  | fetched h connects fetches => exact .inr ⟨_, _, _, _, h, connects, fetches, rfl, rfl⟩

/-- Nothing fatal was found, so that the first fatal problem is the first one after that. -/
theorem Answers.find?_append {noFetch : Bool} {configuration : Configuration} {native : Native}
    {found : Findings} (h : Answers noFetch configuration rest (.ok (native, found)))
    (later : List Problem) :
    (found.problems ++ later).find? (·.status.isFatal) = later.find? (·.status.isFatal) := by
  rcases h.found_cases with ⟨-, -, hproblems | hproblems⟩ | ⟨_, _, _, _, -, -, -, -, rfl⟩
  · rw [hproblems, List.nil_append]
  · rw [hproblems, List.cons_append, List.nil_append]
    exact List.find?_cons_of_neg Bool.false_ne_true
  · rw [List.nil_append]

/-! ### Putting it together -/

theorem assemble_of_error {native : Native} {found : Findings} {e : Misconfiguration}
    (h : CapabilitySet.withOverrides (native.capabilities.getD .empty)
      definition.configuration.capabilities = .error e) :
    assemble definition native found =
      conclude definition found.status
        (found.problems ++ [⟨.fatalError, .misconfiguration e⟩]) := by
  rw [assemble, h]

theorem assemble_of_ok (definition : Resource) (native : Native) (found : Findings)
    {capabilities : CapabilitySet}
    (h : CapabilitySet.withOverrides (native.capabilities.getD .empty)
      definition.configuration.capabilities = .ok capabilities) :
    ∃ built : Resource, built.oid = definition.oid ∧
      assemble definition native found = conclude built found.status
        (found.problems ++ (declarationErrors definition.configuration capabilities
          native.schema).map fun e => ⟨.fatalError, .misconfiguration e⟩) := by
  obtain ⟨schema, known⟩ := native
  let able : Resource := { definition with capabilities := capabilities }
  refine ⟨withNativeCapabilities (withSchema able schema).1 known, ?_, ?_⟩
  · cases schema <;> cases known <;> rfl
  · rw [assemble, h]
    cases schema <;> rfl

/-! ### The course of a completion -/

/-- The outcome when templates were found, and this is known of the connector. -/
def continued (raw : Resource) (inherited : Inheritance.Resolved) :
    Except ProvisioningError (Native × Findings) → Completion
  | .error e => conclude (inheriting raw inherited) .success [⟨.fatalError, e⟩]
  | .ok (native, found) => assemble (inheriting raw inherited) native found

/-- How a completion comes to its outcome. -/
inductive Course (c : Caller) (mode : Mode) (raw : Resource) (trace : List Exchange) :
    Completion → Prop where
  | templates {e : ProvisioningError} {rest : List Exchange}
      (h : Resolves c mode raw trace (.error e) rest) :
      Course c mode raw trace
        (conclude { raw with completionStatus := .notCompleted } .success [⟨.fatalError, e⟩])
  | continued {inherited : Inheritance.Resolved} {rest : List Exchange}
      {y : Except ProvisioningError (Native × Findings)}
      (resolves : Resolves c mode raw trace (.ok inherited) rest)
      (answers : Answers mode.noFetch inherited.configuration rest y) :
      Course c mode raw trace (continued raw inherited y)

theorem eq_of_finish {o' : Completion} (h : (finish c o).Yields trace o' rest) : o' = o := by
  unfold finish at h
  split at h
  · obtain ⟨_, _, _, rfl, _⟩ := h
    rfl
  · obtain ⟨_, _, _, rfl, _⟩ := h
    rfl

theorem course_of_run (hraw : raw.isCompleted = false)
    (h : (run c mode raw).Reaches trace (.done o)) : Course c mode raw trace o := by
  unfold run at h
  rw [if_neg (by rw [hraw]; exact Bool.false_ne_true), ← Program.yields_nil_iff] at h
  obtain ⟨_, _, ⟨_, trace, rfl, _, rfl⟩, h⟩ := Program.yields_bind_iff.1 h
  obtain ⟨x, more, hresolve, h⟩ := Program.yields_bind_iff.1 h
  cases x with
  | error e =>
    rw [eq_of_finish h]
    exact .templates ⟨_, trace, rfl, hresolve⟩
  | ok inherited =>
    obtain ⟨y, later, hnative, h⟩ := Program.yields_bind_iff.1 h
    have hcontinued : o = continued raw inherited y := by
      cases y with
      | error e => exact eq_of_finish h
      | ok found =>
        -- Whether there is a remark on the schema does not matter.
        dsimp only at h
        split at h
        · obtain ⟨_, _, _, h⟩ := h
          exact eq_of_finish h
        · exact eq_of_finish h
    rw [hcontinued]
    exact .continued ⟨_, trace, rfl, hresolve⟩ (answers_of_native hnative)

namespace Course

theorem eq_of_error (h : Course c mode raw trace o)
    (hx : Resolves c mode raw trace (.error e) rest) :
    o = conclude { raw with completionStatus := .notCompleted } .success [⟨.fatalError, e⟩] := by
  cases h with
  | templates h => cases (h.unique hx).1; rfl
  | continued resolves => cases (resolves.unique hx).1

theorem eq_of_ok {y : Except ProvisioningError (Native × Findings)}
    (h : Course c mode raw trace o) (hx : Resolves c mode raw trace (.ok inherited) rest)
    (hy : Answers mode.noFetch inherited.configuration rest y) :
    o = Completion.continued raw inherited y := by
  cases h with
  | templates h => cases (h.unique hx).1
  | continued resolves answers =>
    obtain ⟨hinherited, rfl⟩ := resolves.unique hx
    cases hinherited
    rw [answers.unique hy]

/-- When everything went well, nothing is worse than success. -/
theorem of_goesThrough (h : Course c mode raw trace o) (hgoes : GoesThrough c mode raw trace) :
    o.status = .success ∧ o.definition.completionStatus = .completed := by
  obtain ⟨fetches, connects, resolves, overrides, builds⟩ := hgoes
  rw [h.eq_of_ok resolves (.fetched fetches connects rfl), Completion.continued]
  obtain ⟨built, -, hassemble⟩ :=
    assemble_of_ok (inheriting raw _) ⟨some _, some _⟩ {} overrides
  have hnone : declarationErrors (inheriting raw _).configuration _ (some _) = [] := builds
  rw [hassemble, hnone]
  exact ⟨rfl, rfl⟩

/-- When a step failed, the completion failed with the first problem. -/
theorem of_fails (h : Course c mode raw trace o) (hfails : Fails c mode raw trace (e :: errors)) :
    o.definition.completionStatus = .notCompleted ∧
      o.result = .error (.completionFailed raw.oid e (some o.definition)) := by
  generalize hall : e :: errors = all at hfails
  cases hfails with
  | templates resolves =>
    cases hall
    rw [h.eq_of_error resolves]
    exact conclude_of_fatal rfl rfl
  | connector resolves answers =>
    cases hall
    rw [h.eq_of_ok resolves answers, Completion.continued]
    exact conclude_of_fatal rfl rfl
  | overrides resolves answers misfits =>
    cases hall
    rw [h.eq_of_ok resolves answers, Completion.continued, assemble_of_error misfits]
    exact conclude_of_fatal rfl (answers.find?_append _)
  | @declarations inherited native found capabilities rest resolves answers overrides misfits =>
    obtain ⟨built, hoid, hassemble⟩ :=
      assemble_of_ok (inheriting raw inherited) native found overrides
    obtain ⟨first, others, hfirst⟩ := List.exists_cons_of_ne_nil misfits
    have hinheriting : declarationErrors (inheriting raw inherited).configuration capabilities
      native.schema = first :: others := hfirst
    rw [hfirst, List.map_cons] at hall
    cases hall
    rw [h.eq_of_ok resolves answers, Completion.continued, hassemble, hinheriting]
    exact conclude_of_fatal hoid (answers.find?_append _)

/-- A completion goes through, or does without the connector, or fails. -/
theorem cases_outcome (h : Course c mode raw trace o) :
    GoesThrough c mode raw trace ∨
      (mode.noFetch = true ∧ o.definition.completionStatus = .completedWithErrors) ∨
      ∃ errors, Fails c mode raw trace errors := by
  cases h with
  | templates resolves => exact .inr (.inr ⟨_, .templates resolves⟩)
  | @continued inherited rest y resolves answers =>
    cases y with
    | error e => exact .inr (.inr ⟨_, .connector resolves answers⟩)
    | ok known =>
      obtain ⟨native, found⟩ := known
      cases hoverrides : CapabilitySet.withOverrides (native.capabilities.getD .empty)
          inherited.configuration.capabilities with
      | error e => exact .inr (.inr ⟨_, .overrides resolves answers hoverrides⟩)
      | ok capabilities =>
        by_cases herrors :
          declarationErrors inherited.configuration capabilities native.schema = []
        · rcases answers.found_cases with ⟨hnoFetch, hstatus, hproblems⟩ |
            ⟨target, schema, had, later, hfetch, hconnects, rfl, rfl, rfl⟩
          · obtain ⟨built, -, hassemble⟩ :=
              assemble_of_ok (inheriting raw inherited) native found hoverrides
            have hnone : declarationErrors (inheriting raw inherited).configuration capabilities
              native.schema = [] := herrors
            refine .inr (.inl ⟨hnoFetch, ?_⟩)
            rw [Completion.continued, hassemble, hnone, hstatus]
            rcases hproblems with hproblems | hproblems
            · rw [hproblems]
              rfl
            · rw [hproblems]
              rfl
          · exact .inl ⟨hfetch, hconnects, resolves, hoverrides, herrors⟩
        · exact .inr (.inr ⟨_, .declarations resolves answers hoverrides herrors⟩)

end Course

/-! ### The gate -/

/-- **Nothing but a full success gets through the gate.**  A completion may be cached, and is
complete, just when it went through; it is complete but for errors just when it did without the
connector and nothing failed; and in all other cases it failed with the first fatal problem. -/
theorem run_gate (hraw : raw.isCompleted = false) (h : (run c mode raw).Reaches trace (.done o)) :
    (o.isCacheable = true ↔ GoesThrough c mode raw trace) ∧
      (o.definition.completionStatus = .completed ↔ GoesThrough c mode raw trace) ∧
      (o.definition.completionStatus = .completedWithErrors ↔
        mode.noFetch = true ∧ ∀ errors, ¬ Fails c mode raw trace errors) ∧
      (o.definition.completionStatus = .notCompleted ↔ ∃ errors, Fails c mode raw trace errors) ∧
      ∀ e errors, Fails c mode raw trace (e :: errors) →
        o.result = .error (.completionFailed raw.oid e (some o.definition)) := by
  have hcourse : Course c mode raw trace o := course_of_run hraw h
  have hfails : ∀ errors, Fails c mode raw trace errors →
      o.definition.completionStatus = .notCompleted := by
    intro errors hfails
    obtain ⟨e, others, rfl⟩ := List.exists_cons_of_ne_nil hfails.ne_nil
    exact (hcourse.of_fails hfails).1
  have hcompleted : o.definition.completionStatus = .completed ↔ GoesThrough c mode raw trace := by
    refine ⟨fun hstatus => ?_, fun hgoes => (hcourse.of_goesThrough hgoes).2⟩
    rcases hcourse.cases_outcome with hgoes | ⟨-, hother⟩ | ⟨errors, hother⟩
    · exact hgoes
    · rw [hother] at hstatus
      cases hstatus
    · rw [hfails errors hother] at hstatus
      cases hstatus
  refine ⟨?_, hcompleted, ?_, ?_, fun e errors h => (hcourse.of_fails h).2⟩
  · rw [← hcompleted, isCacheable, Bool.and_eq_true, Resource.isCompleted, beq_iff_eq, beq_iff_eq]
    exact ⟨And.right, fun hstatus => ⟨(hcourse.of_goesThrough (hcompleted.1 hstatus)).1, hstatus⟩⟩
  · constructor
    · intro hstatus
      rcases hcourse.cases_outcome with hgoes | ⟨hnoFetch, -⟩ | ⟨errors, hother⟩
      · rw [hcompleted.2 hgoes] at hstatus
        cases hstatus
      · refine ⟨hnoFetch, fun errors hother => ?_⟩
        rw [hfails errors hother] at hstatus
        cases hstatus
      · rw [hfails errors hother] at hstatus
        cases hstatus
    · rintro ⟨hnoFetch, hnone⟩
      rcases hcourse.cases_outcome with ⟨hfetch, -⟩ | ⟨-, hstatus⟩ | ⟨errors, hother⟩
      · rw [hnoFetch] at hfetch
        cases hfetch
      · exact hstatus
      · exact (hnone errors hother).elim
  · refine ⟨fun hstatus => ?_, fun ⟨errors, hother⟩ => hfails errors hother⟩
    rcases hcourse.cases_outcome with hgoes | ⟨-, hother⟩ | hother
    · rw [hcompleted.2 hgoes] at hstatus
      cases hstatus
    · rw [hother] at hstatus
      cases hstatus
    · exact hother

/-- A template with a connector. -/
def sampleTemplate : Resource where
  oid := "directory"
  name := "directory"
  configuration := { connector := some ⟨"ldap", none⟩, isTemplate := true }

/-- A resource that leaves everything to that template. -/
def sampleHeir : Resource where
  oid := "heir"
  name := "heir"
  configuration := { superRef := some "directory" }

/-- Connectors to resources without any objects. -/
def sampleConnectors : Connectors
  | _, .schema => .ok {}
  | _, .capabilities => .ok .empty
  | _, _ => .error default

/-- How they answer, and the repository if it has the template only. -/
def sampleAnswer (r : Request) : r.Reply :=
  (World.answer sampleConnectors { store := Store.empty.put sampleTemplate } r).1

/-- With the connector of its template, the resource goes through. -/
theorem run_gate_sample : ∃ trace o, sampleHeir.isCompleted = false ∧
    (run default ⟨false, 3⟩ sampleHeir).Reaches trace (.done o) ∧ o.isCacheable = true ∧
    GoesThrough default ⟨false, 3⟩ sampleHeir trace := by
  have hreaches := Program.reaches_transcript sampleAnswer (run default ⟨false, 3⟩ sampleHeir)
  have hcacheable : ((run default ⟨false, 3⟩ sampleHeir).transcript sampleAnswer).2.isCacheable =
      true := by decide +kernel
  exact ⟨_, _, rfl, hreaches, hcacheable, (run_gate rfl hreaches).1.1 hcacheable⟩

end Completion

end Reconciler
