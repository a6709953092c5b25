/-
Completion: from a resource as it is stored to one that can be used.

What is inherited is merged, the connector is asked for its schema and its capabilities, configured
overrides are put on top, and the schema is built.  Every step has a status; the worst of them is
that of the whole.

* `StepStatus`: how a step went;
* `Completion`: the resource, the worst status and the problems;
* `Completion.result`: the completed resource, or the failure;
* `Completion.run`: the whole as a program.

Main statements:
* `StepStatus.le_worst_left`, `le_worst_right`: the worst of two is at least as bad as both;
* `Completion.conclude_status`: the worst status is that of the steps;
* `Completion.result_eq_ok_iff`: there is a result just when nothing was fatal.

Design notes:
* The connector is not asked without fetch: what an earlier completion stored is used instead, and
  the result is never good enough to be cached.
* Declared types that cannot be built are fatal, but the others are kept in what is left.
* Problems are listed worst first, and in the order of their occurrence among equals.
-/
import Reconciler.Inheritance
import Reconciler.Schema.Build

namespace Reconciler

/-! ### Status -/

/-- How a step went, from best to worst. -/
inductive StepStatus where
  | notApplicable
  | success
  | warning
  | partialError
  | fatalError
deriving DecidableEq, Repr, Inhabited

namespace StepStatus

/-- Greater for what is worse. -/
def rank : StepStatus → Nat
  | notApplicable => 0
  | success => 1
  | warning => 2
  | partialError => 3
  | fatalError => 4

/-- The name of a status. -/
def label : StepStatus → String
  | notApplicable => "NotApplicable"
  | success => "Success"
  | warning => "Warning"
  | partialError => "PartialError"
  | fatalError => "FatalError"

instance : Named StepStatus where
  all := [notApplicable, success, warning, partialError, fatalError]
  name := label
  ofName?_name a := by cases a <;> decide

/-- The worse of two. -/
def worst (a b : StepStatus) : StepStatus := if a.rank < b.rank then b else a

/-- Whether nothing usable came out. -/
def isFatal (s : StepStatus) : Bool := s == fatalError

/-- How far completion got when its steps went like this at worst. -/
def completionStatus : StepStatus → CompletionStatus
  | notApplicable | success => .completed
  | warning | partialError => .completedWithErrors
  | fatalError => .notCompleted

theorem le_worst_left (a b : StepStatus) : a.rank ≤ (worst a b).rank := by
  unfold worst; split <;> omega

theorem le_worst_right (a b : StepStatus) : b.rank ≤ (worst a b).rank := by
  unfold worst; split <;> omega

theorem worst_isFatal (a b : StepStatus) : (worst a b).isFatal = (a.isFatal || b.isFatal) := by
  cases a <;> cases b <;> rfl

end StepStatus

/-- What went wrong, and how bad that is. -/
structure Problem where
  status : StepStatus
  error : ProvisioningError
deriving DecidableEq, Inhabited

/-- What came out of a completion. -/
structure Completion where
  /-- The completed resource, or what is left of it. -/
  definition : Resource
  /-- The worst status. -/
  status : StepStatus
  /-- The problems, worst first. -/
  problems : List Problem
deriving DecidableEq, Inhabited

namespace Completion

/-- Whether the resource may be cached. -/
def isCacheable (o : Completion) : Bool := o.status == .success && o.definition.isCompleted

/-- The first fatal cause. -/
def cause (o : Completion) : ProvisioningError :=
  match o.problems.find? (·.status.isFatal) with
  | some p => p.error
  | none => .internal "completion failed without a cause"

/-- The completed resource, or the failure with its cause and what is left. -/
def result (o : Completion) : Except ProvisioningError Resource :=
  if o.status.isFatal then .error (.completionFailed o.definition.oid o.cause (some o.definition))
  else .ok o.definition

theorem result_eq_ok_iff {o : Completion} {r : Resource} :
    o.result = .ok r ↔ o.status.isFatal = false ∧ o.definition = r := by
  unfold result
  cases o.status.isFatal <;> simp

/-! ### Putting it together -/

/-- The worst status of problems, starting from one. -/
def worstOf (status : StepStatus) (problems : List Problem) : StepStatus :=
  problems.foldl (fun acc p => acc.worst p.status) status

/-- The outcome of steps that went like `status` but for these problems. -/
def conclude (definition : Resource) (status : StepStatus) (problems : List Problem) : Completion :=
  let worst := worstOf status problems
  { definition := { definition with completionStatus := worst.completionStatus }
    status := worst
    problems := problems.mergeSort fun a b => b.status.rank ≤ a.status.rank }

theorem conclude_status (definition : Resource) (status : StepStatus) (problems : List Problem) :
    (conclude definition status problems).status = worstOf status problems := rfl

/-- What the connector has, as far as it is known. -/
structure Native where
  schema : Option NativeSchema
  capabilities : Option CapabilitySet

/-- A status with problems. -/
structure Findings where
  status : StepStatus := .success
  problems : List Problem := []

/-- What is known without asking the connector. -/
def stored (c : Configuration) : Native × Findings :=
  (⟨c.nativeSchema, c.nativeCapabilities⟩,
    { status := .warning
      problems :=
        if c.nativeSchema.isNone then [⟨.partialError, .schemaViolation .noStoredSchema⟩] else [] })

/-- The schema of a resource with these native classes. -/
def schemaOf (definition : Resource) (native : NativeSchema) : Schema.Built :=
  Schema.build native definition.configuration.declarations definition.capabilities

/-- The resource with its schema, and the problems of building it. -/
def withSchema (definition : Resource) : Option NativeSchema → Resource × List Problem
  | none => (definition, [])
  | some native =>
    let built := schemaOf definition native
    ({ definition with
        schema := some built.schema
        configuration := { definition.configuration with nativeSchema := some native } },
      built.errors.map fun e => ⟨.fatalError, .misconfiguration e⟩)

/-- The resource with the native capabilities noted in its configuration, if they are known. -/
def withNativeCapabilities (definition : Resource) : Option CapabilitySet → Resource
  | none => definition
  | some native =>
    { definition with
      configuration := { definition.configuration with nativeCapabilities := some native } }

/-- The resource with everything that follows from what the connector has. -/
def assemble (definition : Resource) (native : Native) (found : Findings) : Completion :=
  let overrides := definition.configuration.capabilities
  match CapabilitySet.withOverrides (native.capabilities.getD .empty) overrides with
  | .error e =>
    conclude definition found.status (found.problems ++ [⟨.fatalError, .misconfiguration e⟩])
  | .ok capabilities =>
    -- The overrides of object types apply to the capabilities of the resource.
    let able := { definition with capabilities := capabilities }
    let (definition, problems) := withSchema able native.schema
    conclude (withNativeCapabilities definition native.capabilities) found.status
      (found.problems ++ problems)

/-- What is remarked on the schema, if it comes to building one. -/
def schemaRemark? (definition : Resource) (native : Native) : Option LogRecord :=
  match CapabilitySet.withOverrides (native.capabilities.getD .empty)
      definition.configuration.capabilities with
  | .error _ => none
  | .ok capabilities =>
    native.schema.map fun s => (schemaOf { definition with capabilities := capabilities } s).remark

/-! ### The program -/

/-- How to complete. -/
structure Mode where
  /-- Whether to do without the connector. -/
  noFetch : Bool := false
  /-- How many templates there may be above a resource. -/
  templateLimit : Nat

/-- Asks the connector. -/
def fetch (c : Caller) (configuration : Configuration) : Action Native := do
  match configuration.connector with
  | none => throw (.misconfiguration .noConnector)
  | some connector =>
    let target : Target := ⟨connector, configuration.connectorSettings⟩
    let schema ← Action.connector target .schema
    let capabilities ← Action.connector target .capabilities
    c.remark .debug <| s!"Fetched native schema ({schema.classes.length} object classes) " ++
      s!"from {connector.connectorType} connector"
    return ⟨some schema, some capabilities⟩

/-- What the connector has: as stored, or as it says. -/
def native (c : Caller) (noFetch : Bool) (configuration : Configuration) :
    Action (Native × Findings) := do
  if noFetch then return stored configuration else return (← fetch c configuration, {})

/-- Remarks on an outcome. -/
def finish (c : Caller) (o : Completion) : Program Completion := do
  if o.status.isFatal then
    let cause := (o.problems.head?.map (·.error.message)).getD ""
    c.remark .warn s!"Completion of resource {o.definition.oid} failed: {cause}"
  else
    c.remark .debug s!"Completion of resource {o.definition.oid} finished with {o.status.label}"
  return o

/-- The outcome when a step failed that nothing else can do without. -/
def fail (c : Caller) (definition : Resource) (e : ProvisioningError) : Program Completion :=
  finish c (conclude definition .success [⟨.fatalError, e⟩])

/-- Completes a resource; one that is completed already is left as it is. -/
def run (c : Caller) (mode : Mode) (raw : Resource) : Program Completion := do
  if raw.isCompleted then return ⟨raw, .success, []⟩
  let manner := if mode.noFetch then " without fetch" else ""
  c.remark .info s!"Completing resource {raw.oid} at version {raw.version.toText}{manner}"
  let definition := { raw with completionStatus := .notCompleted }
  match ← (Inheritance.resolve c mode.templateLimit raw).run with
  -- Without its templates it is not even known which connector to ask.
  | .error e => fail c definition e
  | .ok inherited =>
    let definition := { definition with
      configuration := inherited.configuration
      ancestorVersions := inherited.ancestorVersions }
    match ← (native c mode.noFetch inherited.configuration).run with
    | .error e => fail c definition e
    | .ok (native, found) =>
      if let some remark := schemaRemark? definition native then Program.perform (.remark remark)
      finish c (assemble definition native found)

end Completion

end Reconciler
