/-
The service: completed resources, and what can be done with them.

* `Service.get`: a completed resource, from the cache if it is still the latest;
* `Service.complete`: completes a resource that was read before;
* `Service.search`, `count`: completed resources that a query selects, and their number;
* `Service.delete`: deletes a resource;
* `Service.setAvailability`, `testConnection`: observe and record whether a resource can be used;
* `Service.testPartial`, `discover`, `runScript`: other uses of a connector;
* `Service.capability?`, `reconcileContext`: what objects of a resource can do, and how their
  shadows are reconciled.

Design notes:
* Only what was completed without any error is cached, under a ticket taken before it was read.
* A resource that could not be reached while it was completed is marked down; where that fails in
  turn, only a remark is made.
* A deleted resource leaves the cache first and the repository second.
-/
import Reconciler.Completion
import Reconciler.Definitions
import Reconciler.Shadow.Reconcile
import Reconciler.Tuning

namespace Reconciler

/-- What a service works with. -/
structure Service where
  tuning : Tuning := {}
  rules : RuleRegistry := .standard
  /-- How many templates there may be above a resource. -/
  templateLimit : Nat

namespace Service

/-- Puts a service together: there must be a repository and connectors, and tunables that can be
worked with. -/
def assemble (hasRepository hasConnectors : Bool) (tuning : Tuning) (rules : RuleRegistry)
    (templateLimit : Nat) : Except SetupError Service := do
  if !hasRepository then throw .missingRepository
  if !hasConnectors then throw .missingConnectors
  tuning.check
  return { tuning := tuning, rules := rules, templateLimit := templateLimit }

variable (sv : Service) (c : Caller)

/-- How the service completes. -/
def mode (noFetch : Bool) : Completion.Mode :=
  { noFetch := noFetch, templateLimit := sv.templateLimit }

/-! ### Availability -/

/-- Records that a resource has another status now. -/
def recordAvailability (oid : String) (previous : Option Availability) (status : Availability)
    (reason : Option String) : Action Unit := do
  let before := (previous.map Availability.label).getD "unknown"
  let given := reason.getD "not given"
  c.remark .info <|
    s!"Availability of resource {oid} changed from {before} to {status.label}, reason: {given}"
  let change : AvailabilityChange :=
    { status := status, timestamp := ← Program.perform .now, reason := reason, taskId := c.task }
  let _ ← Action.store (.modify oid [.recordAvailability change sv.tuning.historySize])

/-- Sets the status of a resource and tells whether that was recorded.  Nothing is recorded if the
repository has the same status already; with `skipFetch` this is not asked. -/
def setAvailability (oid : String) (status : Availability) (reason : Option String)
    (skipFetch : Bool) : Action Bool := do
  if skipFetch then
    -- The status that the cache knows only serves the remark.
    let cached ← Action.cache (.find oid)
    sv.recordAvailability c oid (cached.bind (·.definition.availability)) status reason
    return true
  else
    let stored ← Action.store (.read oid)
    if stored.availability = some status then
      c.remark .debug s!"Resource {oid} already {status.label}, not recording"
      return false
    else
      sv.recordAvailability c oid stored.availability status reason
      return true

/-- Marks a resource down by an action; if that fails, a remark is made. -/
def markDown {α : Type} (oid : String) (mark : Action α) : Program Unit := do
  match ← mark.run with
  | .ok _ => return ()
  | .error e => c.remark .warn s!"Could not mark resource {oid} as DOWN: {e.message}"

/-! ### Completed resources -/

/-- The cached resource, if the cache is used and has the latest. -/
def cached? (oid : String) : Action (Option Resource) :=
  if sv.tuning.cacheEnabled then Definitions.latest? c oid else return none

/-- What is done with the outcome of a completion: a resource is cached if it may be, and marked
down if it could not be reached. -/
def settle (noFetch : Bool) (raw : Resource) (ticket : Ticket) (o : Completion) :
    Action Resource := do
  match o.result with
  | .ok definition =>
    if o.isCacheable && sv.tuning.cacheEnabled then
      let _ ← Definitions.offer definition (some ticket)
    return definition
  | .error e =>
    if e.kind = .communication && !noFetch then
      markDown c raw.oid
        (sv.recordAvailability c raw.oid raw.availability .down (some e.message))
    throw e

/-- Completes a resource that was read after a ticket was taken, unless the cache has it. -/
def completeSince (noFetch : Bool) (ticket : Ticket) (raw : Resource) : Action Resource := do
  match (← sv.cached? c raw.oid).filter (·.version == raw.version) with
  | some cached => return cached
  | none =>
    let o ← Completion.run c (sv.mode noFetch) raw
    sv.settle c noFetch raw ticket o

/-- Completes a resource, unless the cache has it. -/
def complete (noFetch : Bool) (raw : Resource) : Action Resource := do
  let ticket ← Action.cache .ticket
  sv.completeSince c noFetch ticket raw

/-- A completed resource: from the cache, or read and completed. -/
def get (oid : String) (noFetch : Bool := false) : Action Resource := do
  c.remark .debug s!"Getting resource {oid}"
  let ticket ← Action.cache .ticket
  match ← sv.cached? c oid with
  | some cached => return cached
  | none =>
    -- The ticket is older than what is read now, so an invalidation in between shows.
    let raw ← Action.store (.read oid)
    sv.completeSince c noFetch ticket raw

/-- Completes one resource of a search.  What is left of a failed completion stands in for it. -/
def completeHit (noFetch : Bool) (raw : Resource) : Action Resource :=
  ExceptT.mk do
    match ← (sv.complete c noFetch raw).run with
    | .ok definition => return .ok definition
    | .error (.completionFailed oid source (some left)) =>
      c.remark .warn s!"Returning partial definition of resource {oid}: {source.message}"
      return .ok left
    | .error e => return .error e

/-- The selected resources, each completed as far as possible. -/
def search (q : Query) (noFetch : Bool := false) : Action (List Resource) := do
  let found ← Action.store (.search q)
  c.remark .debug s!"Search matched {found.length} resource(s)"
  found.mapM (sv.completeHit c noFetch)

/-- Number of selected resources. -/
def count (q : Query) : Action Nat := Action.store (.count q)

/-- Deletes a resource, also from the cache. -/
def delete (oid : String) : Action Unit := do
  c.remark .info s!"Deleting resource {oid}"
  Definitions.invalidate oid
  Action.store (.delete oid)

/-! ### Uses of connectors -/

/-- The connector of a resource, with its settings. -/
def targetOf (r : Resource) : Except ProvisioningError Target :=
  match r.configuration.connector with
  | some connector => .ok ⟨connector, r.configuration.connectorSettings⟩
  | none => .error (.misconfiguration (.resourceWithoutConnector r.oid))

/-- The connector of a resource as configured, also by its templates. -/
def configuredTarget (raw : Resource) : Action Target := do
  let o ← Completion.run c (sv.mode true) raw
  let merged ← Action.ofExcept o.result
  Action.ofExcept (targetOf merged)

/-- Tests the connection to a resource and records what came out. -/
def testConnection (oid : String) : Action Unit := do
  c.remark .info s!"Testing connection of resource {oid}"
  let raw ← Action.store (.read oid)
  let target ← sv.configuredTarget c raw
  match ← Program.perform (.connector target .test) with
  | .ok _ =>
    let _ ← sv.setAvailability c oid .up (some "connection test succeeded") false
  | .error e =>
    let error := ProvisioningError.ofConnector e
    c.remark .warn s!"Connection test of resource {oid} failed: {error.message}"
    markDown c oid (sv.setAvailability c oid .down (some error.message) true)
    throw error

/-- Tests the settings of a resource that need not be stored. -/
def testPartial (r : Resource) : Action Unit := do
  c.remark .debug s!"Testing partial configuration of resource {r.oid}"
  Action.connector (← sv.configuredTarget c r) .testPartial

/-- Asks a connector for settings that would work. -/
def discover (r : Resource) : Action (List SuggestedProperty) := do
  c.remark .debug s!"Discovering configuration of resource {r.oid}"
  Action.connector (← sv.configuredTarget c r) .discover

/-- A capability of a resource, or of its objects of a type, if it is had. -/
def capability? (r : Resource) (type : Option ObjectType) (capability : Capability) :
    Option CapabilityConfig :=
  CapabilitySet.enabled? ((type.bind (·.capabilities)).getD r.capabilities) capability

/-- Runs a script on a resource that supports scripts. -/
def runScript (oid : String) (script : ScriptRequest) : Action Json := do
  let r ← sv.get c oid
  if (capability? r none .script).isNone then
    throw (.misconfiguration (.noScriptSupport oid))
  let language := script.language.getD "default"
  c.remark .info s!"Executing {language} script on resource {oid}"
  Action.connector (← Action.ofExcept (targetOf r)) (.script script)

/-! ### Shadows -/

/-- The strategy for objects of a definition: that of their type, or of the resource, or the
default. -/
def strategyFor (r : Resource) (d : CompositeDefinition) : CachingStrategy :=
  ((d.structural.caching.bind (·.strategy)) <|> r.configuration.cachingStrategy?).getD
    sv.tuning.defaultStrategy

/-- What is needed to reconcile shadows of objects of a class of a completed resource. -/
def reconcileContext (r : Resource) (objectClass : ItemName) (type : Option TypeId)
    (auxiliary : SortedSet ItemName) (now : Instant) : Except ProvisioningError ReconcileContext :=
  match r.schema with
  | none => .error (.schemaViolation (.notCompleted r.oid))
  | some schema =>
    match schema.compose objectClass type auxiliary with
    | .error e => .error (.schemaViolation e)
    | .ok definition => .ok {
        strategy := sv.strategyFor r definition
        definition := definition
        rules := sv.rules.lookup
        now := now
        largeValueSetThreshold := sv.tuning.largeValueSetThreshold }

end Service

end Reconciler
