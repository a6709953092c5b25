/-
Failures of provisioning, by cause.

* `ConnectorError`, `StoreError`: what connectors and the repository report;
* `ProvisioningError`: what every operation reports;
* `SetupError`: why a service cannot be put together;
* `ErrorKind`: the coarse classes by which callers decide whether to try again.

Main statements:
* `ErrorKind.isRetryable_iff`: only failures of communication may be tried again;
* `ProvisioningError.kind_ofConnector`, `kind_ofStore`: a failure that is passed on keeps its class.

Design notes:
* A failed completion carries the first cause that was fatal and what was completed so far.
-/
import Reconciler.Json.Flaw
import Reconciler.Resource

namespace Reconciler

/-- Coarse classes of failures. -/
inductive ErrorKind where
  | objectNotFound
  | schemaViolation
  | configuration
  | communication
  | internal
deriving DecidableEq, Repr, Inhabited

namespace ErrorKind

/-- The name of a class. -/
def label : ErrorKind → String
  | objectNotFound => "ObjectNotFound"
  | schemaViolation => "SchemaViolation"
  | configuration => "Configuration"
  | communication => "Communication"
  | internal => "Internal"

/-- Whether the operation may be tried again. -/
def isRetryable : ErrorKind → Bool
  | communication => true
  | _ => false

theorem isRetryable_iff {k : ErrorKind} : k.isRetryable = true ↔ k = communication := by
  cases k <;> simp [isRetryable]

end ErrorKind

/-- What a connector reports. -/
inductive ConnectorError where
  | unreachable (message : String)
  | timeout (operation : String) (seconds : Nat)
  | invalidConfiguration (message : String)
  | connectorNotFound (connectorType : String)
  | unsupported (operation : String)
  | generic (message : String)
deriving DecidableEq, Repr, Inhabited

namespace ConnectorError

/-- The wording. -/
def message : ConnectorError → String
  | unreachable message => s!"target system unreachable: {message}"
  | timeout operation seconds => s!"{operation} timed out after {seconds} seconds"
  | invalidConfiguration message => s!"invalid configuration: {message}"
  | connectorNotFound connectorType => s!"connector not found: {connectorType}"
  | unsupported operation => s!"operation '{operation}' not supported by connector"
  | generic message => s!"connector failure: {message}"

/-- The class. -/
def kind : ConnectorError → ErrorKind
  | unreachable _ | timeout _ _ => .communication
  | invalidConfiguration _ | connectorNotFound _ | unsupported _ => .configuration
  | generic _ => .internal

end ConnectorError

/-- What the repository reports. -/
inductive StoreError where
  | notFound (objectType oid : String)
  | alreadyExists (objectType oid : String)
  | unavailable (message : String)
  | backend (message : String)
deriving DecidableEq, Repr, Inhabited

namespace StoreError

/-- The type of resources in messages. -/
def resourceType : String := "Resource"

/-- There is no resource with this OID. -/
def noResource (oid : String) : StoreError := notFound resourceType oid

/-- The wording. -/
def message : StoreError → String
  | notFound objectType oid => s!"{objectType} with OID {oid} not found"
  | alreadyExists objectType oid => s!"{objectType} with OID {oid} already exists"
  | unavailable message => s!"repository unavailable: {message}"
  | backend message => s!"repository failure: {message}"

/-- The class. -/
def kind : StoreError → ErrorKind
  | notFound _ _ => .objectNotFound
  | unavailable _ => .communication
  | alreadyExists _ _ | backend _ => .internal

/-- The name of the cause. -/
def label : StoreError → String
  | notFound _ _ => "NotFound"
  | alreadyExists _ _ => "AlreadyExists"
  | unavailable _ => "Unavailable"
  | backend _ => "Backend"

/-- The error with its class and cause, for inspection. -/
def toJson (e : StoreError) : Json :=
  .record [("error", .str e.kind.label), ("message", .str e.message), ("variant", .str e.label)]

end StoreError

/-- What every operation reports. -/
inductive ProvisioningError where
  | objectNotFound (objectType oid : String)
  | schemaViolation (cause : SchemaViolation)
  | misconfiguration (cause : Misconfiguration)
  | connectorUnreachable (message : String)
  | connector (cause : ConnectorError)
  | store (cause : StoreError)
  /-- A text is no JSON. -/
  | json (cause : Json.ReadError)
  | completionFailed (oid : String) (source : ProvisioningError) (partialResult : Option Resource)
  | internal (message : String)
deriving DecidableEq, Inhabited

namespace ProvisioningError

/-- The wording. -/
def message : ProvisioningError → String
  | objectNotFound objectType oid => s!"Object not found: {objectType} with OID {oid}"
  | schemaViolation cause => s!"Schema violation: {cause.message}"
  | misconfiguration cause => s!"Configuration error: {cause.message}"
  | connectorUnreachable message => s!"Connector unreachable: {message}"
  | connector cause => s!"Connector error: {cause.message}"
  | store cause => s!"Repository error: {cause.message}"
  | json cause => s!"JSON error: {cause.message}"
  | completionFailed oid source _ => s!"Completion of resource {oid} failed: " ++ source.message
  | internal message => s!"Internal error: {message}"

/-- The class. -/
def kind : ProvisioningError → ErrorKind
  | objectNotFound _ _ => .objectNotFound
  | schemaViolation _ => .schemaViolation
  | misconfiguration _ => .configuration
  | connectorUnreachable _ => .communication
  | connector cause => cause.kind
  | store cause => cause.kind
  | json _ => .schemaViolation
  | completionFailed _ source _ => source.kind
  | internal _ => .internal

/-- The name of the cause. -/
def label : ProvisioningError → String
  | objectNotFound _ _ => "ObjectNotFound"
  | schemaViolation _ => "SchemaViolation"
  | misconfiguration _ => "Misconfiguration"
  | connectorUnreachable _ => "ConnectorUnreachable"
  | connector _ => "Connector"
  | store _ => "Repository"
  | json _ => "Json"
  | completionFailed _ _ _ => "CompletionFailed"
  | internal _ => "Internal"

/-- Whether the operation may be tried again. -/
def isRetryable (e : ProvisioningError) : Bool := e.kind.isRetryable

/-- What was completed before a completion failed. -/
def partialResult? : ProvisioningError → Option Resource
  | completionFailed _ _ found => found
  | _ => none

/-- A connector's failure, passed on. -/
def ofConnector : ConnectorError → ProvisioningError
  | .unreachable message => connectorUnreachable message
  | .timeout operation seconds => connectorUnreachable s!"{operation} timed out after {seconds}s"
  | .invalidConfiguration message => misconfiguration (.other message)
  | e => connector e

/-- A failure of the repository, passed on. -/
def ofStore : StoreError → ProvisioningError
  | .notFound objectType oid => objectNotFound objectType oid
  | e => store e

theorem kind_ofConnector (e : ConnectorError) : (ofConnector e).kind = e.kind := by cases e <;> rfl

theorem kind_ofStore (e : StoreError) : (ofStore e).kind = e.kind := by cases e <;> rfl

/-- The error with its class, cause and source, for inspection; the wording of a JSON error that
is not the source of another is left out. -/
def toJson : ProvisioningError → Json
  | e@(completionFailed _ source found) =>
    .record [
      ("error", .str e.kind.label), ("message", .str e.message), ("variant", .str e.label),
      ("retryable", .bool e.isRetryable), ("source", source.toJson),
      ("partial", (found.map Resource.summary).getD .null)]
  | e@(json _) =>
    .record [
      ("error", .str e.kind.label), ("variant", .str e.label), ("retryable", .bool e.isRetryable)]
  | e =>
    .record [
      ("error", .str e.kind.label), ("message", .str e.message), ("variant", .str e.label),
      ("retryable", .bool e.isRetryable)]

end ProvisioningError

/-- Why a service cannot be put together. -/
inductive SetupError where
  | missingRepository
  | missingConnectors
  | invalidConfiguration (message : String)
deriving DecidableEq, Repr, Inhabited

namespace SetupError

/-- The wording. -/
def message : SetupError → String
  | missingRepository => "Repository is required but not provided"
  | missingConnectors => "Connector framework is required but not provided"
  | invalidConfiguration message => s!"Invalid configuration: {message}"

/-- The name of the cause. -/
def label : SetupError → String
  | missingRepository => "MissingRepository"
  | missingConnectors => "MissingConnectorFramework"
  | invalidConfiguration _ => "InvalidConfiguration"

/-- The error with its cause, for inspection. -/
def toJson (e : SetupError) : Json :=
  .record [("error", .str e.label), ("message", .str e.message)]

end SetupError

end Reconciler
