/-
Reading failures from JSON, where collaborators report them in that form.

A failure is an object; its member `type` names the cause and the others give the details.

* `ConnectorError.ofJson?`, `StoreError.ofJson?`, `ProvisioningError.ofJson?`.
-/
import Reconciler.Error
import Reconciler.Json.Reader

namespace Reconciler

/-- Reads a failure of a connector. -/
def ConnectorError.ofJson? (j : Json) : Option ConnectorError := do
  let row ← Row.named? j
  match (← row.required "type" : String) with
  | "unreachable" => return .unreachable (← row.required "message")
  | "timeout" => return .timeout (← row.required "operation") (← row.required "seconds")
  | "invalidConfiguration" => return .invalidConfiguration (← row.required "message")
  | "connectorNotFound" => return .connectorNotFound (← row.required "connectorType")
  | "unsupported" => return .unsupported (← row.required "operation")
  | "generic" => return .generic (← row.required "message")
  | _ => none

/-- Reads a failure of the repository. -/
def StoreError.ofJson? (j : Json) : Option StoreError := do
  let row ← Row.named? j
  match (← row.required "type" : String) with
  | "notFound" => return .notFound (← row.required "objectType") (← row.required "oid")
  | "resourceNotFound" => return .noResource (← row.required "oid")
  | "alreadyExists" => return .alreadyExists (← row.required "objectType") (← row.required "oid")
  | "unavailable" => return .unavailable (← row.required "message")
  | "backend" => return .backend (← row.required "message")
  | _ => none

namespace ProvisioningError

/-- What a failure of reading JSON says about a text: nothing if the text can be read. -/
def ofUnreadable? (text : String) : Option ProvisioningError :=
  match Json.ofText? text with
  | .ok _ => none
  | .error e => some (.json e)

/-- Reads a failure whose sources are nested at most `depth` deep. -/
def ofJsonWithin? : (depth : Nat) → Json → Option ProvisioningError
  | 0, _ => none
  | depth + 1, j => do
    let row ← Row.named? j
    match (← row.required "type" : String) with
    | "objectNotFound" =>
      return .objectNotFound (← row.required "objectType") (← row.required "oid")
    | "schemaViolation" => return .schemaViolation (.other (← row.required "message"))
    | "misconfiguration" => return .misconfiguration (.other (← row.required "message"))
    | "connectorUnreachable" => return .connectorUnreachable (← row.required "message")
    | "internal" => return .internal (← row.required "message")
    | "json" => ofUnreadable? (← row.required "text")
    | "connector" => return .ofConnector (← ConnectorError.ofJson? (← row.cell? "source"))
    | "repository" => return .ofStore (← StoreError.ofJson? (← row.cell? "source"))
    | "completionFailed" =>
      let left : Option Json ← row.optional "partial"
      return .completionFailed (← row.required "oid") (← ofJsonWithin? depth (← row.cell? "source"))
        (← left.mapM Resource.ofJson?)
    | _ => none

/-- Reads a failure. -/
def ofJson? (j : Json) : Option ProvisioningError := ofJsonWithin? j.height j

end ProvisioningError

end Reconciler
