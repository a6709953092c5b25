/-
Resources: external systems that are reached through a connector.

One type covers both a resource as it is stored and a resource as completed; completion fills in the
effective capabilities, the schema and the versions of the templates it used, and sets the status.

* `Resource`: a resource, stored or completed; it is written in short and in full;
* `ResourceChange`: what writing to a stored resource can do to it.

Main statements:
* `ResourceChange.apply_oid`, `apply_version`: what no change touches.
-/
import Reconciler.Availability
import Reconciler.Configuration
import Reconciler.Schema
import Reconciler.Version

namespace Reconciler

/-- How far completion got. -/
inductive CompletionStatus where
  | notCompleted
  | completed
  | completedWithErrors
deriving DecidableEq, Repr, Inhabited

namespace CompletionStatus

/-- The name of a status. -/
def name : CompletionStatus → String
  | notCompleted => "NOT_COMPLETED"
  | completed => "COMPLETED"
  | completedWithErrors => "COMPLETED_WITH_ERRORS"

/-- The name of a status in messages. -/
def label : CompletionStatus → String
  | notCompleted => "NotCompleted"
  | completed => "Completed"
  | completedWithErrors => "CompletedWithErrors"

instance : Named CompletionStatus where
  all := [notCompleted, completed, completedWithErrors]
  name := name
  ofName?_name a := by cases a <;> decide

instance : Codec CompletionStatus := Named.codec

end CompletionStatus

/-- An external system, as stored or as completed. -/
structure Resource where
  oid : String
  name : String
  /-- The version at which the resource was read. -/
  version : Version := .initial
  configuration : Configuration := {}
  completionStatus : CompletionStatus := .notCompleted
  /-- What can be done with the resource; empty until it is completed. -/
  capabilities : CapabilitySet := .empty
  /-- The versions of the templates that completion used. -/
  ancestorVersions : SortedMap String Version := .empty
  schema : Option Schema := none
  operationalState : OperationalState := {}
deriving DecidableEq, Inhabited

namespace Resource

/-- Whether the resource is completed without errors. -/
def isCompleted (r : Resource) : Bool := r.completionStatus == .completed

/-- The last availability observed. -/
def availability (r : Resource) : Option Availability := r.operationalState.lastStatus

/-- Whether the resource only serves as a template. -/
def isTemplate (r : Resource) : Bool := r.configuration.isTemplate

/-- Versions by object, as text. -/
def versionsJson (versions : SortedMap String Version) : Json :=
  .record (versions.entries.map fun e => (e.1, .str e.2.toText))

/-- What a summary and a full description of a resource share. -/
def headline (r : Resource) : List (String × Json) := [
  ("oid", .str r.oid), ("name", .str r.name), ("version", .str r.version.toText),
  ("completionStatus", encode r.completionStatus), ("completed", .bool r.isCompleted),
  ("template", .bool r.isTemplate),
  ("availability", encode (r.availability.map Availability.label)),
  ("ancestorVersions", versionsJson r.ancestorVersions)]

/-- A summary of a resource. -/
def summary (r : Resource) : Json :=
  .record (r.headline ++ [
    ("enabled", encode (CapabilitySet.enabledNames r.capabilities)),
    ("types", encode (r.schema.map fun s => s.types.map fun t => t.id.toText))])

/-- A full description of a resource. -/
def toJson (r : Resource) : Json :=
  .record (r.headline ++ [
    ("configuration", encode r.configuration), ("capabilities", encode r.capabilities),
    ("operationalState", encode r.operationalState),
    ("schema", (r.schema.map Schema.toJson).getD .null),
    ("cachingStrategy", encode r.configuration.cachingStrategy?)])

/-- A version written as text. -/
def versionOf? (j : Json) : Option Version := do
  (Version.ofText? (← j.text?)).toOption

/-- Versions by object, written as text. -/
def versionsOf? : Json → Option (SortedMap String Version)
  | .obj members => do
    return .ofList (← members.mapM fun e => do return (e.1, ← versionOf? e.2))
  | _ => none

/-- Reads a resource; only its OID and its name must be there. -/
def ofJson? (j : Json) : Option Resource := do
  let row ← Row.named? j
  let ancestors : Option Json ← row.optional "ancestorVersions"
  return {
    oid := ← row.required "oid"
    name := ← row.required "name"
    version := ← match row.cell? "version" with
      | none => some .initial
      | some v => versionOf? v
    configuration := ← row.orElse "configuration" {}
    completionStatus := ← row.orElse "completionStatus" .notCompleted
    capabilities := ← row.orElse "capabilities" .empty
    ancestorVersions := ← match ancestors with
      | none => some .empty
      | some versions => versionsOf? versions
    operationalState := ← row.orElse "operationalState" {} }

end Resource

/-- What a write does to a stored resource. -/
inductive ResourceChange where
  | recordAvailability (change : AvailabilityChange) (historyLimit : Nat)
  | replaceConfiguration (configuration : Configuration)
  | rename (name : String)
deriving DecidableEq

namespace ResourceChange

/-- The resource after a change. -/
def apply (r : Resource) : ResourceChange → Resource
  | recordAvailability change limit =>
    { r with operationalState := r.operationalState.record limit change }
  | replaceConfiguration configuration => { r with configuration := configuration }
  | rename name => { r with name := name }

/-- Reads the recording of an availability change. -/
def recordingOf? (j : Json) : Option ResourceChange := do
  let row ← Row.named? j
  return .recordAvailability (← row.required "change") (← row.required "historyLimit")

/-- Reads a change: a new name, or a configuration, or an availability change. -/
def ofJson? (j : Json) : Option ResourceChange := do
  let row ← Row.named? j
  match ← row.optional "rename" with
  | some name => return .rename name
  | none =>
    match ← row.optional "configuration" with
    | some configuration => return .replaceConfiguration configuration
    | none => recordingOf? (← row.cell? "availability")

@[simp] theorem apply_oid (r : Resource) (c : ResourceChange) : (apply r c).oid = r.oid := by
  cases c <;> rfl

@[simp] theorem apply_version (r : Resource) (c : ResourceChange) :
    (apply r c).version = r.version := by
  cases c <;> rfl

end ResourceChange

end Reconciler
