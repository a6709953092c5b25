/-
Causes of failures that lie in the data or in the configuration.

* `SchemaViolation`: something does not conform to a schema;
* `Misconfiguration`: something was set up wrongly.

Each cause carries what its wording needs; the wording is given once, by `message`.  The case
`other` is for causes that are known by their wording only.
-/
import Reconciler.Attribute.ValueType
import Reconciler.ItemName
import Reconciler.Json.Text
import Reconciler.ObjectKind

namespace Reconciler

/-- Why data does not conform to a schema. -/
inductive SchemaViolation where
  | unknownRule (rule : String)
  | ruleNotApplicable (rule : String) (valueType : ValueType)
  | unknownType (id : TypeId)
  | classMismatch (id : TypeId) (defined requested : ItemName)
  | unknownClass (name : ItemName)
  | unknownAuxiliary (name : ItemName)
  | noStoredSchema
  | notCompleted (oid : String)
  | other (text : String)
deriving DecidableEq

/-- The wording of a schema violation. -/
def SchemaViolation.message : SchemaViolation → String
  | unknownRule rule => s!"Unknown matching rule '{rule}'"
  | ruleNotApplicable rule valueType =>
    s!"Matching rule '{rule}' cannot be applied to {valueType.label} values"
  | unknownType id => s!"Unknown object type {id.toText}"
  | classMismatch id defined requested =>
    s!"Object type {id.toText} is defined for {defined.toText}, not {requested.toText}"
  | unknownClass name => s!"Unknown object class {name.toText}"
  | unknownAuxiliary name => s!"Unknown auxiliary object class {name.toText}"
  | noStoredSchema => "no stored schema available without fetch"
  | notCompleted oid => s!"Resource {oid} has no schema; it must be completed first"
  | other text => text

/-- What was set up wrongly. -/
inductive Misconfiguration where
  | rawLimitation (item : ItemName)
  | occursInverted (item : ItemName) (least greatest : UInt32)
  | duplicateType (id : TypeId)
  | twoDefaults (first second : TypeId)
  | typeWithoutClass (id : TypeId)
  | typeWithUnknownClass (id : TypeId) (name : ItemName)
  | typeWithUnknownAuxiliary (id : TypeId) (name : ItemName)
  | refinementWithoutName (id : TypeId)
  | refinementWithoutAttribute (id : TypeId) (item objectClass : ItemName)
  | unknownCapability (name : String)
  | capabilityEnabled (name : String) (found : Json)
  | capabilityOverride (name : String) (found : Json)
  | unsupportedStrategy (name : String)
  | templateCycle (oid resource : String)
  | templateDepth (limit : Nat) (resource : String)
  | noConnector
  | resourceWithoutConnector (oid : String)
  | noScriptSupport (oid : String)
  | other (text : String)
deriving DecidableEq

/-- The wording of a misconfiguration. -/
def Misconfiguration.message : Misconfiguration → String
  | rawLimitation item =>
    s!"Attribute '{item.toText}' declares a RAW-layer limitation; RAW is connector-reported"
  | occursInverted item least greatest =>
    s!"Attribute '{item.toText}' has minOccurs {least} greater than maxOccurs {greatest}"
  | duplicateType id => s!"Object type {id.toText} is defined more than once"
  | twoDefaults first second =>
    s!"Object types {first.toText} and {second.toText} are both marked default for kind " ++
      second.kind.name
  | typeWithoutClass id => s!"Object type {id.toText} does not name an object class"
  | typeWithUnknownClass id name =>
    s!"Object type {id.toText} refers to unknown object class {name.toText}"
  | typeWithUnknownAuxiliary id name =>
    s!"Object type {id.toText} refers to unknown auxiliary object class {name.toText}"
  | refinementWithoutName id => s!"Attribute refinement without a name in object type {id.toText}"
  | refinementWithoutAttribute id item objectClass =>
    s!"Object type {id.toText} refines attribute {item.toText} not present in object class " ++
      objectClass.toText
  | unknownCapability name => s!"Unknown capability '{name}'"
  | capabilityEnabled name found =>
    s!"Capability '{name}' has non-boolean 'enabled': {found.compact}"
  | capabilityOverride name found =>
    s!"Capability '{name}' override must be a boolean or an object, got {found.compact}"
  | unsupportedStrategy name => s!"Unsupported caching strategy '{name}'"
  | templateCycle oid resource => s!"Template cycle detected at {oid} while completing {resource}"
  | templateDepth limit resource => s!"More than {limit} templates above {resource}"
  | noConnector => "resource has no connector reference"
  | resourceWithoutConnector oid => s!"Resource {oid} has no connector reference"
  | noScriptSupport oid => s!"Resource {oid} does not support script execution"
  | other text => text

end Reconciler
