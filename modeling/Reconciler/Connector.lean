/-
What is said to connectors and what they report.

* `ConnectorReference`: which connector serves a resource;
* `NativeSchema`: the object classes that a connector reports, with their attributes;
* `SuggestedProperty`, `ScriptRequest`: proposals for settings, and scripts to run.
-/
import Reconciler.Attribute.ValueType
import Reconciler.ItemName
import Reconciler.Settings

namespace Reconciler

/-- Which connector serves a resource. -/
structure ConnectorReference where
  connectorType : String
  version : Option String := none
deriving DecidableEq, Repr, Inhabited

instance : Codec ConnectorReference where
  encode r := .record [("connectorType", encode r.connectorType), ("version", encode r.version)]
  decode? j := do
    let row ← Row.of? ["connectorType", "version"] j
    return { connectorType := ← row.required "connectorType", version := ← row.optional "version" }

/-- An attribute as a connector reports it. -/
structure NativeAttribute where
  name : ItemName
  valueType : ValueType := .string
  minOccurs : UInt32 := 0
  /-- `none` means that there is no bound. -/
  maxOccurs : Option UInt32 := some 1
  canCreate : Bool := true
  canRead : Bool := true
  canUpdate : Bool := true
  matchingRule : Option String := none
deriving DecidableEq, Repr, Inhabited

instance : Codec NativeAttribute where
  encode a := .record [
    ("name", encode a.name), ("valueType", encode a.valueType),
    ("minOccurs", encode a.minOccurs), ("maxOccurs", encode a.maxOccurs),
    ("canCreate", encode a.canCreate), ("canRead", encode a.canRead),
    ("canUpdate", encode a.canUpdate), ("matchingRule", encode a.matchingRule)]
  decode? j := do
    let row ← Row.of? ["name", "valueType", "minOccurs", "maxOccurs", "canCreate", "canRead",
      "canUpdate", "matchingRule"] j
    return {
      name := ← row.required "name"
      valueType := ← row.defaulted "valueType" .string
      minOccurs := ← row.defaulted "minOccurs" 0
      maxOccurs := ← row.defaulted "maxOccurs" (some 1)
      canCreate := ← row.defaulted "canCreate" true
      canRead := ← row.defaulted "canRead" true
      canUpdate := ← row.defaulted "canUpdate" true
      matchingRule := ← row.defaulted "matchingRule" none }

namespace NativeAttribute

/-- The attribute, not to be written any more. -/
def readOnly (a : NativeAttribute) : NativeAttribute :=
  { a with canCreate := false, canUpdate := false }

/-- The attribute, not to be read any more. -/
def writeOnly (a : NativeAttribute) : NativeAttribute := { a with canRead := false }

end NativeAttribute

/-- An object class as a connector reports it. -/
structure NativeClass where
  name : ItemName
  auxiliary : Bool := false
  attributes : List NativeAttribute := []
  primaryIdentifiers : List ItemName := []
  secondaryIdentifiers : List ItemName := []
  displayNameAttribute : Option ItemName := none
  namingAttribute : Option ItemName := none
deriving DecidableEq, Repr, Inhabited

instance : Codec NativeClass where
  encode c := .record [
    ("name", encode c.name), ("auxiliary", encode c.auxiliary),
    ("attributes", encode c.attributes), ("primaryIdentifiers", encode c.primaryIdentifiers),
    ("secondaryIdentifiers", encode c.secondaryIdentifiers),
    ("displayNameAttribute", encode c.displayNameAttribute),
    ("namingAttribute", encode c.namingAttribute)]
  decode? j := do
    let row ← Row.of? ["name", "auxiliary", "attributes", "primaryIdentifiers",
      "secondaryIdentifiers", "displayNameAttribute", "namingAttribute"] j
    return {
      name := ← row.required "name"
      auxiliary := ← row.defaulted "auxiliary" false
      attributes := ← row.defaulted "attributes" []
      primaryIdentifiers := ← row.defaulted "primaryIdentifiers" []
      secondaryIdentifiers := ← row.defaulted "secondaryIdentifiers" []
      displayNameAttribute := ← row.defaulted "displayNameAttribute" none
      namingAttribute := ← row.defaulted "namingAttribute" none }

/-- The schema that a connector reports. -/
structure NativeSchema where
  classes : List NativeClass := []
deriving DecidableEq, Repr, Inhabited

/-- The first class whose name agrees with this one. -/
def NativeSchema.findClass? (s : NativeSchema) (name : ItemName) : Option NativeClass :=
  s.classes.find? fun c => c.name.agrees name

instance : Codec NativeSchema where
  encode s := .record [("objectClasses", encode s.classes)]
  decode? j := do
    let row ← Row.of? ["objectClasses"] j
    return { classes := ← row.required "objectClasses" }

/-- A setting that a connector proposes, with its possible values. -/
structure SuggestedProperty where
  name : String
  values : List Json
deriving DecidableEq, Inhabited

instance : Codec SuggestedProperty where
  encode p := .record [("name", encode p.name), ("values", encode p.values)]
  decode? j := do
    let row ← Row.of? ["name", "values"] j
    return { name := ← row.required "name", values := ← row.required "values" }

/-- A script to run on a resource. -/
structure ScriptRequest where
  language : Option String
  code : String
  arguments : Settings
deriving DecidableEq, Inhabited

instance : Codec ScriptRequest where
  encode s := .record [
    ("language", encode s.language), ("code", encode s.code), ("arguments", encode s.arguments)]
  decode? j := do
    let row ← Row.of? ["language", "code", "arguments"] j
    return {
      language := ← row.optional "language"
      code := ← row.required "code"
      arguments := ← row.defaulted "arguments" .empty }

end Reconciler
