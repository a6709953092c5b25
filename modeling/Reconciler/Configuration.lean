/-
The configuration of a resource, and how it is inherited from templates.

* `Configuration.mergedOver`: a configuration on top of the one it inherits;
* `Configuration.cachingStrategy?`: the declared caching strategy.

Main statements:
* `Configuration.mergedOver_superRef`, `mergedOver_isTemplate`: what is never inherited.

Design notes:
* Single settings of the child win when they are there.  Connector settings are merged leaf by leaf,
  capability overrides name by name, and declared types by kind and intent.
-/
import Reconciler.Connector
import Reconciler.ObjectType.Declaration

namespace Reconciler

/-- What administrators set for a resource. -/
structure Configuration where
  connector : Option ConnectorReference := none
  connectorSettings : Settings := .empty
  /-- Overrides of capabilities by name. -/
  capabilities : Settings := .empty
  declarations : List TypeDeclaration := []
  caching : Option CachingPolicy := none
  /-- The template that this resource inherits from. -/
  superRef : Option String := none
  isTemplate : Bool := false
  /-- The connector's schema as an earlier completion stored it. -/
  nativeSchema : Option NativeSchema := none
  /-- The connector's capabilities as an earlier completion stored them. -/
  nativeCapabilities : Option CapabilitySet := none
deriving DecidableEq, Inhabited

namespace Configuration

/-- The configuration on top of one that it inherits. -/
def mergedOver (child parent : Configuration) : Configuration where
  connector := child.connector <|> parent.connector
  connectorSettings := Settings.deepMerge parent.connectorSettings child.connectorSettings
  capabilities := parent.capabilities.overlay child.capabilities
  declarations := TypeDeclaration.merge parent.declarations child.declarations
  caching := child.caching <|> parent.caching
  superRef := child.superRef
  isTemplate := child.isTemplate
  nativeSchema := child.nativeSchema <|> parent.nativeSchema
  nativeCapabilities := child.nativeCapabilities <|> parent.nativeCapabilities

/-- The declared caching strategy. -/
def cachingStrategy? (c : Configuration) : Option CachingStrategy :=
  c.caching >>= CachingPolicy.strategy

@[simp] theorem mergedOver_superRef (child parent : Configuration) :
    (child.mergedOver parent).superRef = child.superRef := rfl

@[simp] theorem mergedOver_isTemplate (child parent : Configuration) :
    (child.mergedOver parent).isTemplate = child.isTemplate := rfl

instance : Codec Configuration where
  encode c := .record [
    ("connectorRef", encode c.connector), ("connectorConfiguration", encode c.connectorSettings),
    ("capabilities", encode c.capabilities), ("schemaHandling", encode c.declarations),
    ("caching", encode c.caching), ("superRef", encode c.superRef),
    ("isTemplate", encode c.isTemplate), ("nativeSchema", encode c.nativeSchema),
    ("nativeCapabilities", encode c.nativeCapabilities)]
  decode? j := do
    let row ← Row.of? ["connectorRef", "connectorConfiguration", "capabilities", "schemaHandling",
      "caching", "superRef", "isTemplate", "nativeSchema", "nativeCapabilities"] j
    return {
      connector := ← row.defaulted "connectorRef" none
      connectorSettings := ← row.defaulted "connectorConfiguration" .empty
      capabilities := ← row.defaulted "capabilities" .empty
      declarations := ← row.defaulted "schemaHandling" []
      caching := ← row.defaulted "caching" none
      superRef := ← row.defaulted "superRef" none
      isTemplate := ← row.defaulted "isTemplate" false
      nativeSchema := ← row.defaulted "nativeSchema" none
      nativeCapabilities := ← row.defaulted "nativeCapabilities" none }

end Configuration

end Reconciler
