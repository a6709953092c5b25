/-
Reconciling a shadow: the smallest delta that brings it in line with an object as just observed.

* `ReconcileContext.delta`: the whole delta, as the modifications of attributes, name, auxiliary
  classes, presence, production and cached data in this order;
* `ReconcileContext.remarks`: what is remarked on the way, also if an error ends it early.

Main statements:
* `mem_attributeDelta_path`: for an observed attribute, only what is stored of it is touched;
* `normalForms_nodup`: normal forms are listed once each;
* `delta_other`: an unknown strategy fails whatever was observed.

Design notes:
* A strategy that keeps identifiers only retains just these; the passive one retains whatever may be
  read at the model layer and is not declared uncached.
* Attributes are taken in the order of their observed names.  What the shadow stores under a name
  that no retained observed attribute is stored under is deleted.
* The rule of an attribute is looked up only where values are compared, so a rule that cannot be
  found only matters there.
-/
import Reconciler.Error
import Reconciler.Log
import Reconciler.MatchingRule
import Reconciler.Shadow.Delta
import Reconciler.Shadow.Observation

namespace Reconciler

/-! ### Values in normal form -/

/-- The values without those that are the same as an earlier one. -/
def Json.distinct : List Json → List Json
  | [] => []
  | v :: rest => v :: (distinct rest).filter fun w => !v.same w

/-- The normal forms of values, each once, in order. -/
def MatchingRule.normalForms (rule : MatchingRule) (values : List Json) : List Json :=
  Json.distinct (values.map rule.normalize)

theorem Json.distinct_pairwise (values : List Json) :
    (Json.distinct values).Pairwise fun v w => v.same w = false := by
  induction values with
  | nil => exact .nil
  | cons v rest ih =>
    refine List.pairwise_cons.2 ⟨fun w hw => ?_, ih.filter _⟩
    simpa using (List.mem_filter.1 hw).2

theorem normalForms_nodup (rule : MatchingRule) (values : List Json) :
    (rule.normalForms values).Pairwise fun v w => v.same w = false :=
  Json.distinct_pairwise _

/-! ### What is retained -/

/-- Which attributes a shadow keeps. -/
inductive Retention where
  | identifiersOnly
  | readable
deriving DecidableEq, Repr, Inhabited

/-- What a strategy retains; an unknown one cannot be followed. -/
def CachingStrategy.retention : CachingStrategy → Except Misconfiguration Retention
  | .none => .ok .identifiersOnly
  | .passive => .ok .readable
  | .other name => .error (.unsupportedStrategy name)

/-- All that reconciling needs besides the shadow and the observation. -/
structure ReconcileContext where
  strategy : CachingStrategy
  definition : CompositeDefinition
  rules : RuleLookup
  now : Instant
  /-- New values are written by replacement from this number on. -/
  largeValueSetThreshold : Nat := 100

namespace ReconcileContext

variable (ctx : ReconcileContext) (retention : Retention) (s : Shadow) (known : Option Delta)

/-- Whether values of the attribute are kept in shadows. -/
def isPersisted (a : AttributeDefinition) : Bool :=
  ctx.definition.isIdentifier a.name ||
    match retention with
    | .identifiersOnly => false
    | .readable => (a.propertiesAt .model).canRead && a.cached != some false

/-- The observed attributes that are kept, each with its definition. -/
def persisted (o : Observation) : List (AttributeDefinition × ObservedAttribute) :=
  o.attributes.entries.filterMap fun e =>
    match ctx.definition.findAttribute? e.1 with
    | some a => if ctx.isPersisted retention a then some (a, e.2) else none
    | none => none

/-! ### Attributes -/

/-- The rule by which values of the attribute are compared. -/
def ruleOf (a : AttributeDefinition) : Except SchemaViolation MatchingRule :=
  ctx.rules a.matchingRule a.valueType

/-- Values for an attribute without stored ones. -/
def fillDelta (a : AttributeDefinition) (name : ItemName) (observed : List Json) : ItemDelta :=
  if a.indexOnly || ctx.largeValueSetThreshold ≤ observed.length then
    { path := .attributeValues name, replace := some observed }
  else { path := .attributeValues name, add := observed }

/-- The first values replaced if they differ. -/
def singleDelta (rule : MatchingRule) (name : ItemName) (stored observed : List Json) : Delta :=
  let agree := match observed.head?, stored.head? with
    | some v, some w => v.same (rule.normalize w)
    | none, none => true
    | _, _ => false
  if agree then [] else [{ path := .attributeValues name, replace := some (observed.take 1) }]

/-- Observed values that are missing, and stored ones that were not observed. -/
def multiDelta (rule : MatchingRule) (name : ItemName) (stored observed : List Json) :
    ItemDelta where
  path := .attributeValues name
  add := observed.filter fun v => !v.isIn (stored.map rule.normalize)
  delete := stored.filter fun v => !(rule.normalize v).isIn observed

/-- The modifications for an attribute all of whose values were observed. -/
def completeDelta (a : AttributeDefinition) (name : ItemName) (values : List Json) :
    Except SchemaViolation Delta := do
  let rule ← ctx.ruleOf a
  let observed := rule.normalForms values
  let stored := s.valuesAt name
  return if stored.isEmpty then
      -- Nothing to compare with: all observed values are new.
      if observed.isEmpty then [] else [ctx.fillDelta a name observed]
    else if a.isSingleValued then singleDelta rule name stored observed
    else Delta.push [] (multiDelta rule name stored observed)

/-- A reported modification with its values in normal form, for the stored name. -/
def normalizedDelta (rule : MatchingRule) (name : ItemName) (m : ItemDelta) : ItemDelta where
  path := .attributeValues name
  add := rule.normalForms m.add
  delete := rule.normalForms m.delete
  replace := m.replace.map rule.normalForms

/-- The modifications for an attribute some of whose values were observed: what was reported of it,
if anything. -/
def incompleteDelta (a : AttributeDefinition) (name : ItemName) : Except SchemaViolation Delta :=
  match known >>= fun d => d.findAgreeing? a.name with
  | none => .ok []
  | some m => do
    let rule ← ctx.ruleOf a
    return Delta.push [] (normalizedDelta rule name m)

/-- The modifications for one observed attribute. -/
def attributeDelta (a : AttributeDefinition) (observed : ObservedAttribute) :
    Except SchemaViolation Delta :=
  let name := s.storedName a.name
  if observed.incomplete then ctx.incompleteDelta known a name
  else ctx.completeDelta s a name observed.values

/-- The names under which observed attributes are stored. -/
def handledNames (o : Observation) : List ItemName :=
  (ctx.persisted retention o).map fun p => s.storedName p.1.name

/-- Deletes what is stored of attributes that were not observed or are not kept any more. -/
def staleDelta (o : Observation) : Delta :=
  s.attributes.entries.filterMap fun e =>
    if e.1 ∈ ctx.handledNames retention s o ∨ e.2 = [] then none
    else some { path := .attributeValues e.1, delete := e.2 }

/-- The modifications of attributes. -/
def attributesDelta (o : Observation) : Except SchemaViolation Delta := do
  let observed ← (ctx.persisted retention o).mapM fun p => ctx.attributeDelta s known p.1 p.2
  return observed.flatten ++ ctx.staleDelta retention s o

/-! ### Other items -/

/-- The name, if one can be derived that is not the stored one. -/
def nameDelta (o : Observation) : Delta :=
  match ctx.definition.deriveName? o.values with
  | none => []
  | some derived =>
    if s.name = some derived then [] else [{ path := .name, replace := some [encode derived] }]

/-- Whether every name of the second set agrees with one of the first. -/
def covers (names others : SortedSet ItemName) : Bool :=
  others.toList.all fun other => names.toList.any (·.agrees other)

/-- The auxiliary classes, if they are not the stored ones. -/
def auxiliaryDelta (o : Observation) : Delta :=
  if covers s.auxiliaryClasses o.auxiliaryClasses &&
      covers o.auxiliaryClasses s.auxiliaryClasses then []
  else [{ path := .auxiliaryClasses, replace := some (o.auxiliaryClasses.toList.map encode) }]

/-- Only a shadow whose object is still being created learns that the object exists. -/
def presenceDelta (lifecycle : LifecycleState) : Delta :=
  if lifecycle.isPreCreation && !s.isPresent then
    [{ path := .presence, replace := some [encode true] }]
  else []

/-- The classification of the object, if it is known and not the stored one. -/
def productionDelta (o : Observation) : Delta :=
  match o.production with
  | none => []
  | some production =>
    if s.production = some production then []
    else [{ path := .production, replace := some [encode production] }]

/-- Activation properties that differ. -/
def activationDelta (o : Observation) : Delta :=
  ActivationProperty.all.filterMap fun p =>
    let observed := p.valuesOf o.activation
    if observed = p.valuesOf s.activation then none
    else some { path := .activation p, replace := some observed }

/-- Whether a kept attribute was observed in part and nothing is known about the rest. -/
def isLacking (o : Observation) : Bool :=
  known.isNone && (ctx.persisted retention o).any (·.2.incomplete)

/-- The time of this copy, if it is a full one. -/
def stampDelta (o : Observation) : Delta :=
  if ctx.isLacking retention known o then []
  else
    let metadata : CachingMetadata := { retrievedAt := ctx.now }
    [{ path := .cachingMetadata, replace := some [encode metadata] }]

/-- What is kept beyond identifiers: activation and the time of the copy, or nothing. -/
def cacheDelta (o : Observation) : Delta :=
  match retention with
  | .identifiersOnly =>
    if s.cachingMetadata.isSome then [{ path := .cachingMetadata, replace := some [] }] else []
  | .readable => activationDelta s o ++ ctx.stampDelta retention known o

/-- The modifications of all items but attributes. -/
def itemsDelta (o : Observation) (lifecycle : LifecycleState) : Delta :=
  ctx.nameDelta s o ++ auxiliaryDelta s o ++ presenceDelta s lifecycle ++ productionDelta s o ++
    ctx.cacheDelta retention s known o

/-- The delta that brings a shadow in line with what was observed.  What is known to have changed
counts for attributes that were observed in part. -/
def delta (ctx : ReconcileContext) (s : Shadow) (o : Observation) (known : Option Delta)
    (lifecycle : LifecycleState) : Except ProvisioningError Delta :=
  match ctx.strategy.retention with
  | .error e => .error (.misconfiguration e)
  | .ok retention =>
    match ctx.attributesDelta retention s known o with
    | .error e => .error (.schemaViolation e)
    | .ok changes => .ok (changes ++ ctx.itemsDelta retention s known o lifecycle)

theorem delta_other {name : String} (h : ctx.strategy = .other name) (o : Observation)
    (lifecycle : LifecycleState) :
    ctx.delta s o known lifecycle = .error (.misconfiguration (.unsupportedStrategy name)) := by
  simp [delta, h, CachingStrategy.retention]

/-! ### Remarks -/

/-- Remarks on attributes that keep their stored values, up to the first error. -/
def attributeRemarks (o : Observation) : List LogRecord :=
  ((ctx.persisted retention o).takeWhile fun p =>
      (ctx.attributeDelta s known p.1 p.2).isOk).filterMap fun p =>
    if p.2.incomplete && known.isNone then
      some ⟨.trace, s!"Attribute {p.1.name.toText} is incomplete, keeping cached values"⟩
    else none

/-- The remark on a copy that is not a full one. -/
def stampRemarks (o : Observation) : List LogRecord :=
  if retention = .readable && ctx.isLacking retention known o then
    [⟨.trace, s!"Not refreshing caching metadata of {s.oid}: incomplete attributes"⟩]
  else []

/-- What is remarked while a delta is computed. -/
def remarks (ctx : ReconcileContext) (s : Shadow) (o : Observation) (known : Option Delta)
    (lifecycle : LifecycleState) : List LogRecord :=
  match ctx.strategy.retention with
  | .error _ => []
  | .ok retention =>
    ctx.attributeRemarks retention s known o ++
      match ctx.delta s o known lifecycle with
      | .error _ => []
      | .ok d =>
        ctx.stampRemarks retention s known o ++
          [⟨.trace, s!"Computed {d.length} modification(s) for shadow {s.oid}"⟩]

/-! ### Which items are touched -/

theorem path_of_mem_push {m n : ItemDelta} (h : n ∈ Delta.push [] m) : n.path = m.path := by
  unfold Delta.push at h
  split at h
  · simp at h
  · simp only [List.nil_append, List.mem_singleton] at h
    rw [h]

theorem mem_completeDelta_path {a : AttributeDefinition} {name : ItemName} {values : List Json}
    {d : Delta} (h : ctx.completeDelta s a name values = .ok d) {m : ItemDelta} (hm : m ∈ d) :
    m.path = .attributeValues name := by
  unfold completeDelta at h
  cases hr : ctx.ruleOf a with
  | error e => rw [hr] at h; cases h
  | ok rule =>
    rw [hr] at h
    cases h
    split at hm
    · split at hm
      · simp at hm
      · rw [List.mem_singleton.1 hm, fillDelta]
        split <;> rfl
    · split at hm
      · unfold singleDelta at hm
        dsimp only at hm
        generalize (match (rule.normalForms values).head?, (s.valuesAt name).head? with
          | some v, some w => v.same (rule.normalize w)
          | none, none => true
          | _, _ => false) = agree at hm
        cases agree
        · rw [List.mem_singleton.1 hm]
        · simp at hm
      · exact path_of_mem_push hm

theorem mem_attributeDelta_path {a : AttributeDefinition} {observed : ObservedAttribute} {d : Delta}
    (h : ctx.attributeDelta s known a observed = .ok d) {m : ItemDelta} (hm : m ∈ d) :
    m.path = .attributeValues (s.storedName a.name) := by
  unfold attributeDelta at h
  dsimp only at h
  split at h
  · unfold incompleteDelta at h
    split at h
    · cases h; simp at hm
    · cases hr : ctx.ruleOf a with
      | error e => rw [hr] at h; cases h
      | ok rule =>
        rw [hr] at h
        cases h
        exact path_of_mem_push hm
  · exact ctx.mem_completeDelta_path s h hm

end ReconcileContext

end Reconciler
