/-
What can be asked for while a service is running, as data.

* `Operation`: an operation of the service, a look into the cache, or one step of someone else at
  the repository or at the cache;
* `Operation.Value`: what an operation gives if it does not fail;
* `Operation.action`: the operation as a program.

Design notes:
* Operations as data let histories of mixed operations be lists.
* Others work with the same repository and cache without the service; their steps are operations of
  one request each.
-/
import Reconciler.Service

namespace Reconciler

/-- Something that can be asked for. -/
inductive Operation where
  | get (oid : String) (noFetch : Bool)
  | complete (raw : Resource) (noFetch : Bool)
  | search (q : Query) (noFetch : Bool)
  | count (q : Query)
  | delete (oid : String)
  | setAvailability (oid : String) (status : Availability) (reason : Option String)
      (skipFetch : Bool)
  | testConnection (oid : String)
  | testPartial (r : Resource)
  | discover (r : Resource)
  | runScript (oid : String) (script : ScriptRequest)
  | cachedAt (oid : String) (expected : Version)
  | cachedLatest (oid : String)
  | atStore (r : StoreRequest)
  | atCache (r : CacheRequest)

namespace Operation

/-- What an operation gives if it does not fail. -/
@[reducible] def Value : Operation → Type
  | get _ _ => Resource
  | complete _ _ => Resource
  | search _ _ => List Resource
  | count _ => Nat
  | delete _ => Unit
  | setAvailability _ _ _ _ => Bool
  | testConnection _ => Unit
  | testPartial _ => Unit
  | discover _ => List SuggestedProperty
  | runScript _ _ => Json
  | cachedAt _ _ => Option Resource
  | cachedLatest _ => Option Resource
  | atStore r => r.Reply
  | atCache r => r.Reply

/-- The value of an operation or its failure. -/
abbrev Outcome (op : Operation) : Type := Except ProvisioningError op.Value

/-- The program of an operation. -/
def action (sv : Service) (c : Caller) : (op : Operation) → Action op.Value
  | get oid noFetch => sv.get c oid noFetch
  | complete raw noFetch => sv.complete c noFetch raw
  | search q noFetch => sv.search c q noFetch
  | count q => Service.count q
  | delete oid => Service.delete c oid
  | setAvailability oid status reason skipFetch => sv.setAvailability c oid status reason skipFetch
  | testConnection oid => sv.testConnection c oid
  | testPartial r => sv.testPartial c r
  | discover r => sv.discover c r
  | runScript oid script => sv.runScript c oid script
  | cachedAt oid expected => Definitions.at? oid expected
  | cachedLatest oid => Definitions.latest? c oid
  | atStore r => Action.store r
  | atCache r => Action.cache r

end Operation

end Reconciler
