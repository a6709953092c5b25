/-
Kinds of resource objects, and the keys of object types.

* `ObjectKind`: the coarse category of an object;
* `TypeId`: kind and intent, by which an object type is known, displayed as `kind/intent`.
-/
import Reconciler.Json.Codec

namespace Reconciler

/-- The coarse category of a resource object. -/
inductive ObjectKind where
  | account
  | entitlement
  | generic
  | unknown
deriving DecidableEq, Repr, Inhabited

namespace ObjectKind

/-- The name of a kind. -/
def name : ObjectKind → String
  | account => "account"
  | entitlement => "entitlement"
  | generic => "generic"
  | unknown => "unknown"

instance : Named ObjectKind where
  all := [account, entitlement, generic, unknown]
  name := name
  ofName?_name a := by cases a <;> decide

instance : Codec ObjectKind := Named.codec

end ObjectKind

/-- The key of an object type. -/
structure TypeId where
  kind : ObjectKind
  intent : String
deriving DecidableEq, Repr, Inhabited

/-- The display of a key. -/
def TypeId.toText (id : TypeId) : String := id.kind.name ++ "/" ++ id.intent

instance : Codec TypeId where
  encode id := .record [("kind", encode id.kind), ("intent", encode id.intent)]
  decode? j := do
    let row ← Row.of? ["kind", "intent"] j
    return { kind := ← row.required "kind", intent := ← row.required "intent" }

end Reconciler
