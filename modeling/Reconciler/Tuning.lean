/-
Tunables of provisioning.

* `Tuning`: history size, default strategy, threshold for large value sets, use of the cache;
* `Tuning.check`: which values cannot be worked with;
* `Tuning.ofText?`: reads tunables from a JSON document; what is missing takes its default.

Main statements:
* `Tuning.check_default`: the defaults can be worked with.
-/
import Reconciler.Error
import Reconciler.Json.Reader

namespace Reconciler

/-- Tunables of provisioning. -/
structure Tuning where
  /-- How many availability changes a resource remembers. -/
  historySize : Nat := 10
  /-- The strategy where neither resource nor object type declares one. -/
  defaultStrategy : CachingStrategy := .none
  /-- New values of an attribute are written by replacement from this number on. -/
  largeValueSetThreshold : Nat := 100
  /-- Without the cache every read completes anew. -/
  cacheEnabled : Bool := true
deriving DecidableEq, Inhabited

namespace Tuning

/-- Names of the tunables in a document. -/
def names : List String :=
  ["operationalStateHistorySize", "defaultCachingStrategy", "largeValueSetThreshold",
    "cacheEnabled"]

/-- The tunables of a row; what is missing takes its default. -/
def ofRow? (row : Row) : Option Tuning := do
  let initial : Tuning := {}
  return {
    historySize := ← row.defaulted "operationalStateHistorySize" initial.historySize
    defaultStrategy := ← row.defaulted "defaultCachingStrategy" initial.defaultStrategy
    largeValueSetThreshold :=
      ← row.defaulted "largeValueSetThreshold" initial.largeValueSetThreshold
    cacheEnabled := ← row.defaulted "cacheEnabled" initial.cacheEnabled }

instance : Codec Tuning where
  encode t := .record [
    ("operationalStateHistorySize", encode t.historySize),
    ("defaultCachingStrategy", encode t.defaultStrategy),
    ("largeValueSetThreshold", encode t.largeValueSetThreshold),
    ("cacheEnabled", encode t.cacheEnabled)]
  decode? j := Row.of? names j >>= ofRow?

/-- Rejects values that cannot be worked with. -/
def check (t : Tuning) : Except SetupError Unit :=
  if t.largeValueSetThreshold = 0 then
    .error (.invalidConfiguration "largeValueSetThreshold must be positive")
  else
    match t.defaultStrategy with
    | .other name =>
      .error (.invalidConfiguration s!"unsupported default caching strategy '{name}'")
    | _ => .ok ()

theorem check_default : check {} = .ok () := rfl

/-- The tunables in a document: an object, whose tunables must not repeat, or an array.  Members
that are no tunables only need to be well formed. -/
def ofText? (text : String) : Option Tuning :=
  match Json.membersOfText? names text with
  | some members =>
    if (members.map (·.1)).Nodup then ofRow? ⟨members, false⟩ else none
  | none =>
    match Json.ofText? text with
    | .ok (.arr items) => decode? (.arr items)
    | _ => none

end Tuning

end Reconciler
