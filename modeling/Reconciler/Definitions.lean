/-
Completed resources as the cache hands them out and takes them in.

* `Definitions.at?`: the cached resource, if it was completed from a given version;
* `Definitions.latest?`: the cached resource, if neither it nor any of its templates changed since;
* `Definitions.offer`: offers a completed resource;
* `Definitions.invalidate`, `invalidateAll`: drop what is cached.

Design notes:
* Whether a cached resource is the latest is asked of the repository: first its own version, then
  those of its templates in the order of their OIDs, up to the first that differs.
* What is dropped goes by its own version.  If a resource was completed anew in the meantime, from
  the same version of it and from later ones of its templates, then the new entry goes too.
-/
import Reconciler.Program

namespace Reconciler.Definitions

/-- The cached resource, if it was completed from this version. -/
def at? (oid : String) (expected : Version) : Program (Option Resource) := do
  match ← Action.cache (.find oid) with
  | none =>
    Program.remark .trace s!"Definition cache miss for {oid}"
    return none
  | some e =>
    if e.sourceVersion = expected then
      Program.remark .trace s!"Definition cache hit for {oid} at version {expected.toText}"
      return some e.definition
    else
      Program.remark .debug <| s!"Definition cache version mismatch for {oid}: " ++
        s!"cached {e.sourceVersion.toText}, expected {expected.toText}"
      return none

/-! ### Freshness -/

/-- The version of a resource in the repository; `none` if it is not there. -/
def currentVersion? (oid : String) : Action (Option Version) :=
  ExceptT.mk do
    match ← Program.perform (.store (.version oid)) with
    | .ok v => return .ok (some v)
    | .error (.notFound _ _) => return .ok none
    | .error e => return .error (.ofStore e)

/-- Whether templates still have the versions that were used. -/
def templatesAreCurrent (c : Caller) (oid : String) : List (String × Version) → Action Bool
  | [] => return true
  | (template, used) :: rest => do
    if (← currentVersion? template) = some used then templatesAreCurrent c oid rest
    else
      c.remark .debug s!"Ancestor {template} of {oid} changed since completion"
      return false

/-- Whether neither the resource nor any of its templates changed since it was completed. -/
def isCurrent (c : Caller) (oid : String) (e : CacheEntry) : Action Bool := do
  if (← currentVersion? oid) = some e.sourceVersion then
    templatesAreCurrent c oid e.ancestorVersions.entries
  else return false

/-- The cached resource, if it is still the latest.  If it is not, whatever is cached by then is
dropped if it has the same version. -/
def latest? (c : Caller) (oid : String) : Action (Option Resource) := do
  match ← Action.cache (.find oid) with
  | none =>
    c.remark .trace s!"Definition cache miss for {oid}"
    return none
  | some e =>
    if ← isCurrent c oid e then
      c.remark .trace s!"Definition cache hit for {oid}"
      return some e.definition
    else
      -- The entry may have been replaced while the repository was asked.
      let _ ← Action.cache (.evict oid e.sourceVersion)
      c.remark .debug s!"Evicted stale definition of {oid}"
      return none

/-! ### Changes -/

/-- What is remarked on an offer. -/
def offerRemark (d : Resource) : PutOutcome → LogRecord
  | .notCompleted =>
    ⟨.warn, s!"Refusing to cache resource {d.oid} with completion status " ++
      d.completionStatus.label⟩
  | .invalidated =>
    ⟨.debug, s!"Not caching {d.oid} at version {d.version.toText}: " ++
      "invalidated while it was being completed"⟩
  | .superseded cached =>
    ⟨.debug, s!"Not caching {d.oid} at version {d.version.toText}: " ++
      s!"version {cached.toText} already cached"⟩
  | .stored =>
    ⟨.debug, s!"Caching definition of {d.oid} at version {d.version.toText} " ++
      s!"({d.ancestorVersions.size} ancestors)"⟩

/-- Offers a completed resource, and tells whether it was taken. -/
def offer (d : Resource) (since : Option Ticket) : Program Bool := do
  let outcome ← Action.cache (.put d since)
  Program.perform (.remark (offerRemark d outcome))
  return outcome == .stored

/-- Drops a resource and all that used it as a template. -/
def invalidate (oid : String) : Program Unit := do
  let dropped ← Action.cache (.invalidate oid)
  if dropped.own || dropped.dependent != 0 then
    Program.remark .debug <| s!"Invalidated definition of {oid} " ++
      s!"({dropped.dependent} dependent definition(s) cascaded)"

/-- Drops everything. -/
def invalidateAll : Program Unit := do
  let dropped ← Action.cache .invalidateAll
  Program.remark .debug s!"Invalidating all {dropped} cached definitions"

end Reconciler.Definitions
