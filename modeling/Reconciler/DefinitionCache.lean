/-
The cache of completed resources.

An entry is tagged with the version that its resource was completed from and with the versions of
the templates that were used.  Invalidations are counted; whoever takes a ticket before reading what
is to be completed can be refused afterwards, if what was read was invalidated in between.

* `DefinitionCache.put`: offers a completed resource, with or without a ticket;
* `DefinitionCache.invalidate`, `invalidateAll`: drop entries and note that they did;
* `DefinitionCache.evict`: drops the entry of a resource, if it was completed from a given version;
* `CacheRequest`: all of these as requests, which `DefinitionCache.answer` answers.

Main statements:
* `find?_put`, `find?_evict`, `find?_invalidate`, `find?_invalidateAll`: what each does to every
  look-up;
* `put_eq_of_ne_stored`: an offer that is refused changes nothing.

Design notes:
* The history of invalidations is kept as a count, the count at the last complete one, and the count
  at the last one of each OID since then.
* Only `Resource.version` and the template versions of the offered resource count for its tags.
-/
import Reconciler.Resource

namespace Reconciler

/-- A cached resource with the versions that it was completed from. -/
structure CacheEntry where
  definition : Resource
  sourceVersion : Version
  ancestorVersions : SortedMap String Version
  insertedAt : Instant
deriving DecidableEq, Inhabited

/-- The entry of a completed resource. -/
def CacheEntry.of (definition : Resource) (now : Instant) : CacheEntry where
  definition := definition
  sourceVersion := definition.version
  ancestorVersions := definition.ancestorVersions
  insertedAt := now

/-- How many invalidations there had been at some moment. -/
structure Ticket where
  generation : Nat
deriving DecidableEq, Repr, Inhabited

/-- What is remembered about invalidations. -/
structure Invalidations where
  generation : Nat := 0
  /-- The count at the last invalidation of everything. -/
  clearedAt : Nat := 0
  /-- The counts at the last invalidations of single resources since then. -/
  byOid : SortedMap String Nat := .empty
deriving DecidableEq, Inhabited

namespace Invalidations

/-- One more, of a single resource. -/
def single (i : Invalidations) (oid : String) : Invalidations where
  generation := i.generation + 1
  clearedAt := i.clearedAt
  byOid := i.byOid.insert oid (i.generation + 1)

/-- One more, of everything. -/
def everything (i : Invalidations) : Invalidations where
  generation := i.generation + 1
  clearedAt := i.generation + 1
  byOid := .empty

/-- Whether everything or one of these resources was invalidated after a ticket was taken. -/
def since (i : Invalidations) (t : Ticket) (oids : List String) : Bool :=
  t.generation < i.clearedAt ||
    oids.any fun oid => match i.byOid.get? oid with
      | some generation => t.generation < generation
      | none => false

end Invalidations

/-- Completed resources by OID, and the history of invalidations. -/
structure DefinitionCache where
  entries : SortedMap String CacheEntry := .empty
  invalidations : Invalidations := {}
deriving DecidableEq, Inhabited

/-- What became of an offer. -/
inductive PutOutcome where
  /-- The resource is not completed. -/
  | notCompleted
  /-- It, or a template of it, was invalidated after the ticket was taken. -/
  | invalidated
  /-- A later version is in the cache. -/
  | superseded (cached : Version)
  | stored
deriving DecidableEq, Inhabited

/-- What an invalidation dropped. -/
structure Dropped where
  /-- Whether the resource itself was in the cache. -/
  own : Bool
  /-- How many entries had used it as a template. -/
  dependent : Nat
deriving DecidableEq, Repr, Inhabited

namespace DefinitionCache

/-- The entry of a resource. -/
def find? (c : DefinitionCache) (oid : String) : Option CacheEntry := c.entries.get? oid

/-- A ticket for what is about to be read. -/
def ticket (c : DefinitionCache) : Ticket := ⟨c.invalidations.generation⟩

/-- The resources on which a completed resource depends. -/
def sources (d : Resource) : List String := d.oid :: d.ancestorVersions.keys

/-- What becomes of an offer. -/
def outcomeOf (c : DefinitionCache) (d : Resource) (since : Option Ticket) : PutOutcome :=
  if !d.isCompleted then .notCompleted
  -- What was read before the invalidation may be what was invalidated.
  else if since.any fun t => c.invalidations.since t (sources d) then .invalidated
  else
    match c.find? d.oid with
    | some e => if d.version < e.sourceVersion then .superseded e.sourceVersion else .stored
    | none => .stored

/-- Offers a completed resource. -/
def put (c : DefinitionCache) (now : Instant) (d : Resource) (since : Option Ticket) :
    PutOutcome × DefinitionCache :=
  let outcome := c.outcomeOf d since
  (outcome,
    if outcome = .stored then { c with entries := c.entries.insert d.oid (.of d now) } else c)

/-- Drops the entry of a resource if it was completed from this version. -/
def evict (c : DefinitionCache) (oid : String) (version : Version) : DefinitionCache :=
  match c.find? oid with
  | some e => if e.sourceVersion = version then { c with entries := c.entries.erase oid } else c
  | none => c

/-- The entries that did not use a resource as a template. -/
def independent (entries : SortedMap String CacheEntry) (oid : String) :
    SortedMap String CacheEntry :=
  entries.filter fun _ e => !e.ancestorVersions.contains oid

/-- Drops the entry of a resource and those of all that used it as a template. -/
def invalidate (c : DefinitionCache) (oid : String) : Dropped × DefinitionCache :=
  let others := c.entries.erase oid
  let kept := independent others oid
  (⟨c.entries.contains oid, others.size - kept.size⟩, ⟨kept, c.invalidations.single oid⟩)

/-- Drops all entries. -/
def invalidateAll (c : DefinitionCache) : Nat × DefinitionCache :=
  (c.entries.size, ⟨.empty, c.invalidations.everything⟩)

end DefinitionCache

/-! ### Requests -/

/-- A step at the cache. -/
inductive CacheRequest where
  | ticket
  | find (oid : String)
  | put (definition : Resource) (since : Option Ticket)
  | evict (oid : String) (version : Version)
  | invalidate (oid : String)
  | invalidateAll

/-- What the cache answers. -/
@[reducible] def CacheRequest.Reply : CacheRequest → Type
  | ticket => Ticket
  | find _ => Option CacheEntry
  | put _ _ => PutOutcome
  | evict _ _ => Unit
  | invalidate _ => Dropped
  | invalidateAll => Nat

namespace DefinitionCache

/-- The answer to a request, and the cache afterwards. -/
def answer (c : DefinitionCache) (now : Instant) : (r : CacheRequest) → r.Reply × DefinitionCache
  | .ticket => (c.ticket, c)
  | .find oid => (c.find? oid, c)
  | .put d since => c.put now d since
  | .evict oid version => ((), c.evict oid version)
  | .invalidate oid => c.invalidate oid
  | .invalidateAll => c.invalidateAll

/-! ### Laws -/

theorem put_eq_of_ne_stored {c : DefinitionCache} {now : Instant} {d : Resource}
    {since : Option Ticket} (h : (c.put now d since).1 ≠ .stored) : (c.put now d since).2 = c := by
  simp only [put] at h ⊢
  rw [if_neg h]

theorem find?_put {c : DefinitionCache} {now : Instant} {d : Resource} {since : Option Ticket}
    (h : (c.put now d since).1 = .stored) (oid : String) :
    (c.put now d since).2.find? oid = if oid = d.oid then some (.of d now) else c.find? oid := by
  simp only [put] at h ⊢
  rw [if_pos h]
  exact SortedMap.get?_insert ..

@[simp] theorem invalidations_put (c : DefinitionCache) (now : Instant) (d : Resource)
    (since : Option Ticket) : (c.put now d since).2.invalidations = c.invalidations := by
  simp only [put]
  split <;> rfl

theorem find?_evict (c : DefinitionCache) (oid : String) (version : Version) (other : String) :
    (c.evict oid version).find? other =
      if other = oid then (c.find? oid).filter fun e => e.sourceVersion != version
      else c.find? other := by
  unfold evict
  cases h : c.find? oid with
  | none =>
    by_cases ho : other = oid
    · simp [ho, h]
    · simp [ho]
  | some e =>
    by_cases hv : e.sourceVersion = version
    · have : ((c.entries.erase oid).get? other) =
          if other = oid then none else c.entries.get? other := SortedMap.get?_erase ..
      simp only [hv, if_true, find?, this]
      split <;> simp [Option.filter, hv]
    · by_cases ho : other = oid
      · simp [ho, h, Option.filter, hv]
      · simp [ho, hv]

@[simp] theorem invalidations_evict (c : DefinitionCache) (oid : String) (version : Version) :
    (c.evict oid version).invalidations = c.invalidations := by
  unfold evict
  repeat' split
  all_goals rfl

theorem find?_invalidate (c : DefinitionCache) (oid other : String) :
    (c.invalidate oid).2.find? other =
      if other = oid then none
      else (c.find? other).filter fun e => !e.ancestorVersions.contains oid := by
  have : ((c.invalidate oid).2.find? other) =
      ((c.entries.erase oid).get? other).filter fun e => !e.ancestorVersions.contains oid :=
    SortedMap.get?_filter ..
  rw [this, SortedMap.get?_erase]
  split <;> rfl

@[simp] theorem invalidations_invalidate (c : DefinitionCache) (oid : String) :
    (c.invalidate oid).2.invalidations = c.invalidations.single oid := rfl

@[simp] theorem find?_invalidateAll (c : DefinitionCache) (oid : String) :
    c.invalidateAll.2.find? oid = none := rfl

end DefinitionCache

end Reconciler
