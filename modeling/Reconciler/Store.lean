/-
The repository of resources as they are configured, before completion.

* `Query`: which resources to look for, and which page of them;
* `Store`: resources by OID, in the order of their OIDs;
* `Store.add`, `modify`, `delete`: writes; each leads to the next version of what it writes;
* `StoreRequest`: reads and writes as requests, which `Store.answer` answers.

Main statements:
* `Store.read_add`, `Store.read_modify`, `Store.read_delete`: what a write does to every read;
* `Store.mem_search_iff`: without paging, the answer holds just the selected resources.

Design notes:
* A resource sits under its own OID; the type says so.
* Deleting a resource forgets its version: an OID that is added again starts anew.
-/
import Reconciler.Error
import Reconciler.Log
import Reconciler.Text.Lowercase

namespace Reconciler

/-! ### Queries -/

/-- Which resources to look for. -/
structure Query where
  /-- Text that the name contains, in any case. -/
  nameContains : Option String := none
  /-- Templates only, or all but templates. -/
  template : Option Bool := none
  offset : Nat := 0
  maxSize : Option Nat := none
deriving DecidableEq, Repr, Inhabited

namespace Query

instance : Codec Query where
  encode q := .record [
    ("nameContains", encode q.nameContains), ("template", encode q.template),
    ("offset", encode q.offset), ("maxSize", encode q.maxSize)]
  decode? j := do
    let row ← Row.named? j
    return {
      nameContains := ← row.optional "nameContains"
      template := ← row.optional "template"
      offset := ← row.orElse "offset" 0
      maxSize := ← row.optional "maxSize" }

/-- Whether a resource is looked for, on whichever page. -/
def selects (q : Query) (r : Resource) : Bool :=
  (match q.nameContains with
    | none => true
    | some part => Text.occursIn (Text.lower part.toList) (Text.lower r.name.toList)) &&
  match q.template with
    | none => true
    | some template => r.isTemplate == template

/-- The page of a list. -/
def page {α : Type} (q : Query) (xs : List α) : List α :=
  match q.maxSize with
  | none => xs.drop q.offset
  | some size => (xs.drop q.offset).take size

theorem page_sublist {α : Type} (q : Query) (xs : List α) : (q.page xs).Sublist xs := by
  unfold page
  split
  · exact List.drop_sublist ..
  · exact (List.take_sublist ..).trans (List.drop_sublist ..)

end Query

/-! ### Contents -/

/-- Resources by OID. -/
structure Store where
  objects : SortedMap String Resource
  keyed : ∀ e ∈ objects.entries, e.2.oid = e.1

namespace Store

/-- Without resources. -/
def empty : Store := ⟨.empty, by simp [SortedMap.empty]⟩

instance : Inhabited Store := ⟨empty⟩

/-- The resource with an OID. -/
def find? (s : Store) (oid : String) : Option Resource := s.objects.get? oid

theorem oid_of_find? {s : Store} {oid : String} {r : Resource} (h : s.find? oid = some r) :
    r.oid = oid :=
  s.keyed (oid, r) (SortedMap.mem_entries_iff.2 h)

/-- Reads a resource. -/
def read (s : Store) (oid : String) : Except StoreError Resource :=
  match s.find? oid with
  | some r => .ok r
  | none => .error (.noResource oid)

/-- Reads the version of a resource. -/
def version (s : Store) (oid : String) : Except StoreError Version := do
  return (← s.read oid).version

/-- Puts a resource under its OID. -/
def put (s : Store) (r : Resource) : Store where
  objects := s.objects.insert r.oid r
  keyed e he := by
    rcases Assoc.mem_insert he with rfl | he
    · rfl
    · exact s.keyed e he

/-- Adds a resource at the initial version; one without an OID takes a fresh one. -/
def add (s : Store) (fresh : String) (r : Resource) : Except StoreError (String × Store) :=
  -- The version that the resource comes with does not matter.
  let oid := if r.oid.isEmpty then fresh else r.oid
  match s.find? oid with
  | some _ => .error (.alreadyExists StoreError.resourceType oid)
  | none => .ok (oid, s.put { r with oid := oid, version := .initial })

/-- A resource after changes, one version further. -/
def changed (r : Resource) (changes : List ResourceChange) : Resource :=
  let r := changes.foldl ResourceChange.apply r
  { r with version := r.version.next }

/-- Applies changes to a resource. -/
def modify (s : Store) (oid : String) (changes : List ResourceChange) :
    Except StoreError (Version × Store) := do
  let r := changed (← s.read oid) changes
  return (r.version, s.put r)

/-- Deletes a resource. -/
def delete (s : Store) (oid : String) : Except StoreError Store :=
  match s.find? oid with
  | none => .error (.noResource oid)
  | some _ => .ok ⟨s.objects.erase oid, fun e he => s.keyed e (List.mem_filter.1 he).1⟩

/-- The selected resources in the order of their OIDs. -/
def selected (s : Store) (q : Query) : List Resource := s.objects.values.filter q.selects

/-- The selected resources of the page. -/
def search (s : Store) (q : Query) : List Resource := q.page (s.selected q)

/-- Number of selected resources on all pages. -/
def count (s : Store) (q : Query) : Nat := (s.selected q).length

/-- Numbers of resources and of templates among them. -/
def stats (s : Store) : Nat × Nat :=
  (s.objects.size, (s.objects.values.filter Resource.isTemplate).length)

end Store

/-! ### Requests -/

/-- A step at the repository. -/
inductive StoreRequest where
  | read (oid : String)
  | version (oid : String)
  | add (r : Resource)
  | modify (oid : String) (changes : List ResourceChange)
  | delete (oid : String)
  | search (q : Query)
  | count (q : Query)

/-- What the repository answers if it does not fail. -/
@[reducible] def StoreRequest.Reply : StoreRequest → Type
  | read _ => Resource
  | version _ => Version
  | add _ => String
  | modify _ _ => Version
  | delete _ => Unit
  | search _ => List Resource
  | count _ => Nat

/-- What the repository remarks when it has answered. -/
def StoreRequest.remarks : (r : StoreRequest) → Except StoreError r.Reply → List LogRecord
  | add _, .ok oid => [⟨.trace, s!"Stored resource {oid} at version {Version.initial.toText}"⟩]
  | modify oid changes, .ok v =>
    [⟨.trace, s!"Applied {changes.length} modification(s) to resource {oid}, now at version " ++
      v.toText⟩]
  | _, _ => []

namespace Store

/-- The answer to a request, and the repository afterwards; on failure it stays as it is. -/
def answer (s : Store) (fresh : String) : (r : StoreRequest) → Except StoreError r.Reply × Store
  | .read oid => (s.read oid, s)
  | .version oid => (s.version oid, s)
  | .add r =>
    match s.add fresh r with
    | .ok (oid, next) => (.ok oid, next)
    | .error e => (.error e, s)
  | .modify oid changes =>
    match s.modify oid changes with
    | .ok (v, next) => (.ok v, next)
    | .error e => (.error e, s)
  | .delete oid =>
    match s.delete oid with
    | .ok next => (.ok (), next)
    | .error e => (.error e, s)
  | .search q => (.ok (s.search q), s)
  | .count q => (.ok (s.count q), s)

/-! ### Laws -/

theorem find?_put (s : Store) (r : Resource) (oid : String) :
    (s.put r).find? oid = if oid = r.oid then some r else s.find? oid :=
  SortedMap.get?_insert ..

theorem read_eq (s : Store) (oid : String) :
    s.read oid = match s.find? oid with
      | some r => .ok r
      | none => .error (.noResource oid) := rfl

theorem find?_of_read {s : Store} {oid : String} {r : Resource} (h : s.read oid = .ok r) :
    s.find? oid = some r := by
  rw [read_eq] at h
  cases hfind : s.find? oid with
  | none =>
    rw [hfind] at h
    cases h
  | some found =>
    rw [hfind] at h
    cases h
    rfl

theorem oid_foldl_apply (changes : List ResourceChange) (r : Resource) :
    (changes.foldl ResourceChange.apply r).oid = r.oid := by
  induction changes generalizing r with
  | nil => rfl
  | cons c rest ih => rw [List.foldl_cons, ih, ResourceChange.apply_oid]

theorem version_foldl_apply (changes : List ResourceChange) (r : Resource) :
    (changes.foldl ResourceChange.apply r).version = r.version := by
  induction changes generalizing r with
  | nil => rfl
  | cons c rest ih => rw [List.foldl_cons, ih, ResourceChange.apply_version]

@[simp] theorem changed_oid (r : Resource) (changes : List ResourceChange) :
    (changed r changes).oid = r.oid := oid_foldl_apply changes r

@[simp] theorem changed_version (r : Resource) (changes : List ResourceChange) :
    (changed r changes).version = r.version.next := by
  simp [changed, version_foldl_apply]

theorem read_add {s s' : Store} {fresh oid : String} {r : Resource}
    (h : s.add fresh r = .ok (oid, s')) (other : String) :
    s'.find? other =
      if other = oid then some { r with oid := oid, version := .initial } else s.find? other := by
  simp only [add] at h
  split at h
  · cases h
  · cases h
    exact find?_put ..

theorem read_modify {s s' : Store} {oid : String} {changes : List ResourceChange} {v : Version}
    (h : s.modify oid changes = .ok (v, s')) (other : String) :
    s'.find? other =
      if other = oid then (s.find? oid).map (changed · changes) else s.find? other := by
  simp only [modify, read_eq] at h
  cases hr : s.find? oid with
  | none => rw [hr] at h; cases h
  | some r =>
    rw [hr] at h
    cases h
    rw [find?_put, changed_oid, oid_of_find? hr]
    rfl

theorem read_delete {s s' : Store} {oid : String} (h : s.delete oid = .ok s') (other : String) :
    s'.find? other = if other = oid then none else s.find? other := by
  simp only [delete] at h
  split at h
  · cases h
  · cases h
    exact SortedMap.get?_erase ..

theorem mem_selected_iff {s : Store} {q : Query} {r : Resource} :
    r ∈ s.selected q ↔ s.find? r.oid = some r ∧ q.selects r = true := by
  rw [selected, List.mem_filter, SortedMap.values, List.mem_map]
  refine and_congr_left fun _ => ⟨?_, fun h => ⟨(r.oid, r), SortedMap.mem_entries_iff.2 h, rfl⟩⟩
  rintro ⟨⟨oid, r'⟩, hm, rfl⟩
  have := s.keyed _ hm
  exact SortedMap.mem_entries_iff.1 (this ▸ hm)

/-- What a search finds is there. -/
theorem find?_of_mem_search {s : Store} {q : Query} {r : Resource} (h : r ∈ s.search q) :
    s.find? r.oid = some r :=
  (mem_selected_iff.1 ((q.page_sublist _).subset h)).1

theorem mem_search_iff {s : Store} {q : Query} (h : q.offset = 0) (h' : q.maxSize = none)
    {r : Resource} : r ∈ s.search q ↔ s.find? r.oid = some r ∧ q.selects r = true := by
  rw [search, Query.page, h', h]
  exact mem_selected_iff

end Store

end Reconciler
