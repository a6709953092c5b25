/-
Inheritance: the templates above a resource, and the configuration that they give it.

* `Inheritance.templates`: reads the templates, the nearest first;
* `Inheritance.configuration`: the resource's configuration on top of all of theirs;
* `Inheritance.resolve`: both, with the versions of the templates.

Main statements:
* `configuration_cons`: a chain is the nearest template on top of the rest of the chain.

Design notes:
* A template that was read before, or is the resource itself, is an error.  The walk also ends after
  a given number of templates, which must be chosen greater than the number of stored resources to
  make no difference.
-/
import Reconciler.Program

namespace Reconciler.Inheritance

/-- A template with the OID under which it was read. -/
abbrev Template := String × Resource

/-- Reads the templates from an OID on, those in `visited` being known already. -/
def templates (c : Caller) (resource : String) :
    (limit : Nat) → (visited : List String) → Option String → Action (List Template)
  | _, _, none => return []
  | 0, visited, some oid =>
    if visited.contains oid then throw (.misconfiguration (.templateCycle oid resource))
    else throw (.misconfiguration (.templateDepth visited.length resource))
  | limit + 1, visited, some oid => do
    if visited.contains oid then throw (.misconfiguration (.templateCycle oid resource))
    -- The template as it is stored now, whatever the cache may hold.
    let template ← Action.store (.read oid)
    c.remark .debug s!"Resource {resource} inherits from {oid} (version {template.version.toText})"
    let rest ← templates c resource limit (oid :: visited) template.configuration.superRef
    return (oid, template) :: rest

/-- A configuration on top of those of templates, the nearest first. -/
def configuration (own : Configuration) : List Template → Configuration
  | [] => own
  | (_, template) :: rest => own.mergedOver (configuration template.configuration rest)

/-- The versions of templates. -/
def versions (chain : List Template) : SortedMap String Version :=
  .ofList (chain.map fun t => (t.1, t.2.version))

/-- What a resource inherits. -/
structure Resolved where
  configuration : Configuration
  ancestorVersions : SortedMap String Version

/-- The configuration of a resource with all that it inherits; reads at most `limit` templates. -/
def resolve (c : Caller) (limit : Nat) (r : Resource) : Action Resolved := do
  let chain ← templates c r.oid limit [r.oid] r.configuration.superRef
  return ⟨configuration r.configuration chain, versions chain⟩

theorem configuration_cons (own : Configuration) (t : Template) (rest : List Template) :
    configuration own (t :: rest) = own.mergedOver (configuration t.2.configuration rest) := rfl

end Reconciler.Inheritance
