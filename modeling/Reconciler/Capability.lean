/-
What can be done with a resource.

The connector reports what it can do natively; the configuration may switch capabilities off or on
and tune their options.  An override is a truth value, or an object with options and, optionally,
the truth value `enabled`.

* `Capability`: the kinds of capabilities;
* `CapabilitySet`: which of them are declared, with their options;
* `CapabilitySet.withOverrides`: a set with configured overrides on top.

Main statements:
* `CapabilitySet.enabled?_eq_some_iff`: a capability is had when it is declared and enabled;
* `Capability.ofName_eq_ok_iff`: capabilities and their names.
-/
import Reconciler.Error.Cause
import Reconciler.Settings

namespace Reconciler

/-- A kind of operation that a connector may support. -/
inductive Capability where
  | read
  | create
  | update
  | delete
  | liveSync
  | activation
  | credentials
  | testConnection
  | script
  | pagedSearch
  | countObjects
  | discoverConfiguration
  | auxiliaryObjectClasses
deriving DecidableEq, Repr, Inhabited

namespace Capability

/-- All capabilities in their order. -/
def all : List Capability :=
  [read, create, update, delete, liveSync, activation, credentials, testConnection, script,
    pagedSearch, countObjects, discoverConfiguration, auxiliaryObjectClasses]

/-- The position of a capability. -/
def rank : Capability → Nat
  | read => 0
  | create => 1
  | update => 2
  | delete => 3
  | liveSync => 4
  | activation => 5
  | credentials => 6
  | testConnection => 7
  | script => 8
  | pagedSearch => 9
  | countObjects => 10
  | discoverConfiguration => 11
  | auxiliaryObjectClasses => 12

theorem getElem?_rank (c : Capability) : all[c.rank]? = some c := by cases c <;> rfl

/-- The name of a capability. -/
def name : Capability → String
  | read => "read"
  | create => "create"
  | update => "update"
  | delete => "delete"
  | liveSync => "liveSync"
  | activation => "activation"
  | credentials => "credentials"
  | testConnection => "testConnection"
  | script => "script"
  | pagedSearch => "pagedSearch"
  | countObjects => "countObjects"
  | discoverConfiguration => "discoverConfiguration"
  | auxiliaryObjectClasses => "auxiliaryObjectClasses"

instance : Ord Capability := ⟨compareOn rank⟩

instance : Std.TransOrd Capability := inferInstanceAs (Std.TransCmp (compareOn rank))

theorem rank_inj {a b : Capability} (h : a.rank = b.rank) : a = b := by
  have := getElem?_rank a
  rw [h, getElem?_rank b] at this
  exact (Option.some.inj this).symm

instance : Std.LawfulEqOrd Capability where
  compare_self := Std.ReflOrd.compare_self (α := Nat)
  eq_of_compare h := rank_inj (Std.LawfulEqOrd.eq_of_compare (α := Nat) h)

instance : Named Capability where
  all := all
  name := name
  ofName?_name a := by cases a <;> decide

instance : Codec Capability := Named.codec
instance : TextKey Capability := Named.textKey

/-- The capability with this name. -/
def ofName (s : String) : Except Misconfiguration Capability :=
  match Named.ofName? s with
  | some c => .ok c
  | none => .error (.unknownCapability s)

theorem ofName_eq_ok_iff {s : String} {c : Capability} : ofName s = .ok c ↔ c.name = s := by
  unfold ofName
  constructor
  · intro h
    split at h
    · next h' => cases h; exact Named.name_of_ofName? h'
    · simp at h
  · rintro rfl
    have : Named.ofName? c.name = some c := Named.ofName?_name c
    simp [this]

end Capability

/-- A capability as declared. -/
structure CapabilityConfig where
  enabled : Bool
  options : Settings := .empty
deriving DecidableEq

namespace CapabilityConfig

instance : Inhabited CapabilityConfig := ⟨{ enabled := false }⟩

instance : Codec CapabilityConfig where
  encode c := .record [("enabled", encode c.enabled), ("options", encode c.options)]
  decode? j := do
    let row ← Row.of? ["enabled", "options"] j
    return { enabled := ← row.required "enabled", options := ← row.defaulted "options" .empty }

end CapabilityConfig

/-- Declared capabilities. -/
abbrev CapabilitySet := SortedMap Capability CapabilityConfig

/-- What an override asks for: the flag and further options. -/
structure CapabilityOverride where
  enabled : Bool
  options : List (String × Json)
deriving DecidableEq

/-- Reads the override of the capability with this name. -/
def CapabilityOverride.ofJson (name : String) : Json → Except Misconfiguration CapabilityOverride
  | .bool enabled => .ok ⟨enabled, []⟩
  | .obj members =>
    let options := members.filter fun e => e.1 != "enabled"
    match Assoc.lookup "enabled" members with
    | none => .ok ⟨true, options⟩
    | some (.bool enabled) => .ok ⟨enabled, options⟩
    | some other => .error (.capabilityEnabled name other)
  | other => .error (.capabilityOverride name other)

namespace CapabilitySet

/-- The capability, if it is declared and enabled. -/
def enabled? (s : CapabilitySet) (c : Capability) : Option CapabilityConfig :=
  (s.get? c).filter (·.enabled)

/-- Whether the capability is declared and enabled. -/
def isEnabled (s : CapabilitySet) (c : Capability) : Bool := (s.enabled? c).isSome

theorem enabled?_eq_some_iff {s : CapabilitySet} {c : Capability} {config : CapabilityConfig} :
    s.enabled? c = some config ↔ s.get? c = some config ∧ config.enabled = true := by
  simp [enabled?, Option.filter_eq_some_iff]

/-- The enabled capabilities in order. -/
def enabledNames (s : CapabilitySet) : List Capability :=
  (s.entries.filter (·.2.enabled)).map (·.1)

/-- The set with one override on top: its flag replaces the declared one and its options are
overlaid. -/
def override (s : CapabilitySet) (c : Capability) (o : CapabilityOverride) : CapabilitySet :=
  let declared := (s.get? c).getD { enabled := false }
  s.insert c {
    enabled := o.enabled
    options := o.options.foldl (fun m e => m.insert e.1 e.2) declared.options }

/-- The set with all overrides on top, in the order of their names; the first that is not one is
the error. -/
def withOverrides (s : CapabilitySet) (overrides : Settings) :
    Except Misconfiguration CapabilitySet :=
  overrides.entries.foldlM
    (fun acc e => do
      let c ← Capability.ofName e.1
      let o ← CapabilityOverride.ofJson e.1 e.2
      return CapabilitySet.override acc c o)
    s

end CapabilitySet

end Reconciler
