/-
Activation of accounts: whether one is enabled or locked, and from when to when it is valid.

* `Activation`: the properties that are known;
* `ActivationProperty.valuesOf`: one of them as a list of values, empty if it is not known;
* `ActivationProperty.set`: the properties with one of them read from a value.

Main statements:
* `ActivationProperty.valuesOf_set_of_ne`: setting a property leaves the others alone;
* `ActivationProperty.set_none`: without a value the property is not known any more.
-/
import Reconciler.Instant

namespace Reconciler

/-- Whether an administrator lets an account be used. -/
inductive AdministrativeStatus where
  | enabled
  | disabled
  | archived
deriving DecidableEq, Repr, Inhabited

namespace AdministrativeStatus

/-- The name of a status. -/
def name : AdministrativeStatus → String
  | enabled => "enabled"
  | disabled => "disabled"
  | archived => "archived"

instance : Named AdministrativeStatus where
  all := [enabled, disabled, archived]
  name := name
  ofName?_name a := by cases a <;> decide

instance : Codec AdministrativeStatus := Named.codec

end AdministrativeStatus

/-- Whether an account locked itself. -/
inductive LockoutStatus where
  | normal
  | locked
deriving DecidableEq, Repr, Inhabited

namespace LockoutStatus

/-- The name of a status. -/
def name : LockoutStatus → String
  | normal => "normal"
  | locked => "locked"

instance : Named LockoutStatus where
  all := [normal, locked]
  name := name
  ofName?_name a := by cases a <;> decide

instance : Codec LockoutStatus := Named.codec

end LockoutStatus

/-- What is known about the activation of an account. -/
structure Activation where
  administrativeStatus : Option AdministrativeStatus := none
  validFrom : Option Instant := none
  validTo : Option Instant := none
  lockoutStatus : Option LockoutStatus := none
deriving DecidableEq, Inhabited

instance : Codec Activation where
  encode a := .record [
    ("administrativeStatus", encode a.administrativeStatus), ("validFrom", encode a.validFrom),
    ("validTo", encode a.validTo), ("lockoutStatus", encode a.lockoutStatus)]
  decode? j := do
    let row ← Row.of? ["administrativeStatus", "validFrom", "validTo", "lockoutStatus"] j
    return {
      administrativeStatus := ← row.defaulted "administrativeStatus" none
      validFrom := ← row.defaulted "validFrom" none
      validTo := ← row.defaulted "validTo" none
      lockoutStatus := ← row.defaulted "lockoutStatus" none }

/-- One of the properties. -/
inductive ActivationProperty where
  | administrativeStatus
  | validFrom
  | validTo
  | lockoutStatus
deriving DecidableEq, Repr, Inhabited

namespace ActivationProperty

/-- All properties in their order. -/
def all : List ActivationProperty := [administrativeStatus, validFrom, validTo, lockoutStatus]

theorem mem_all (p : ActivationProperty) : p ∈ all := by cases p <;> decide

/-- The name of a property in paths. -/
def label : ActivationProperty → String
  | administrativeStatus => "AdministrativeStatus"
  | validFrom => "ValidFrom"
  | validTo => "ValidTo"
  | lockoutStatus => "LockoutStatus"

/-- The values of a property: one, or none if it is not known. -/
def valuesOf (p : ActivationProperty) (a : Activation) : List Json :=
  match p with
  | administrativeStatus => a.administrativeStatus.toList.map encode
  | validFrom => a.validFrom.toList.map encode
  | validTo => a.validTo.toList.map encode
  | lockoutStatus => a.lockoutStatus.toList.map encode

/-- The properties with one read from a value; what cannot be read is not known. -/
def set (p : ActivationProperty) (a : Activation) (value : Option Json) : Activation :=
  match p with
  | administrativeStatus => { a with administrativeStatus := value >>= decode? }
  | validFrom => { a with validFrom := value >>= decode? }
  | validTo => { a with validTo := value >>= decode? }
  | lockoutStatus => { a with lockoutStatus := value >>= decode? }

theorem valuesOf_set_of_ne {p q : ActivationProperty} (h : p ≠ q) (a : Activation)
    (value : Option Json) : p.valuesOf (q.set a value) = p.valuesOf a := by
  cases p <;> cases q <;> first | rfl | exact absurd rfl h

theorem set_none (p : ActivationProperty) (a : Activation) : p.valuesOf (p.set a none) = [] := by
  cases p <;> rfl

end ActivationProperty

end Reconciler
