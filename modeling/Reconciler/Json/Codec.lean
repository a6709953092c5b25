/-
How typed values are written to JSON and read from it.

A record is written as an object with all of its fields.  It is read from an object, whose unknown
members do not matter, or from an array, which lists fields in the order of their declaration.

* `Codec`: the two directions for a type, with instances for the basic types and for containers;
* `Row`: the fields of a record, looked up by name in either form;
* `Named`: enumerations, written as the name of a constructor;
* `TextKey`: types that may be keys of a map.

Main statements:
* `LawfulCodec`: what was read once is read again from what is written for it, with instances for
  the basic types;
* `Named.ofName?_name`: names lead back to their constructors.

Design notes:
* Reading gives no reason for a failure.
* A field is required, optional (missing and `null` mean absent) or defaulted (missing means the
  default, `null` is a value like any other).  In an array an optional field must not be missing
  unless it is also defaulted.
-/
import Reconciler.Json.Basic
import Reconciler.SortedMap

namespace Reconciler

/-- A type with a written form in JSON. -/
class Codec (α : Type) where
  encode : α → Json
  decode? : Json → Option α

export Codec (encode decode?)

/-- What was read once is read again from what is written for it. -/
class LawfulCodec (α : Type) [Codec α] : Prop where
  decode?_encode : ∀ {j : Json} {x : α}, decode? j = some x → decode? (encode x) = some x

/-! ### Basic types -/

instance : Codec Json := ⟨id, some⟩

instance : LawfulCodec Json := ⟨fun _ => rfl⟩

instance : Codec Bool := ⟨.bool, Json.bool?⟩

instance : LawfulCodec Bool := ⟨fun _ => rfl⟩

instance : Codec String := ⟨.str, Json.text?⟩

instance : LawfulCodec String := ⟨fun _ => rfl⟩

/-- The whole number in a range that a value holds. -/
def Json.intBetween? (least greatest : Int) : Json → Option Int
  | .int n => if least ≤ n ∧ n ≤ greatest then some n else none
  | _ => none

theorem Json.intBetween?_eq_some_iff {least greatest n : Int} {j : Json} :
    j.intBetween? least greatest = some n ↔ j = .int n ∧ least ≤ n ∧ n ≤ greatest := by
  cases j <;> simp [Json.intBetween?]
  constructor
  · rintro ⟨h, rfl⟩; exact ⟨rfl, h⟩
  · rintro ⟨rfl, h⟩; exact ⟨h, rfl⟩

/-- A count fits 64 bits. -/
instance : Codec Nat where
  encode n := .int n
  decode? j := (j.intBetween? 0 18446744073709551615).map Int.toNat

instance : LawfulCodec Nat where
  decode?_encode {j x} h := by
    obtain ⟨n, hn, rfl⟩ := Option.map_eq_some_iff.1 h
    obtain ⟨-, h0, h1⟩ := Json.intBetween?_eq_some_iff.1 hn
    exact Option.map_eq_some_iff.2
      ⟨n, Json.intBetween?_eq_some_iff.2 ⟨by simp [encode, Int.toNat_of_nonneg h0], h0, h1⟩, rfl⟩

instance : Codec UInt32 where
  encode n := .int n.toNat
  decode? j := (j.intBetween? 0 4294967295).map fun n => UInt32.ofNat n.toNat

instance : LawfulCodec UInt32 where
  decode?_encode {j x} _ := by
    refine Option.map_eq_some_iff.2 ⟨x.toNat, Json.intBetween?_eq_some_iff.2 ⟨rfl, ?_, ?_⟩, ?_⟩
    · omega
    · have := x.toNat_lt; omega
    · simp

instance : Codec Int32 where
  encode n := .int n.toInt
  decode? j := (j.intBetween? (-2147483648) 2147483647).map Int32.ofInt

instance : LawfulCodec Int32 where
  decode?_encode {j x} _ := by
    refine Option.map_eq_some_iff.2 ⟨x.toInt, Json.intBetween?_eq_some_iff.2 ⟨rfl, ?_, ?_⟩, ?_⟩
    · have := x.le_toInt; omega
    · have := x.toInt_lt; omega
    · simp

/-! ### Containers -/

section Containers

variable {α : Type} [Codec α]

/-- Reads every element of a list. -/
def decodeAll? (items : List Json) : Option (List α) := items.mapM decode?

instance : Codec (List α) where
  encode xs := .arr (xs.map encode)
  decode?
    | .arr items => decodeAll? items
    | _ => none

instance : Codec (Option α) where
  encode
    | none => .null
    | some x => encode x
  decode?
    | .null => some none
    | j => (decode? j).map some

end Containers

/-- Types whose values may be keys of a map. -/
class TextKey (κ : Type) where
  text : κ → String
  ofText? : String → Option κ

instance : TextKey String := ⟨id, some⟩

section Keyed

variable {κ : Type} [Ord κ] [Std.TransOrd κ] [Std.LawfulEqOrd κ] [TextKey κ]

/-- Of two keys that mean the same the later counts. -/
instance {ν : Type} [Codec ν] : Codec (SortedMap κ ν) where
  encode m := .record (m.entries.map fun e => (TextKey.text e.1, encode e.2))
  decode?
    | .obj members => do
      let entries ← members.mapM fun e => do return (← TextKey.ofText? e.1, ← decode? e.2)
      return .ofList entries
    | _ => none

end Keyed

instance {κ : Type} [Ord κ] [Std.TransOrd κ] [Std.LawfulEqOrd κ] [Codec κ] :
    Codec (SortedSet κ) where
  encode s := encode s.toList
  decode? j := (decode? j).map SortedSet.ofList

/-! ### Enumerations -/

/-- An enumeration whose constructors have names. -/
class Named (α : Type) where
  all : List α
  name : α → String
  ofName?_name : ∀ a, (all.find? fun b => name b == name a) = some a

namespace Named

variable {α : Type} [Named α]

/-- The constructor with this name. -/
def ofName? (s : String) : Option α := all.find? fun a => name a == s

@[simp] theorem ofName?_name' (a : α) : ofName? (name a) = some a := ofName?_name a

theorem name_of_ofName? {s : String} {a : α} (h : ofName? s = some a) : name a = s := by
  simpa using List.find?_some h

/-- A constructor is written as its name; it is also read from an object whose only member has its
name and holds `null`. -/
@[reducible] def codec : Codec α where
  encode a := .str (name a)
  decode?
    | .str s => ofName? s
    | .obj [(s, .null)] => ofName? s
    | _ => none

/-- Keys that are the names of constructors. -/
@[reducible] def textKey : TextKey α := ⟨name, ofName?⟩

end Named

/-! ### Records -/

/-- The fields of a record as found; `positional` when they were listed in an array. -/
structure Row where
  cells : List (String × Json)
  positional : Bool

namespace Row

/-- The row that a value holds for a record with these field names. -/
def of? (names : List String) : Json → Option Row
  | .obj members => some ⟨members, false⟩
  | .arr items => if items.length ≤ names.length then some ⟨names.zip items, true⟩ else none
  | _ => none

/-- The row of a record that is never listed by position. -/
def named? : Json → Option Row
  | .obj members => some ⟨members, false⟩
  | _ => none

/-- The value found for a field. -/
def cell? (row : Row) (name : String) : Option Json := Assoc.lookup name row.cells

variable {α : Type} [Codec α]

/-- A field that must be there. -/
def required (row : Row) (name : String) : Option α := row.cell? name >>= decode?

/-- A field that may be missing, with the value it then has. -/
def defaulted (row : Row) (name : String) (value : α) : Option α :=
  match row.cell? name with
  | some j => decode? j
  | none => some value

/-- A field that may be absent. -/
def optional (row : Row) (name : String) : Option (Option α) :=
  match row.cell? name with
  | some j => decode? j
  | none => if row.positional then none else some none

/-- A field that may be absent, with the value it then has. -/
def orElse (row : Row) (name : String) (value : α) : Option α :=
  return (← row.optional name).getD value

end Row

end Reconciler
