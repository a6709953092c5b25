/-
Versions of stored objects.

A version is a sequence number of 64 bits that grows by one with every write and stays at its
greatest value once it is there.

Main statements:
* `Version.lt_next`: a write leads to a greater version as long as the last one is not reached;
* `Version.le_next`: it never leads to a smaller one.

Design notes:
* The text of a version is decimal; when it is read, blanks around it and one plus sign in front of
  it do not matter.
-/
import Reconciler.Json.Codec
import Reconciler.Text.Blank

namespace Reconciler

/-- The greatest sequence number. -/
def Version.lastSequence : Nat := UInt64.size - 1

/-- The version of a stored object. -/
structure Version where
  sequence : Nat
  le_last : sequence ≤ Version.lastSequence
deriving DecidableEq

namespace Version

/-- The version of a freshly added object. -/
def initial : Version := ⟨0, Nat.zero_le _⟩

instance : Inhabited Version := ⟨initial⟩

/-- The version after one more write. -/
def next (v : Version) : Version :=
  if h : v.sequence < lastSequence then ⟨v.sequence + 1, h⟩ else v

instance : LT Version := ⟨fun a b => a.sequence < b.sequence⟩

instance : LE Version := ⟨fun a b => a.sequence ≤ b.sequence⟩

instance (a b : Version) : Decidable (a < b) :=
  inferInstanceAs (Decidable (a.sequence < b.sequence))

instance (a b : Version) : Decidable (a ≤ b) :=
  inferInstanceAs (Decidable (a.sequence ≤ b.sequence))

theorem lt_def {a b : Version} : a < b ↔ a.sequence < b.sequence := Iff.rfl

theorem le_def {a b : Version} : a ≤ b ↔ a.sequence ≤ b.sequence := Iff.rfl

@[ext] theorem ext {a b : Version} (h : a.sequence = b.sequence) : a = b := by
  cases a; cases b; cases h; rfl

theorem lt_next (v : Version) (h : v.sequence < lastSequence) : v < v.next := by
  simp [lt_def, next, h]

theorem le_next (v : Version) : v ≤ v.next := by
  unfold next; split <;> simp [le_def]

/-- The version with this sequence number, if it is in range. -/
def ofSequence? (n : Nat) : Option Version :=
  if h : n ≤ lastSequence then some ⟨n, h⟩ else none

/-- The decimal text of a version. -/
def toText (v : Version) : String := toString v.sequence

/-- Why a text is no version. -/
structure Error where
  text : String
deriving DecidableEq, Repr

/-- The wording of an error. -/
def Error.message (e : Error) : String := "Invalid object version format: " ++ e.text

/-- The sequence number that decimal digits stand for; at least one digit. -/
def digitsValue? (cs : List Char) : Option Nat :=
  if cs.isEmpty || !cs.all Char.isDigit then none
  else some (cs.foldl (fun n c => n * 10 + (c.toNat - 48)) 0)

/-- The version that a text stands for. -/
def ofText? (text : String) : Except Error Version :=
  let cs := Text.trim text.toList
  let digits := match cs with
    | '+' :: rest => rest
    | _ => cs
  match digitsValue? digits >>= ofSequence? with
  | some v => .ok v
  | none => .error ⟨text⟩

/-- As a JSON value a version is its sequence number. -/
instance : Codec Version where
  encode v := encode v.sequence
  decode? j := decode? j >>= ofSequence?

end Version

end Reconciler
