/-
The shortest decimal that reads back as a given double.

The reals that round to a double form an interval around it, whose ends lie half-way to the
neighbours in rank and belong to it when the rank is even.  Grids of powers of ten are tried from
the coarsest on; the first that has a point in the interval gives the digits, and of two points
the one nearer to the double is taken, the even one if both are equally near.

Main statements:
* `Decimal.ofRank`: the decimal of a double, with examples;
* `Rounding.holds_of_hit?`: a chosen point lies in the interval.
-/
import Reconciler.Binary64

namespace Reconciler.Binary64

/-- A positive decimal `digits * 10 ^ exponent`. -/
structure Decimal where
  digits : Nat
  exponent : Int
deriving DecidableEq, Repr

/-- An interval of reals around `center`, all in multiples of 2^-1075. -/
structure Rounding where
  lower : Nat
  center : Nat
  upper : Nat
  closed : Bool
deriving DecidableEq, Repr

namespace Rounding

/-- The reals that round to the double with this rank. -/
def ofRank (rank : Nat) : Rounding where
  lower := units (rank - 1) + units rank
  center := 2 * units rank
  upper := units rank + units (rank + 1)
  closed := rank % 2 == 0

/-- Whether the interval holds `point` steps of a grid, both sides scaled alike. -/
def holds (i : Rounding) (scale step point : Nat) : Bool :=
  if i.closed then i.lower * scale ≤ point * step && point * step ≤ i.upper * scale
  else i.lower * scale < point * step && point * step < i.upper * scale

/-- The point to take on the grid of multiples of `step / scale`, if the interval has one. -/
def hit? (i : Rounding) (scale step : Nat) : Option Nat :=
  let below := i.center * scale / step
  match i.holds scale step below, i.holds scale step (below + 1) with
  | false, false => none
  | true, false => some below
  | false, true => some (below + 1)
  | true, true =>
    let twice := 2 * (i.center * scale)
    let middle := (2 * below + 1) * step
    if twice < middle then some below
    else if middle < twice then some (below + 1)
    else some (below + below % 2)

/-- A chosen point lies in the interval. -/
theorem holds_of_hit? {i : Rounding} {scale step point : Nat}
    (h : i.hit? scale step = some point) : i.holds scale step point = true := by
  unfold hit? at h
  generalize hb : i.center * scale / step = below at h
  simp only at h
  split at h
  · simp at h
  · next h1 _ => cases h; exact h1
  · next _ h2 => cases h; exact h2
  · next h1 h2 =>
    split at h
    · cases h; exact h1
    · split at h
      · cases h; exact h2
      · rcases Nat.mod_two_eq_zero_or_one below with hp | hp
        · rw [hp] at h; cases h; exact h1
        · rw [hp] at h; cases h; exact h2

/-- One, in multiples of 2^-1075. -/
def one : Nat := Nat.pow 2 1075

/-- Scale and step of the grid of multiples of a power of ten. -/
def grid (exponent : Int) : Nat × Nat :=
  match exponent with
  | .ofNat e => (1, Nat.pow 10 e * one)
  | .negSucc e => (Nat.pow 10 (e + 1), one)

/-- Tries the grids from the given power of ten downwards. -/
def search (i : Rounding) : Nat → Int → Decimal
  | 0, exponent => ⟨i.center * (grid exponent).1 / (grid exponent).2, exponent⟩
  | fuel + 1, exponent =>
    match i.hit? (grid exponent).1 (grid exponent).2 with
    | some point => ⟨point, exponent⟩
    | none => search i fuel (exponent - 1)

/-- The power of ten at or below the center. -/
def leadingExponent (i : Rounding) : Int :=
  if one ≤ i.center then ((Nat.toDigits 10 (i.center / one)).length : Int) - 1
  else
    let l := (Nat.toDigits 10 (one / i.center)).length
    if one ≤ i.center * Nat.pow 10 (l - 1) then -((l : Int) - 1) else -(l : Int)

end Rounding

/-- The decimal without zeros at the end of its digits. -/
def Decimal.stripZeros (d : Decimal) : Nat → Decimal
  | 0 => d
  | fuel + 1 =>
    if d.digits % 10 = 0 then stripZeros ⟨d.digits / 10, d.exponent + 1⟩ fuel else d

/-- The shortest decimal that reads back as the double with this positive rank; seventeen digits
always suffice. -/
def Decimal.ofRank (rank : Nat) : Decimal :=
  let i := Rounding.ofRank rank
  (i.search 17 i.leadingExponent).stripZeros 2

example : Decimal.ofRank (1023 * fractions) = ⟨1, 0⟩ := by decide +kernel
example : Decimal.ofRank 1 = ⟨5, -324⟩ := by decide +kernel
example : Decimal.ofRank (1019 * fractions + 2702159776422298) = ⟨1, -1⟩ := by decide +kernel

end Reconciler.Binary64
