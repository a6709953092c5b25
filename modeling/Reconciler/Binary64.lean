/-
Finite double-precision numbers, exactly.

A number is a sign and the rank of its magnitude among the non-negative doubles, which start at
zero and end before infinity; neighbours in rank are neighbours in size.  Rounding, products and
quotients are computed on natural numbers, so every operation is total and evaluates in proofs.

Main statements:
* `Binary64.ofRank?_isSome`: ranks before infinity are numbers, others are not;
* `Binary64.units_zero`, `units_one`: the scale, in multiples of the smallest positive double;
* examples for rounding to nearest with ties to even.

Design notes:
* The smallest positive double is 2^-1074; every finite double is a whole multiple of it
  (`Binary64.units`).
* Both zeros exist, since they are written differently; `Binary64.unsigned` forgets the sign of
  zero.
-/

namespace Reconciler

/-- Number of doubles with one sign and exponent: 2^52. -/
def Binary64.fractions : Nat := 4503599627370496

/-- Rank of the first magnitude too large to be finite. -/
def Binary64.infinityRank : Nat := 2047 * Binary64.fractions

/-- A finite double: sign and rank of the magnitude. -/
structure Binary64 where
  negative : Bool
  rank : Nat
  finite : rank < Binary64.infinityRank
deriving DecidableEq

namespace Binary64

/-- The positive zero. -/
def zero : Binary64 := ⟨false, 0, by decide⟩

instance : Inhabited Binary64 := ⟨zero⟩

/-- The number with this sign and rank, unless it is infinite. -/
def ofRank? (negative : Bool) (rank : Nat) : Option Binary64 :=
  if h : rank < infinityRank then some ⟨negative, rank, h⟩ else none

theorem ofRank?_isSome (negative : Bool) (rank : Nat) :
    (ofRank? negative rank).isSome ↔ rank < infinityRank := by
  unfold ofRank?; split <;> simp_all

/-- Whether this is one of the zeros. -/
def isZero (x : Binary64) : Bool := x.rank == 0

/-- The number with zero taken as positive. -/
def unsigned (x : Binary64) : Binary64 := if x.isZero then zero else x

/-- The opposite number. -/
def neg (x : Binary64) : Binary64 := { x with negative := !x.negative }

/-- Magnitude of the number with this rank, in multiples of 2^-1074. -/
def units (rank : Nat) : Nat :=
  let exponent := rank / fractions
  let fraction := rank % fractions
  if exponent = 0 then fraction else (fraction + fractions) * Nat.pow 2 (exponent - 1)

theorem units_zero : units 0 = 0 := by decide

/-- One has rank 1023 · 2^52. -/
theorem units_one : units (1023 * fractions) = Nat.pow 2 1074 := by decide +kernel

/-- The whole number nearest to a quotient; of two, the even one. -/
def roundQuotient (n d : Nat) : Nat :=
  let q := n / d
  let r := n % d
  if 2 * r < d then q else if d < 2 * r then q + 1 else q + q % 2

example : [7, 5, 3, 4].map (roundQuotient · 2) = [4, 2, 2, 2] := by decide

/-- Rank of the double nearest to a quotient; of two, the even one. -/
def rankOfQuotient (n d : Nat) : Nat :=
  let scaled := n * Nat.pow 2 1074
  let whole := scaled / d
  let shift := if whole < 2 * fractions then 0 else Nat.log2 whole - 52
  -- Rounding up to a power of two carries into the exponent.
  shift * fractions + roundQuotient scaled (d * Nat.pow 2 shift)

/-- The double nearest to a quotient, unless it is infinite. -/
def ofQuotient? (negative : Bool) (n d : Nat) : Option Binary64 :=
  ofRank? negative (rankOfQuotient n d)

/-- The product, rounded; `none` if it is infinite. -/
def mul? (x y : Binary64) : Option Binary64 :=
  ofQuotient? (x.negative != y.negative) (units x.rank * units y.rank) (Nat.pow 2 2148)

/-- The quotient by a number other than zero, rounded; `none` if it is infinite. -/
def div? (x y : Binary64) : Option Binary64 :=
  ofQuotient? (x.negative != y.negative) (units x.rank) (units y.rank)

/-- The greatest power of ten that is used as a factor. -/
def greatestScale : Nat := 308

/-- Divides by a power of ten in steps that are doubles themselves. -/
def scaleDown? (x : Binary64) (exponent : Nat) : Option Binary64 :=
  if exponent ≤ greatestScale then ofQuotient? false (Nat.pow 10 exponent) 1 >>= x.div?
  else if x.isZero then some x
  else do
    let y ← ofQuotient? false (Nat.pow 10 greatestScale) 1 >>= x.div?
    scaleDown? y (exponent - greatestScale)
termination_by exponent
decreasing_by
  simp only [greatestScale] at *
  omega

/-- A decimal significand times a power of ten.  The significand is rounded, and so is the power,
and then their product or quotient; `none` if it is infinite. -/
def ofScaled? (negative : Bool) (significand : Nat) (exponent : Int) : Option Binary64 := do
  let x ← ofQuotient? negative significand 1
  match exponent with
  | .ofNat e =>
    if e ≤ greatestScale then ofQuotient? false (Nat.pow 10 e) 1 >>= x.mul?
    else if x.isZero then some x
    else none
  | .negSucc e => x.scaleDown? (e + 1)

end Binary64

end Reconciler
