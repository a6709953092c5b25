/-
The compact text of a JSON value: no blanks, members in the order in which the value lists them.

* `Json.quoted`: text in quotes, with the escapes that a string needs;
* `Json.floatText`: a double by its shortest decimal;
* `Json.compact`: the text of a value.

Design notes:
* Doubles from 10^-5 up to below 10^16 are written positionally, with at least one digit after the
  point; others with an exponent that always has a sign and is not padded.
* Only quotes, backslashes and the control characters of ASCII are escaped.
-/
import Reconciler.Binary64.Shortest
import Reconciler.Json.Basic

namespace Reconciler.Json

/-- The two hexadecimal digits of a number below 256. -/
def hexPair (n : Nat) : String :=
  String.ofList [Nat.digitChar (n / 16), Nat.digitChar (n % 16)]

/-- How a character is written inside quotes. -/
def escaped (c : Char) : String :=
  match c with
  | '"' => "\\\""
  | '\\' => "\\\\"
  | '\n' => "\\n"
  | '\r' => "\\r"
  | '\t' => "\\t"
  | c =>
    if c.toNat = 8 then "\\b"
    else if c.toNat = 12 then "\\f"
    else if c.toNat < 32 then "\\u00" ++ hexPair c.toNat
    else c.toString

/-- Text in quotes. -/
def quoted (s : String) : String :=
  s.foldl (fun acc c => acc ++ escaped c) "\"" ++ "\""

/-- A run of zeros. -/
def zeros (n : Nat) : String := String.ofList (List.replicate n '0')

/-- An exponent, always with its sign. -/
def signed (n : Int) : String := if 0 ≤ n then "+" ++ toString n else toString n

/-- A positive decimal, positionally or with an exponent. -/
def decimalText (d : Binary64.Decimal) : String :=
  let digits := Nat.toDigits 10 d.digits
  let point : Int := digits.length + d.exponent
  if 0 ≤ d.exponent ∧ point ≤ 16 then
    String.ofList digits ++ zeros d.exponent.toNat ++ ".0"
  else if 0 < point ∧ point ≤ 16 then
    String.ofList (digits.take point.toNat) ++ "." ++ String.ofList (digits.drop point.toNat)
  else if -5 < point ∧ point ≤ 0 then
    "0." ++ zeros (-point).toNat ++ String.ofList digits
  else
    let fraction := digits.drop 1
    String.ofList (digits.take 1) ++
      (if fraction.isEmpty then "" else "." ++ String.ofList fraction) ++
      "e" ++ signed (point - 1)

example : decimalText ⟨1, 15⟩ = "1000000000000000.0" ∧ decimalText ⟨1, 16⟩ = "1e+16" := by
  decide +kernel
example : decimalText ⟨1, -5⟩ = "0.00001" ∧ decimalText ⟨95, -7⟩ = "9.5e-6" := by decide +kernel

/-- A double by the shortest decimal that reads back as it. -/
def floatText (x : Binary64) : String :=
  (if x.negative then "-" else "") ++
    (if x.isZero then "0.0" else decimalText (Binary64.Decimal.ofRank x.rank))

mutual

/-- The text of a value without blanks. -/
def compact : Json → String
  | null => "null"
  | bool true => "true"
  | bool false => "false"
  | int n => toString n
  | float x => floatText x
  | str s => quoted s
  | arr items => "[" ++ String.intercalate "," (compactItems items) ++ "]"
  | obj members => "\x7b" ++ String.intercalate "," (compactMembers members) ++ "\x7d"

/-- The texts of the items of an array. -/
def compactItems : List Json → List String
  | [] => []
  | v :: rest => compact v :: compactItems rest

/-- The texts of the members of an object. -/
def compactMembers : List (String × Json) → List String
  | [] => []
  | (name, v) :: rest => (quoted name ++ ":" ++ compact v) :: compactMembers rest

end

end Reconciler.Json
