/-
Instants of universal time, written as RFC 3339 text.

An instant is a day counted from 1970-01-01, a second of that day and nanoseconds within the
second; a leap second continues the 59th second of its minute beyond 10^9 nanoseconds.

* `Instant.toText`: the text in universal time, with the fewest of 0, 3, 6 or 9 fraction digits that
  lose nothing;
* `Instant.ofText?`: reads a date, a time and an offset leniently: blanks may surround the parts, a
  blank or any case of `T` and `Z` is accepted, and further fraction digits are dropped.

* `Civil.toDay`, `Civil.ofDay`: dates and days, with examples around leap days and the epoch.

Design notes:
* The calendar is the proleptic Gregorian one, in years from -262143 to 262142.
* Division of integers by a positive number rounds down here, which the formulas for days before
  1970 rely on.
-/
import Reconciler.Json.Codec
import Reconciler.Text.Blank

namespace Reconciler

/-- A date of the proleptic Gregorian calendar. -/
structure Civil where
  year : Int
  month : Nat
  day : Nat
deriving DecidableEq, Repr

namespace Civil

/-- Whether the year has a 29 February. -/
def isLeapYear (year : Int) : Bool :=
  year % 4 == 0 && (year % 100 != 0 || year % 400 == 0)

/-- Number of days of a month. -/
def daysIn (year : Int) (month : Nat) : Nat :=
  if month = 2 then if isLeapYear year then 29 else 28
  else if month = 4 ∨ month = 6 ∨ month = 9 ∨ month = 11 then 30 else 31

/-- Whether there is such a date, within the years that instants cover. -/
def isValid (c : Civil) : Bool :=
  -262143 ≤ c.year && c.year ≤ 262142 && 1 ≤ c.month && c.month ≤ 12 &&
    1 ≤ c.day && c.day ≤ daysIn c.year c.month

/-- Days since 1970-01-01.  Years are taken to start in March, so that the leap day ends them. -/
def toDay (c : Civil) : Int :=
  let year := if c.month ≤ 2 then c.year - 1 else c.year
  -- Four hundred years have 146097 days, and a year has 153 days in every five months from March.
  let era := year / 400
  let yearOfEra := year - era * 400
  let month : Int := if c.month ≤ 2 then c.month + 9 else c.month - 3
  let dayOfYear := (153 * month + 2) / 5 + c.day - 1
  era * 146097 + (yearOfEra * 365 + yearOfEra / 4 - yearOfEra / 100 + dayOfYear) - 719468

/-- The date of a day since 1970-01-01. -/
def ofDay (day : Int) : Civil :=
  let z := day + 719468
  let era := z / 146097
  let dayOfEra := z - era * 146097
  let yearOfEra := (dayOfEra - dayOfEra / 1460 + dayOfEra / 36524 - dayOfEra / 146096) / 365
  let dayOfYear := dayOfEra - (365 * yearOfEra + yearOfEra / 4 - yearOfEra / 100)
  let shifted := (5 * dayOfYear + 2) / 153
  let month := if shifted < 10 then shifted + 3 else shifted - 9
  { year := yearOfEra + era * 400 + (if month ≤ 2 then 1 else 0)
    month := month.toNat
    day := (dayOfYear - (153 * shifted + 2) / 5 + 1).toNat }

/-- The first day that instants cover. -/
def firstDay : Int := (⟨-262143, 1, 1⟩ : Civil).toDay

/-- The last day that instants cover. -/
def lastDay : Int := (⟨262142, 12, 31⟩ : Civil).toDay

example : (⟨1970, 1, 1⟩ : Civil).toDay = 0 := by decide
example : ofDay (⟨2024, 2, 29⟩ : Civil).toDay = ⟨2024, 2, 29⟩ := by decide
example : ofDay (⟨1900, 2, 28⟩ : Civil).toDay = ⟨1900, 2, 28⟩ := by decide
example : ofDay (⟨-1, 12, 31⟩ : Civil).toDay = ⟨-1, 12, 31⟩ := by decide

end Civil

/-- A point in universal time. -/
structure Instant where
  day : Int
  second : Nat
  nano : Nat
  second_lt : second < 86400
  nano_lt : nano < 2000000000
deriving DecidableEq

namespace Instant

/-- The start of 1970. -/
def epoch : Instant := ⟨0, 0, 0, by decide, by decide⟩

instance : Inhabited Instant := ⟨epoch⟩

/-! ### Writing -/

/-- A number with zeros in front up to a width. -/
def padded (width n : Nat) : String :=
  let digits := Nat.toDigits 10 n
  String.ofList (List.replicate (width - digits.length) '0' ++ digits)

/-- A year: four digits, or a sign and at least four. -/
def yearText (year : Int) : String :=
  if 0 ≤ year ∧ year ≤ 9999 then padded 4 year.toNat
  else (if year < 0 then "-" else "+") ++ padded 4 year.natAbs

/-- The fraction of a second: the fewest digits in groups of three that lose nothing. -/
def fractionText (nano : Nat) : String :=
  if nano = 0 then ""
  else if nano % 1000000 = 0 then "." ++ padded 3 (nano / 1000000)
  else if nano % 1000 = 0 then "." ++ padded 6 (nano / 1000)
  else "." ++ padded 9 nano

/-- The text of an instant in universal time. -/
def toText (t : Instant) : String :=
  let date := Civil.ofDay t.day
  let leap := t.nano / 1000000000
  yearText date.year ++ "-" ++ padded 2 date.month ++ "-" ++ padded 2 date.day ++ "T" ++
    padded 2 (t.second / 3600) ++ ":" ++ padded 2 (t.second / 60 % 60) ++ ":" ++
    padded 2 (t.second % 60 + leap) ++ fractionText (t.nano % 1000000000) ++ "Z"

/-! ### Reading -/

/-- The value of decimal digits. -/
def valueOf (digits : List Char) : Nat :=
  digits.foldl (fun n c => n * 10 + (c.toNat - 48)) 0

/-- At least one and at most `most` digits. -/
def digits? (most : Nat) (cs : List Char) : Option (List Char × List Char) :=
  let digits := (cs.take most).takeWhile Char.isDigit
  if digits.isEmpty then none else some (digits, cs.drop digits.length)

/-- A number of at most two digits in a range, after blanks. -/
def field? (least greatest : Nat) (cs : List Char) : Option (Nat × List Char) := do
  let (digits, rest) ← digits? 2 (Text.trimStart cs)
  let n := valueOf digits
  if least ≤ n ∧ n ≤ greatest then return (n, rest) else none

/-- A mark after blanks. -/
def mark? (mark : Char) (cs : List Char) : Option (List Char) :=
  match Text.trimStart cs with
  | c :: rest => if c = mark then some rest else none
  | [] => none

/-- A year after blanks: four digits at most, or a sign and any number of digits. -/
def year? (cs : List Char) : Option (Int × List Char) := do
  match Text.trimStart cs with
  | '-' :: rest =>
    let (digits, rest) ← digits? rest.length rest
    return (-(valueOf digits : Int), rest)
  | '+' :: rest =>
    let (digits, rest) ← digits? rest.length rest
    return ((valueOf digits : Int), rest)
  | cs =>
    let (digits, rest) ← digits? 4 cs
    return ((valueOf digits : Int), rest)

/-- Nanoseconds after a point, if there is a point; digits beyond the ninth are dropped. -/
def fraction? (cs : List Char) : Option (Nat × List Char) := do
  match cs with
  | '.' :: rest =>
    let (digits, rest) ← digits? 9 rest
    return (valueOf digits * Nat.pow 10 (9 - digits.length), rest.dropWhile Char.isDigit)
  | _ => return (0, cs)

/-- Two digits at the very start. -/
def pair? : List Char → Option (Nat × List Char)
  | a :: b :: rest => if a.isDigit && b.isDigit then some (valueOf [a, b], rest) else none
  | _ => none

/-- The offset from universal time in seconds, less than a day. -/
def offset? (cs : List Char) : Option (Int × List Char) := do
  match cs with
  | [] => none
  | sign :: rest =>
    if sign = 'Z' ∨ sign = 'z' then return (0, rest)
    else
      let upper := (cs.take 3).map Char.toUpper
      if upper = ['U', 'T', 'C'] then return (0, cs.drop 3)
      else if sign = '+' ∨ sign = '-' ∨ sign = '−' then
        let (hours, rest) ← pair? rest
        let (minutes, rest) ← pair? (rest.dropWhile fun c => c == ':' || Text.isBlank c)
        if hours < 24 ∧ minutes < 60 then
          let seconds : Int := hours * 3600 + minutes * 60
          return (if sign = '+' then seconds else -seconds, rest)
        else none
      else none

/-- The instant at which clocks set `offset` seconds ahead of universal time show this. -/
def ofLocal? (date : Civil) (second nano : Nat) (offset : Int) : Option Instant :=
  let total : Int := second - offset
  let day := date.toDay + total / 86400
  if h : nano < 2000000000 then
    if date.isValid ∧ Civil.firstDay ≤ day ∧ day ≤ Civil.lastDay then
      some ⟨day, (total % 86400).toNat, nano, by omega, h⟩
    else none
  else none

/-- The instant that a text names. -/
def ofText? (text : String) : Option Instant := do
  let (year, cs) ← year? text.toList
  let (month, cs) ← field? 1 12 (← mark? '-' cs)
  let (day, cs) ← field? 1 31 (← mark? '-' cs)
  let cs ← match cs with
    | c :: rest => if c = 'T' ∨ c = 't' ∨ c = ' ' then some rest else none
    | [] => none
  let (hour, cs) ← field? 0 23 cs
  let (minute, cs) ← field? 0 59 (← mark? ':' cs)
  let (second, cs) ← field? 0 60 (← mark? ':' cs)
  let (nano, cs) ← fraction? cs
  let (offset, cs) ← offset? (Text.trimStart cs)
  if (Text.trimStart cs).isEmpty then
    -- A leap second is a 59th second that goes on.
    if second = 60 then
      ofLocal? ⟨year, month, day⟩ (hour * 3600 + minute * 60 + 59) (nano + 1000000000) offset
    else ofLocal? ⟨year, month, day⟩ (hour * 3600 + minute * 60 + second) nano offset
  else none

/-- Instants are strings in JSON. -/
instance codec : Codec Instant where
  encode t := .str t.toText
  decode? j := j.text? >>= ofText?

end Instant

end Reconciler
