/-
Reading JSON text.

The grammar is the strict one: no comments, no trailing commas, nothing after the value.  Arrays
and objects may be nested at most 127 deep.  Of two members with one name the later stays.

Whole numbers without a fraction or exponent are kept exact when they fit 64 bits, signed or not;
all other numbers, and minus zero, become doubles.  A number that is too large for a double makes
the text unreadable.

* `Json.ofText?`: reads one value that fills the text, or says what is wrong with it and where;
* `Json.membersOfText?`: reads chosen members of an object and only checks the form of the others.

Design notes:
* Every function takes the characters still to be read and gives back what is left of them, or
  stops.  A stop holds the characters that were left when the flaw showed, so its place in the
  text can be counted from the end.
* Fuel bounds the depth of the recursion.  Between two characters that are consumed it goes down
  at most twice, so twice the number of characters is enough.
* The first flaw is the one that is reported.  It mostly lies behind the first byte that cannot
  stand where it is, or at the end of the text if more was to come.
-/
import Reconciler.Json.Basic
import Reconciler.Json.Flaw

namespace Reconciler.Json.Reader

/-! ### Stops -/

/-- Why reading stopped: a flaw that shows `past` bytes into what was left of the text. -/
structure Stop where
  flaw : Flaw
  left : List Char
  past : Nat
deriving DecidableEq, Repr

namespace Stop

/-- The text is at its end, but more was to come. -/
def ending (flaw : Flaw) : Stop := ⟨flaw, [], 0⟩

/-- The next byte, if there is one, cannot stand here. -/
def facing (flaw : Flaw) (cs : List Char) : Stop := ⟨flaw, cs, 1⟩

/-- What was read last is wrong. -/
def behind (flaw : Flaw) (cs : List Char) : Stop := ⟨flaw, cs, 0⟩

/-- Something else was to come: `unfinished` is the flaw if nothing does. -/
def missing (unfinished flaw : Flaw) (cs : List Char) : Stop :=
  if cs.isEmpty then ending unfinished else facing flaw cs

/-- What a stop says about the whole text. -/
def toError (text : List Char) (s : Stop) : ReadError :=
  ⟨s.flaw, Place.ofOffset (byteCount text - byteCount s.left + s.past) text⟩

end Stop

/-- What a reader gives, or why it stopped. -/
abbrev Reading := Except Stop

/-- The blanks that JSON allows between tokens. -/
def isSpace (c : Char) : Bool := c == ' ' || c == '\n' || c == '\t' || c == '\r'

/-- Skips blanks. -/
def skip (cs : List Char) : List Char := cs.dropWhile isSpace

/-! ### Strings -/

/-- The value of a hexadecimal digit. -/
def hexValue? (c : Char) : Option Nat :=
  if c.isDigit then some (c.toNat - 48)
  else if 'a' ≤ c ∧ c ≤ 'f' then some (c.toNat - 87)
  else if 'A' ≤ c ∧ c ≤ 'F' then some (c.toNat - 55)
  else none

/-- The code unit that four hexadecimal digits name; four bytes are always looked at together. -/
def hexFour? (cs : List Char) : Reading (Nat × List Char) :=
  match cs.take 4 |>.mapM hexValue? with
  | some [a, b, c, d] => .ok (((a * 16 + b) * 16 + c) * 16 + d, cs.drop 4)
  | _ =>
    .error <| if byteCount cs < 4 then .ending .unfinishedString else ⟨.badEscape, cs, 4⟩

/-- The character that a letter after a backslash stands for. -/
def escapeChar? (c : Char) : Option Char :=
  match c with
  | '"' => some '"'
  | '\\' => some '\\'
  | '/' => some '/'
  | 'b' => some '\x08'
  | 'f' => some '\x0c'
  | 'n' => some '\n'
  | 'r' => some '\r'
  | 't' => some '\t'
  | _ => none

/-- What is left behind a mark that has to follow the first half of a surrogate pair. -/
def pairMark? (mark : Char) (cs : List Char) : Reading (List Char) :=
  match cs with
  | c :: rest => if c = mark then .ok rest else .error (.facing .brokenSurrogatePair cs)
  | [] => .error (.ending .unfinishedString)

/-- The character of an escape by code units: one unit, or two that form a surrogate pair. -/
def unitEscape? (cs : List Char) : Reading (Char × List Char) := do
  let (high, rest) ← hexFour? cs
  if 0xDC00 ≤ high ∧ high ≤ 0xDFFF then throw (.behind .loneSurrogate rest)
  else if 0xD800 ≤ high ∧ high ≤ 0xDBFF then
    let (low, rest) ← hexFour? (← pairMark? 'u' (← pairMark? '\\' rest))
    if 0xDC00 ≤ low ∧ low ≤ 0xDFFF then
      return (Char.ofNat (0x10000 + (high - 0xD800) * 0x400 + (low - 0xDC00)), rest)
    else throw (.behind .loneSurrogate rest)
  else return (Char.ofNat high, rest)

/-- The rest of a string after its opening quote; `acc` holds its characters from the end. -/
def stringFrom (fuel : Nat) (acc : List Char) (cs : List Char) : Reading (String × List Char) :=
  match fuel, cs with
  | _, '"' :: rest => .ok (String.ofList acc.reverse, rest)
  | fuel + 1, '\\' :: 'u' :: rest => do
    let (c, rest) ← unitEscape? rest
    stringFrom fuel (c :: acc) rest
  | fuel + 1, '\\' :: c :: rest =>
    match escapeChar? c with
    | some c => stringFrom fuel (c :: acc) rest
    | none => .error (.facing .badEscape (c :: rest))
  | fuel + 1, c :: rest =>
    if c.toNat < 32 then .error (.facing .controlCharacter (c :: rest))
    else stringFrom fuel (c :: acc) rest
  | _, _ => .error (.ending .unfinishedString)

/-- A string after its opening quote. -/
def string? (fuel : Nat) (cs : List Char) : Reading (String × List Char) := stringFrom fuel [] cs

/-! ### Numbers -/

/-- The greatest whole number that is kept exact. -/
def wordLimit : Nat := UInt64.size - 1

/-- The greatest exponent that is read to its end. -/
def exponentLimit : Nat := 2147483647

/-- The value of a decimal digit. -/
def digitValue (c : Char) : Nat := c.toNat - 48

/-- A decimal significand that fits 64 bits; `skipped` counts whole digits that no longer did. -/
structure Significand where
  value : Nat
  skipped : Nat
deriving DecidableEq, Repr

/-- The whole digits of a number: those that fit, and how many follow them. -/
def Significand.ofDigits (digits : List Char) : Significand :=
  digits.foldl
    (fun s c =>
      let next := s.value * 10 + digitValue c
      if s.skipped = 0 ∧ next ≤ wordLimit then ⟨next, 0⟩ else ⟨s.value, s.skipped + 1⟩)
    ⟨0, 0⟩

/-- Appends fraction digits while they fit; gives the significand and how many were taken. -/
def appendFraction (value taken : Nat) : List Char → Nat × Nat
  | [] => (value, taken)
  | c :: rest =>
    let next := value * 10 + digitValue c
    if next ≤ wordLimit then appendFraction next (taken + 1) rest else (value, taken)

/-- The value of decimal digits. -/
def natOfDigits (digits : List Char) : Nat := digits.foldl (fun n c => n * 10 + digitValue c) 0

/-- Decimal digits, at least one. -/
def digits? (cs : List Char) : Reading (List Char × List Char) :=
  match cs.takeWhile Char.isDigit with
  | [] => .error (.missing .unfinishedValue .badNumber cs)
  | digits => .ok (digits, cs.dropWhile Char.isDigit)

/-- The digits after a point, if there is a point. -/
def fraction? (cs : List Char) : Reading (Option (List Char) × List Char) :=
  match cs with
  | '.' :: rest => do
    let (digits, rest) ← digits? rest
    return (some digits, rest)
  | _ => .ok (none, cs)

/-- An exponent as it is written. -/
structure Exponent where
  negative : Bool
  digits : List Char
deriving DecidableEq, Repr

namespace Exponent

/-- The value of an exponent. -/
def value (e : Exponent) : Int :=
  if e.negative then -(natOfDigits e.digits : Int) else natOfDigits e.digits

/-- The digits behind the one with which a value that starts at `n` grows beyond the limit. -/
def excess (n : Nat) : List Char → List Char
  | [] => []
  | c :: rest =>
    let next := n * 10 + digitValue c
    if exponentLimit < next then rest else excess next rest

/-- The digits that are not read any more when the number turns out to be too large. -/
def unread (e : Exponent) : List Char := if e.negative then [] else excess 0 e.digits

end Exponent

/-- An exponent after its mark, if there is a mark. -/
def exponent? (cs : List Char) : Reading (Option Exponent × List Char) :=
  match cs with
  | [] => .ok (none, [])
  | c :: rest =>
    if c = 'e' ∨ c = 'E' then do
      let (negative, rest) : Bool × List Char :=
        match rest with
        | '+' :: rest => (false, rest)
        | '-' :: rest => (true, rest)
        | rest => (false, rest)
      let (digits, rest) ← digits? rest
      return (some ⟨negative, digits⟩, rest)
    else .ok (none, cs)

/-- The parts of a number as it is written. -/
structure Numeral where
  negative : Bool
  whole : List Char
  fraction : Option (List Char)
  exponent : Option Exponent
deriving DecidableEq, Repr

/-- The parts of a number; a zero stands only alone before the point. -/
def numeral? (cs : List Char) : Reading (Numeral × List Char) := do
  let (negative, cs) : Bool × List Char :=
    match cs with
    | '-' :: rest => (true, rest)
    | _ => (false, cs)
  let (whole, rest) ← digits? cs
  if whole.head? = some '0' ∧ whole.length > 1 then throw (.facing .badNumber cs.tail)
  let (fraction, rest) ← fraction? rest
  let (exponent, rest) ← exponent? rest
  return (⟨negative, whole, fraction, exponent⟩, rest)

/-- The double that a numeral stands for. -/
def Numeral.float? (n : Numeral) : Option Json := do
  let whole := Significand.ofDigits n.whole
  let (value, taken) := appendFraction whole.value 0 (n.fraction.getD [])
  let x ← Binary64.ofScaled? n.negative value
    ((whole.skipped : Int) - taken + (n.exponent.map Exponent.value).getD 0)
  return .float { x with negative := n.negative }

/-- The value of a numeral. -/
def Numeral.value? (n : Numeral) : Option Json :=
  if n.fraction.isSome ∨ n.exponent.isSome then n.float?
  else
    let value := natOfDigits n.whole
    -- Only a double can be minus zero.
    if n.negative then
      if value = 0 ∨ 9223372036854775808 < value then n.float? else some (.int (-(value : Int)))
    else if value ≤ wordLimit then some (.int value) else n.float?

/-- A number. -/
def number? (cs : List Char) : Reading (Json × List Char) := do
  let (n, rest) ← numeral? cs
  match n.value? with
  | some v => return (v, rest)
  | none => throw (.behind .outOfRange ((n.exponent.map Exponent.unread).getD [] ++ rest))

/-! ### Values -/

/-- Takes what is left of a fixed word off the text. -/
def word? (value : Json) (word cs : List Char) : Reading (Json × List Char) :=
  match word with
  | [] => .ok (value, cs)
  | c :: word =>
    if cs.head? = some c then word? value word cs.tail
    else .error (.missing .unfinishedValue .unknownWord cs)

mutual

/-- One value at the start of the text; `depth` more levels of nesting are allowed. -/
def value? (fuel depth : Nat) (cs : List Char) : Reading (Json × List Char) :=
  match fuel, cs with
  | fuel + 1, '[' :: rest =>
    match depth with
    | 0 => .error (.facing .tooDeep cs)
    | depth + 1 =>
      match skip rest with
      | [] => .error (.ending .unfinishedList)
      | ']' :: rest => .ok (.arr [], rest)
      | rest => do
        let (items, rest) ← items? fuel depth rest
        return (.arr items, rest)
  | fuel + 1, '\x7b' :: rest =>
    match depth with
    | 0 => .error (.facing .tooDeep cs)
    | depth + 1 =>
      match skip rest with
      | [] => .error (.ending .unfinishedObject)
      | '\x7d' :: rest => .ok (.record [], rest)
      | rest => do
        let (members, rest) ← members? fuel depth rest
        return (.record members, rest)
  | fuel, '"' :: rest => do
    let (s, rest) ← string? fuel rest
    return (.str s, rest)
  | _, 'n' :: rest => word? .null "ull".toList rest
  | _, 't' :: rest => word? (.bool true) "rue".toList rest
  | _, 'f' :: rest => word? (.bool false) "alse".toList rest
  | _, cs =>
    if cs.head?.any fun c => c == '-' || c.isDigit then number? cs
    else .error (.missing .unfinishedValue .noValue cs)

/-- The items of an array up to its closing bracket; at least one. -/
def items? (fuel depth : Nat) (cs : List Char) : Reading (List Json × List Char) :=
  match fuel with
  | 0 => .error (.ending .unfinishedList)
  | fuel + 1 => do
    let (item, rest) ← value? fuel depth cs
    match skip rest with
    | ']' :: rest => return ([item], rest)
    | ',' :: rest =>
      let rest := skip rest
      if rest.head? = some ']' then throw (.facing .trailingComma rest)
      let (items, rest) ← items? fuel depth rest
      return (item :: items, rest)
    | rest => throw (.missing .unfinishedList .noCommaInList rest)

/-- The members of an object up to its closing brace; at least one. -/
def members? (fuel depth : Nat) (cs : List Char) : Reading (List (String × Json) × List Char) :=
  match fuel with
  | 0 => .error (.ending .unfinishedObject)
  | fuel + 1 => do
    match cs with
    | '"' :: rest =>
      let (name, rest) ← string? fuel rest
      match skip rest with
      | ':' :: rest =>
        let (v, rest) ← value? fuel depth (skip rest)
        match skip rest with
        | '\x7d' :: rest => return ([(name, v)], rest)
        | ',' :: rest =>
          let rest := skip rest
          if rest.head? = some '\x7d' then throw (.facing .trailingComma rest)
          let (members, rest) ← members? fuel depth rest
          return ((name, v) :: members, rest)
        | rest => throw (.missing .unfinishedObject .noCommaInObject rest)
      | rest => throw (.missing .unfinishedObject .noColon rest)
    | cs => throw (.missing .unfinishedValue .keyNotText cs)

end

/-! ### Values whose content does not matter -/

/-- Skips a string after its opening quote, whatever code units its escapes name. -/
def skipString? (fuel : Nat) (cs : List Char) : Option (List Char) :=
  match fuel, cs with
  | _, '"' :: rest => some rest
  | fuel + 1, '\\' :: 'u' :: rest => do skipString? fuel (← (hexFour? rest).toOption).2
  | fuel + 1, '\\' :: c :: rest => do
    let _ ← escapeChar? c
    skipString? fuel rest
  | fuel + 1, c :: rest => if c.toNat < 32 then none else skipString? fuel rest
  | _, _ => none

mutual

/-- Skips one value, however deep it is nested and however large its numbers are. -/
def skipValue? (fuel : Nat) (cs : List Char) : Option (List Char) :=
  match fuel, cs with
  | fuel + 1, '[' :: rest =>
    match skip rest with
    | ']' :: rest => some rest
    | rest => skipItems? fuel rest
  | fuel + 1, '\x7b' :: rest =>
    match skip rest with
    | '\x7d' :: rest => some rest
    | rest => skipMembers? fuel rest
  | fuel, '"' :: rest => skipString? fuel rest
  | _, 'n' :: rest => (word? .null "ull".toList rest).toOption.map (·.2)
  | _, 't' :: rest => (word? .null "rue".toList rest).toOption.map (·.2)
  | _, 'f' :: rest => (word? .null "alse".toList rest).toOption.map (·.2)
  | _, cs => (numeral? cs).toOption.map (·.2)

/-- Skips the items of an array up to its closing bracket. -/
def skipItems? (fuel : Nat) (cs : List Char) : Option (List Char) :=
  match fuel with
  | 0 => none
  | fuel + 1 => do
    match skip (← skipValue? fuel (skip cs)) with
    | ',' :: rest => skipItems? fuel rest
    | ']' :: rest => return rest
    | _ => none

/-- Skips the members of an object up to its closing brace. -/
def skipMembers? (fuel : Nat) (cs : List Char) : Option (List Char) :=
  match fuel with
  | 0 => none
  | fuel + 1 => do
    match skip cs with
    | '"' :: rest =>
      match skip (← skipString? fuel rest) with
      | ':' :: rest =>
        match skip (← skipValue? fuel (skip rest)) with
        | ',' :: rest => skipMembers? fuel rest
        | '\x7d' :: rest => return rest
        | _ => none
      | _ => none
    | _ => none

end

/-- The members with a wanted name, up to the closing brace; the form of the others is checked. -/
def wanted? (names : List String) (fuel depth : Nat) (cs : List Char) :
    Option (List (String × Json) × List Char) :=
  match fuel with
  | 0 => none
  | fuel + 1 => do
    match skip cs with
    | '"' :: rest =>
      let (name, rest) ← (string? fuel rest).toOption
      match skip rest with
      | ':' :: rest =>
        let (found, rest) ← if names.contains name then do
            let (v, rest) ← (value? fuel depth (skip rest)).toOption
            pure ([(name, v)], rest)
          else do pure ([], ← skipValue? fuel (skip rest))
        match skip rest with
        | ',' :: rest =>
          let (members, rest) ← wanted? names fuel depth rest
          return (found ++ members, rest)
        | '\x7d' :: rest => return (found, rest)
        | _ => none
      | _ => none
    | _ => none

/-- Enough fuel for a text. -/
def fuelFor (cs : List Char) : Nat := 2 * cs.length + 2

/-- What was read, if only blanks are left. -/
def finish {α : Type} (a : α) (rest : List Char) : Reading α :=
  let rest := skip rest
  if rest.isEmpty then .ok a else .error (.facing .trailingCharacters rest)

end Reader

/-- How deep arrays and objects may be nested. -/
def depthLimit : Nat := 127

/-- The value that a text holds. -/
def ofText? (text : String) : Except ReadError Json :=
  let cs := text.toList
  Except.mapError (Reader.Stop.toError cs) do
    let (v, rest) ← Reader.value? (Reader.fuelFor cs) depthLimit (Reader.skip cs)
    Reader.finish v rest

example : ofText? "[" = .error ⟨.unfinishedList, ⟨1, 1⟩⟩ := by rfl
example : ofText? "[1,\n]" = .error ⟨.trailingComma, ⟨2, 1⟩⟩ := by rfl
example : ofText? "\"\\ud800\"" = .error ⟨.brokenSurrogatePair, ⟨1, 8⟩⟩ := by rfl

/-- The members with a wanted name, in the order written, repetitions included, of the object that
a text holds.  Other members need only be well formed. -/
def membersOfText? (names : List String) (text : String) : Option (List (String × Json)) := do
  let cs := text.toList
  match Reader.skip cs with
  | '\x7b' :: rest =>
    let (members, rest) ← match Reader.skip rest with
      | '\x7d' :: rest => some ([], rest)
      | rest => Reader.wanted? names (Reader.fuelFor cs) (depthLimit - 1) rest
    (Reader.finish members rest).toOption
  | _ => none

end Reconciler.Json
