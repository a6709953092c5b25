/-
Why a text is no JSON, and where it stops being one.

* `Json.Flaw`: what is wrong with a text;
* `Json.Place`: a line, counted from one, and a column, counted in bytes;
* `Json.ReadError`: a flaw at a place.

Main statements:
* `Place.ofOffset_zero`: a text begins in column 0 of line 1;
* `Place.ofOffset_of_noBreak`: in a text of one line the column is the offset, up to the end.

Design notes:
* A column is the number of bytes in front of it since the last line break, so what lies behind the
  first byte of a line is in column 1.  It may fall inside a character.
-/
namespace Reconciler.Json

/-- What is wrong with a text. -/
inductive Flaw where
  | unfinishedList
  | unfinishedObject
  | unfinishedString
  | unfinishedValue
  | noColon
  | noCommaInList
  | noCommaInObject
  | unknownWord
  | noValue
  | badEscape
  | badNumber
  | outOfRange
  | controlCharacter
  | keyNotText
  | loneSurrogate
  | brokenSurrogatePair
  | trailingComma
  | trailingCharacters
  | tooDeep
deriving DecidableEq, Repr, Inhabited

/-- The wording of a flaw. -/
def Flaw.message : Flaw → String
  | unfinishedList => "EOF while parsing a list"
  | unfinishedObject => "EOF while parsing an object"
  | unfinishedString => "EOF while parsing a string"
  | unfinishedValue => "EOF while parsing a value"
  | noColon => "expected `:`"
  | noCommaInList => "expected `,` or `]`"
  | noCommaInObject => "expected `,` or `\x7d`"
  | unknownWord => "expected ident"
  | noValue => "expected value"
  | badEscape => "invalid escape"
  | badNumber => "invalid number"
  | outOfRange => "number out of range"
  | controlCharacter => "control character (\\u0000-\\u001F) found while parsing a string"
  | keyNotText => "key must be a string"
  | loneSurrogate => "lone leading surrogate in hex escape"
  | brokenSurrogatePair => "unexpected end of hex escape"
  | trailingComma => "trailing comma"
  | trailingCharacters => "trailing characters"
  | tooDeep => "recursion limit exceeded"

/-- The number of bytes that characters take in UTF-8. -/
def byteCount (cs : List Char) : Nat := cs.foldr (fun c n => c.utf8Size + n) 0

theorem byteCount_cons (c : Char) (cs : List Char) :
    byteCount (c :: cs) = c.utf8Size + byteCount cs := rfl

/-- A place in a text. -/
structure Place where
  line : Nat
  column : Nat
deriving DecidableEq, Repr, Inhabited

namespace Place

/-- Where a text begins. -/
def start : Place := ⟨1, 0⟩

/-- The place `offset` bytes further on in the text that begins here; never behind its end. -/
def advance (p : Place) (offset : Nat) : List Char → Place
  | [] => p
  | c :: rest =>
    if offset < c.utf8Size then ⟨p.line, p.column + offset⟩
    else
      let next : Place := if c = '\n' then ⟨p.line + 1, 0⟩ else ⟨p.line, p.column + c.utf8Size⟩
      next.advance (offset - c.utf8Size) rest

/-- The place behind the first `offset` bytes of a text. -/
def ofOffset (offset : Nat) (cs : List Char) : Place := start.advance offset cs

theorem ofOffset_zero (cs : List Char) : ofOffset 0 cs = start := by
  cases cs with
  | nil => rfl
  | cons c rest => simp [ofOffset, advance, Char.utf8Size_pos, start]

theorem advance_of_noBreak (p : Place) (offset : Nat) {cs : List Char} (h : '\n' ∉ cs) :
    p.advance offset cs = ⟨p.line, p.column + min offset (byteCount cs)⟩ := by
  induction cs generalizing p offset with
  | nil => simp [advance, byteCount]
  | cons c rest ih =>
    obtain ⟨hc, hrest⟩ : c ≠ '\n' ∧ '\n' ∉ rest := by simp_all [eq_comm]
    by_cases hlt : offset < c.utf8Size
    · simp [advance, hlt, byteCount_cons]
      omega
    · simp [advance, hlt, hc, ih _ _ hrest, byteCount_cons]
      omega

theorem ofOffset_of_noBreak (offset : Nat) {cs : List Char} (h : '\n' ∉ cs) :
    ofOffset offset cs = ⟨1, min offset (byteCount cs)⟩ := by
  simp [ofOffset, advance_of_noBreak _ _ h, start]

end Place

/-- Why a text is no JSON: a flaw and its place. -/
structure ReadError where
  flaw : Flaw
  place : Place
deriving DecidableEq, Repr, Inhabited

/-- The wording of an error. -/
def ReadError.message (e : ReadError) : String :=
  s!"{e.flaw.message} at line {e.place.line} column {e.place.column}"

example : ReadError.message ⟨.noColon, ⟨2, 7⟩⟩ = "expected `:` at line 2 column 7" := by
  decide +kernel

end Reconciler.Json
