/-
Lower-case form of a text.

Every character is replaced by its own lower-case form, which depends on nothing else except for
capital sigma: at the end of a word it becomes the final letter `ς`, elsewhere `σ`.  A word ends
where the nearest character on the left that matters is a cased one and the nearest on the right
is not; characters such as apostrophes and combining marks do not matter.

Main statements:
* `lower_nil`, `lowerFrom_cons`: the text is rewritten from left to right;
* `lowerCode_ascii`: on ASCII only the capital letters change.
-/
import Reconciler.Text.CaseTable

namespace Reconciler.Text

/-- Whether a code point lies in one of the inclusive ranges. -/
def inRanges (ranges : List (Nat × Nat)) (code : Nat) : Bool :=
  ranges.any fun r => r.1 ≤ code && code ≤ r.2

/-- Whether a character has letter case. -/
def isCased (c : Char) : Bool := inRanges casedTable c.toNat

/-- Whether a character is passed over when the end of a word is looked for. -/
def isCaseIgnorable (c : Char) : Bool := inRanges caseIgnorableTable c.toNat

/-- Whether the first character that matters is a cased one. -/
def beginsCased (cs : List Char) : Bool :=
  match cs.dropWhile isCaseIgnorable with
  | [] => false
  | c :: _ => isCased c

/-- The lower-case form of a code point that has a single one. -/
def lowerCode (code : Nat) : Nat :=
  match CaseRange.table.find? (·.covers code) with
  | some r => ((code : Int) + r.shift).toNat
  | none => code

/-- The lower-case form of a character, whatever stands around it. -/
def lowerChar (c : Char) : List Char :=
  if c = '\u0130' then ['i', '\u0307'] else [Char.ofNat (lowerCode c.toNat)]

/-- Lower case of what follows `before`, a text given from its end. -/
def lowerFrom (before : List Char) : List Char → List Char
  | [] => []
  | c :: rest =>
    (if c = 'Σ' then [if beginsCased before && !beginsCased rest then 'ς' else 'σ']
      else lowerChar c) ++ lowerFrom (c :: before) rest

/-- The lower-case form of a text. -/
def lower (cs : List Char) : List Char := lowerFrom [] cs

/-- The lower-case form of a string. -/
def lowercase (s : String) : String := String.ofList (lower s.toList)

@[simp] theorem lower_nil : lower [] = [] := rfl

theorem lowerFrom_cons (before : List Char) (c : Char) (rest : List Char) :
    lowerFrom before (c :: rest) =
      (if c = 'Σ' then [if beginsCased before && !beginsCased rest then 'ς' else 'σ']
        else lowerChar c) ++ lowerFrom (c :: before) rest := rfl

theorem lowerCode_ascii : ∀ code < 128,
    lowerCode code = if 65 ≤ code ∧ code ≤ 90 then code + 32 else code := by
  decide +kernel

end Reconciler.Text
