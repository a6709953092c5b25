/-
Names and the texts that stand for them.

A name is stored and sent as its text, and read back from it.

* `ItemName.Spells`: which text stands for which name;
* `ItemName.IsSpelling`: texts without a colon, or with something on both sides of the first one.

Main statements:
* `ItemName.ofText?_eq_ok_iff_spells`: this is how texts are read, without the blanks at their ends;
* `ItemName.exists_spells_iff`: these are the texts that can be read;
* `ItemName.eq_of_toText_eq`: names that were read are told apart by their displays;
* `ItemName.read_as_displayed`: names are read as they are displayed.

Design notes:
* Names that were put together from parts may be displayed alike without being equal, since a colon
  in a local part looks like the end of a scope.  Reading takes the first colon for that, so only
  names with a scope are read with a colon in the local part.
-/
import Reconciler.ItemName

namespace Reconciler.ItemName

open Text

variable {cs : List Char} {n n' : ItemName}

/-- The text stands for the name: as its local part if there is no colon, otherwise with the scope
before the first colon and the local part behind it. -/
inductive Spells : List Char → ItemName → Prop where
  | unqualified {cs : List Char} (hne : cs ≠ []) (hcolon : ':' ∉ cs) :
    Spells cs (unqualified (String.ofList cs))
  | qualified {scope localPart : List Char} (hscope : scope ≠ []) (hlocal : localPart ≠ [])
    (hcolon : ':' ∉ scope) :
    Spells (scope ++ ':' :: localPart) (qualified (String.ofList scope) (String.ofList localPart))

/-- A text without a colon, or with something on both sides of the first colon. -/
def IsSpelling (cs : List Char) : Prop :=
  cs ≠ [] ∧ (':' ∉ cs ∨
    ∃ scope localPart, cs = scope ++ ':' :: localPart ∧ ':' ∉ scope ∧ scope ≠ [] ∧ localPart ≠ [])

theorem exists_spells_iff : (∃ n, Spells cs n) ↔ IsSpelling cs := by
  constructor
  · rintro ⟨n, h⟩
    cases h with
    | unqualified hne hcolon => exact ⟨hne, .inl hcolon⟩
    | qualified hscope hlocal hcolon =>
      exact ⟨by simp, .inr ⟨_, _, rfl, hcolon, hscope, hlocal⟩⟩
  · rintro ⟨hne, hcolon | ⟨scope, localPart, rfl, hcolon, hscope, hlocal⟩⟩
    · exact ⟨_, .unqualified hne hcolon⟩
    · exact ⟨_, .qualified hscope hlocal hcolon⟩

theorem ofChars?_of_spells (h : Spells cs n) : ofChars? cs = .ok n := by
  cases h with
  | unqualified hne hcolon => simp [ofChars?, hne, cutFirst?_eq_none_iff.2 hcolon]
  | @qualified scope localPart hscope hlocal hcolon =>
    have hcut : cutFirst? ':' (scope ++ ':' :: localPart) = some (scope, localPart) :=
      cutFirst?_eq_some_iff.2 ⟨rfl, hcolon⟩
    simp [ofChars?, hcut, hscope, hlocal]

theorem spells_of_ofChars? (h : ofChars? cs = .ok n) : Spells cs n := by
  obtain ⟨hne, htext, hparts⟩ := ofChars?_eq_ok_iff.1 h
  obtain ⟨scope, localPart⟩ := n
  rw [toText_toList] at htext
  subst htext
  cases scope with
  | none =>
    show Spells localPart.toList (.unqualified localPart)
    simpa using Spells.unqualified hne hparts
  | some scope =>
    obtain ⟨hscope, hlocal, hcolon⟩ := hparts
    have hscope' : scope.toList ≠ [] := by simpa using hscope
    have hlocal' : localPart.toList ≠ [] := by simpa using hlocal
    show Spells (scope.toList ++ ':' :: localPart.toList) (.qualified scope localPart)
    simpa using Spells.qualified hscope' hlocal' hcolon

/-- Texts are read as they spell, without the blanks at their ends. -/
theorem ofText?_eq_ok_iff_spells {text : String} :
    ofText? text = .ok n ↔ Spells (trim text.toList) n :=
  ⟨spells_of_ofChars?, ofChars?_of_spells⟩

/-- Names that were read are told apart by their displays. -/
theorem eq_of_toText_eq (h : n.WellFormed) (h' : n'.WellFormed) (he : n.toText = n'.toText) :
    n = n' := by
  rw [WellFormed, he] at h
  exact Except.ok.inj (h.symm.trans h')

/-- **Names are read as they are displayed.**  A text stands for a name just when, without the
blanks at its ends, it is not empty and has no colon or something on both sides of the first one.
The name is then displayed as the text without these blanks, and is read back from there.  Names
that were read are equal just when they are displayed alike, and they agree just when their local
parts are equal and their scopes are, unless one is missing. -/
theorem read_as_displayed :
    (∀ text : String, (∃ n, ofText? text = .ok n) ↔ IsSpelling (trim text.toList)) ∧
    (∀ (text : String) (n : ItemName), ofText? text = .ok n →
      Spells (trim text.toList) n ∧ n.toText = String.ofList (trim text.toList) ∧
        ofText? n.toText = .ok n) ∧
    ∀ (text text' : String) (n n' : ItemName), ofText? text = .ok n → ofText? text' = .ok n' →
      (n = n' ↔ n.toText = n'.toText) ∧
      (n.agrees n' = true ↔
        n.localPart = n'.localPart ∧ (n.scope = n'.scope ∨ n.scope = none ∨ n'.scope = none)) := by
  refine ⟨fun text => ?_, ?_, ?_⟩
  · simp only [ofText?_eq_ok_iff_spells]
    exact exists_spells_iff
  · intro text n h
    exact ⟨ofText?_eq_ok_iff_spells.1 h, toText_of_ofText? h, wellFormed_iff.2 ⟨text, h⟩⟩
  · intro text text' n n' h h'
    have hn : n.WellFormed := wellFormed_iff.2 ⟨text, h⟩
    have hn' : n'.WellFormed := wellFormed_iff.2 ⟨text', h'⟩
    exact ⟨⟨fun he => by rw [he], eq_of_toText_eq hn hn'⟩, agrees_iff⟩

/-- A local part with a colon and a blank of its own, and another name. -/
theorem read_as_displayed_sample :
    let n := qualified "a" " b:c"
    let n' := unqualified "b"
    ofText? "\u3000a: b:c\n" = .ok n ∧ ofText? " b" = .ok n' ∧
      n.toText = String.ofList (trim "\u3000a: b:c\n".toList) ∧ ofText? "a: b:c" = .ok n ∧
      n ≠ n' ∧ n.agrees n' = false := by
  have h : ofText? "\u3000a: b:c\n" = .ok (qualified "a" " b:c") := rfl
  have h' : ofText? " b" = .ok (unqualified "b") := rfl
  obtain ⟨-, hread, hpair⟩ := read_as_displayed
  obtain ⟨-, htext, hagain⟩ := hread _ _ h
  obtain ⟨heq, hagrees⟩ := hpair _ _ _ _ h h'
  refine ⟨h, h', htext, hagain, ?_, ?_⟩
  · rw [Ne, heq]
    decide
  · rw [Bool.eq_false_iff, Ne, hagrees]
    decide

/-- Parts that are not read as such make names that are displayed alike. -/
example : (unqualified "a:b").toText = (qualified "a" "b").toText := by decide

end Reconciler.ItemName
