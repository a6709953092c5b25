/-
Which blanks count: distinguished names and texts of words.

Distinguished names are compared part by part, without the blanks around each part.  Texts of words
are compared word by word.  Lower case is formed part by part in the one and for the whole text in
the other, although capital sigma has two lower-case forms; separators and spaces shield what they
separate, so this makes no difference.

* `comparedParts`: the parts of a distinguished name as they are compared.

Main statements:
* `normalizeDistinguishedName_eq_iff`: names have one normal form when all their parts agree;
* `collapsed_eq`: the normal form of a text is its words, in lower case, with single spaces between;
* `ignores_intended_blanks`: these normal forms do not depend on blanks around parts and on how many
  stand between words, and have none but single spaces between words.
-/
import Reconciler.MatchingRule
import Reconciler.Proofs.Text.Lowering

namespace Reconciler.MatchingRule

open Text

variable {s t : List Char}

theorem isBoundary_comma : IsBoundary ',' := by decide +kernel

theorem isBoundary_equals : IsBoundary '=' := by decide +kernel

theorem isBoundary_space : IsBoundary ' ' := isBoundary_of_isBlank (by decide)

/-! ### Distinguished names -/

/-- A part of a distinguished name as it is compared. -/
def comparedPart (part : List Char) : List Char := lower (trim part)

/-- The parts of a distinguished name as they are compared. -/
def comparedParts (cs : List Char) : List (List (List Char)) :=
  (pieces ',' cs).map fun rdn => (pieces '=' rdn).map comparedPart

theorem normalizeDistinguishedName_eq :
    normalizeDistinguishedName = changePieces ',' (changePieces '=' comparedPart) := rfl

theorem comparedPart_comparedPart (part : List Char) :
    comparedPart (comparedPart part) = comparedPart part := by
  have htrim : trim (lower (trim part)) = lower (trim part) :=
    trim_lower_eq_self_iff.2 (trim_trim part)
  rw [comparedPart, comparedPart, htrim, lower_lower]

theorem ignoresEnds_comparedPart : IgnoresEnds comparedPart := ignoresEnds_trim.comp lower

theorem keepsCount_comparedPart {c : Char} (hc : IsBoundary c) (hblank : isBlank c = false) :
    KeepsCount c comparedPart :=
  (keepsCount_lower hc).comp (keepsCount_trim hblank)

theorem keepsCount_comma : KeepsCount ',' (changePieces '=' comparedPart) :=
  (keepsCount_comparedPart isBoundary_comma (by decide)).changePieces

theorem keepsCount_equals : KeepsCount '=' comparedPart :=
  keepsCount_comparedPart isBoundary_equals (by decide)

theorem normalizeDistinguishedName_again (cs : List Char) :
    normalizeDistinguishedName (normalizeDistinguishedName cs) = normalizeDistinguishedName cs := by
  rw [normalizeDistinguishedName_eq]
  refine changePieces_again keepsCount_comma (fun rdn => ?_) cs
  exact changePieces_again keepsCount_equals comparedPart_comparedPart rdn

/-- Names have one normal form just when all their parts agree. -/
theorem normalizeDistinguishedName_eq_iff :
    normalizeDistinguishedName s = normalizeDistinguishedName t ↔
      comparedParts s = comparedParts t := by
  have hparts : ∀ cs, comparedParts cs =
      ((pieces ',' cs).map (changePieces '=' comparedPart)).map (pieces '=') := by
    intro cs
    rw [List.map_map]
    exact List.map_congr_left fun rdn _ => (pieces_changePieces keepsCount_equals rdn).symm
  have hjoined : ∀ cs, (pieces ',' cs).map (changePieces '=' comparedPart) =
      (comparedParts cs).map (join '=') := by
    intro cs
    rw [comparedParts, List.map_map]
    rfl
  rw [normalizeDistinguishedName_eq, changePieces_eq_iff keepsCount_comma]
  constructor
  · intro h
    rw [hparts, hparts, h]
  · intro h
    rw [hjoined, hjoined, h]

/-- Blanks next to commas and equals signs do not count. -/
theorem normalizeDistinguishedName_around {sep : Char} {u v : List Char}
    (hsep : sep = ',' ∨ sep = '=') (hu : AllBlank u) (hv : AllBlank v) (a b : List Char) :
    normalizeDistinguishedName (a ++ u ++ sep :: (v ++ b)) =
      normalizeDistinguishedName (a ++ sep :: b) := by
  have hequals : isBlank '=' = false := by decide
  have hcomma : isBlank ',' = false := by decide
  rw [normalizeDistinguishedName_eq]
  rcases hsep with rfl | rfl
  · exact (ignoresEnds_comparedPart.changePieces hequals).changePieces_around hcomma hu hv a b
  · -- An equals sign belongs to one piece between commas, and so do the blanks next to it.
    have hx : ',' ∉ u ++ '=' :: v := by
      simp [hu.not_mem hcomma, hv.not_mem hcomma]
    have hpiece := changePieces_congr (f := changePieces '=' comparedPart) (a := a) (b := b)
      (y := ['=']) hx (by decide) fun a' b' _ _ => by
        simpa using ignoresEnds_comparedPart.changePieces_around hequals hu hv a' b'
    simpa using hpiece

/-! ### Texts of words -/

/-- The normal form of a text is its words, in lower case, with single spaces between. -/
theorem collapsed_eq (cs : List Char) :
    lower (collapseBlanks cs) = join ' ' ((words cs).map lower) :=
  lower_join isBoundary_space (words cs)

theorem isWord_of_mem_lowered {w cs : List Char} (h : w ∈ (words cs).map lower) : IsWord w := by
  obtain ⟨w', hw', rfl⟩ := List.mem_map.1 h
  exact isWord_lower (isWord_of_mem_words hw')

theorem words_collapsed (cs : List Char) :
    words (lower (collapseBlanks cs)) = (words cs).map lower := by
  rw [collapsed_eq, words_join fun w hw => isWord_of_mem_lowered hw]

theorem collapsed_again (cs : List Char) :
    lower (collapseBlanks (lower (collapseBlanks cs))) = lower (collapseBlanks cs) := by
  rw [collapsed_eq (lower (collapseBlanks cs)), words_collapsed, collapsed_eq, List.map_map]
  simp [Function.comp_def, lower_lower]

/-- Texts have one normal form just when their words agree. -/
theorem collapsed_eq_iff :
    lower (collapseBlanks s) = lower (collapseBlanks t) ↔
      (words s).map lower = (words t).map lower := by
  constructor
  · intro h
    rw [← words_collapsed, ← words_collapsed, h]
  · intro h
    rw [collapsed_eq, collapsed_eq, h]

theorem wellSpaced_collapsed (cs : List Char) : WellSpaced (lower (collapseBlanks cs)) := by
  rw [collapsed_eq]
  exact wellSpaced_join fun w hw => isWord_of_mem_lowered hw

/-- **Only the intended blanks are ignored.**  The normal form of a distinguished name does not
depend on blanks next to its commas and equals signs and at its ends, and it keeps these separators;
names with one normal form agree in all their parts.  The normal form of a text of words does not
depend on which blanks stand between words and at its ends, and it has none but single spaces
between words; texts with one normal form agree in all their words. -/
theorem ignores_intended_blanks :
    (∀ (a u v b : List Char) (sep : Char), sep = ',' ∨ sep = '=' → AllBlank u → AllBlank v →
      normalizeDistinguishedName (a ++ u ++ sep :: (v ++ b)) =
        normalizeDistinguishedName (a ++ sep :: b)) ∧
    (∀ u s v : List Char, AllBlank u → AllBlank v →
      normalizeDistinguishedName (u ++ s ++ v) = normalizeDistinguishedName s) ∧
    (∀ s t : List Char, normalizeDistinguishedName s = normalizeDistinguishedName t ↔
      comparedParts s = comparedParts t) ∧
    (∀ (s : List Char) (sep : Char), sep = ',' ∨ sep = '=' →
      (normalizeDistinguishedName s).count sep = s.count sep) ∧
    (∀ a u v b : List Char, AllBlank u → u ≠ [] → AllBlank v → v ≠ [] →
      lower (collapseBlanks (a ++ u ++ b)) = lower (collapseBlanks (a ++ v ++ b))) ∧
    (∀ u s v : List Char, AllBlank u → AllBlank v →
      lower (collapseBlanks (u ++ s ++ v)) = lower (collapseBlanks s)) ∧
    (∀ s t : List Char, lower (collapseBlanks s) = lower (collapseBlanks t) ↔
      (words s).map lower = (words t).map lower) ∧
    ∀ s : List Char, trim (lower (collapseBlanks s)) = lower (collapseBlanks s) ∧
      WellSpaced (lower (collapseBlanks s)) := by
  refine ⟨?_, ?_, fun s t => normalizeDistinguishedName_eq_iff, ?_, ?_, ?_,
    fun s t => collapsed_eq_iff, ?_⟩
  · intro a u v b sep hsep hu hv
    exact normalizeDistinguishedName_around hsep hu hv a b
  · exact (ignoresEnds_comparedPart.changePieces (by decide)).changePieces (by decide)
  · intro s sep hsep
    rw [normalizeDistinguishedName_eq]
    rcases hsep with rfl | rfl
    · exact keepsCount_comma.changePieces s
    · exact keepsCount_equals.changePieces.changePieces s
  · intro a u v b hu hne hv hne'
    rw [collapsed_eq_iff, words_append_blanks hne hu, words_append_blanks hne' hv]
  · intro u s v hu hv
    rw [collapsed_eq_iff, ignoresEnds_words u s v hu hv]
  · intro s
    exact ⟨(wellSpaced_collapsed s).trim_eq, wellSpaced_collapsed s⟩

/-- An organisation whose name ends in capital sigma, with several kinds of blanks around signs. -/
theorem ignores_intended_blanks_sample :
    let odd : List Char := [' ', '\u2003']
    AllBlank odd ∧ AllBlank ['\t'] ∧
      normalizeDistinguishedName
          ("uid=a,o".toList ++ odd ++ '=' :: (['\t'] ++ "ΟΔΟΣ ,DC=x".toList)) =
        normalizeDistinguishedName ("uid=a,o".toList ++ '=' :: "ΟΔΟΣ ,DC=x".toList) ∧
      normalizeDistinguishedName "uid=a,o=ΟΔΟΣ ,DC=x".toList = "uid=a,o=οδος,dc=x".toList ∧
      (normalizeDistinguishedName "uid=a,o=ΟΔΟΣ ,DC=x".toList).count ',' = 2 ∧
      lower (collapseBlanks ("ΟΔΟΣ".toList ++ odd ++ "Α ".toList)) =
        lower (collapseBlanks ("ΟΔΟΣ".toList ++ ['\t'] ++ "Α ".toList)) ∧
      lower (collapseBlanks "ΟΔΟΣ\tΑ ".toList) = "οδος α".toList := by
  obtain ⟨haround, -, -, hcount, hruns, -⟩ := ignores_intended_blanks
  refine ⟨by decide, by decide, ?_, by decide +kernel, ?_, ?_, by decide +kernel⟩
  · exact haround _ _ _ _ '=' (.inr rfl) (by decide) (by decide)
  · exact (hcount _ ',' (.inl rfl)).trans (by decide +kernel)
  · exact hruns _ _ _ _ (by decide) (by decide) (by decide) (by decide)

end Reconciler.MatchingRule
