/-
Changing a text piece by piece.

* `changePieces`: the text with each of its pieces changed;
* `KeepsCount`: a change of texts that neither makes nor removes a character.

Main statements:
* `pieces_join`: texts without the separator are the pieces of what they are joined to;
* `changePieces_append_cons`: both sides of a separator are changed on their own;
* `changePieces_congr`: a part that holds no separator matters to its own piece only;
* `pieces_changePieces`: where the separators stay, the changed pieces are the pieces of the result;
* `changePieces_again`: hence a change that is done once and for all to pieces is so to texts.
-/
import Reconciler.Text.Cut

namespace Reconciler.Text

variable {sep c : Char} {cs s t a b x y : List Char} {ps qs : List (List Char)}
variable {f g : List Char → List Char}

/-! ### Pieces and their joins -/

theorem pieces_of_not_mem (h : sep ∉ cs) : pieces sep cs = [cs] := by
  induction cs with
  | nil => rfl
  | cons c rest ih =>
    have hc : c ≠ sep := fun hc => h (by simp [hc])
    have hrest : sep ∉ rest := fun hm => h (List.mem_cons_of_mem _ hm)
    rw [pieces, if_neg hc, ih hrest]

theorem pieces_append_cons (sep : Char) (a b : List Char) :
    pieces sep (a ++ sep :: b) = pieces sep a ++ pieces sep b := by
  induction a with
  | nil => simp [pieces]
  | cons c rest ih =>
    by_cases hc : c = sep
    · simp [pieces, hc, ih]
    · simp only [List.cons_append, pieces, if_neg hc, ih]
      cases h : pieces sep rest with
      | nil => exact absurd h (pieces_ne_nil _ _)
      | cons p ps => rfl

theorem pieces_join (hne : ps ≠ []) (h : ∀ p ∈ ps, sep ∉ p) : pieces sep (join sep ps) = ps := by
  induction ps with
  | nil => exact absurd rfl hne
  | cons p rest ih =>
    have hp : pieces sep p = [p] := pieces_of_not_mem (h p List.mem_cons_self)
    by_cases hrest : rest = []
    · rw [hrest]
      exact hp
    · rw [join_cons p hrest, pieces_append_cons, hp,
        ih hrest fun q hq => h q (List.mem_cons_of_mem _ hq)]
      rfl

theorem join_append (hp : ps ≠ []) (hq : qs ≠ []) :
    join sep (ps ++ qs) = join sep ps ++ sep :: join sep qs := by
  induction ps with
  | nil => exact absurd rfl hp
  | cons p rest ih =>
    by_cases hrest : rest = []
    · rw [hrest]
      exact join_cons p hq
    · have hne : rest ++ qs ≠ [] := by simp [hrest]
      rw [List.cons_append, join_cons p hne, join_cons p hrest, ih hrest]
      simp

/-- A text without the separator, or else what stands before and after the first one. -/
theorem not_mem_or_exists_first (sep : Char) (cs : List Char) :
    sep ∉ cs ∨ ∃ a b, cs = a ++ sep :: b ∧ sep ∉ a := by
  cases h : cutFirst? sep cs with
  | none => exact .inl (cutFirst?_eq_none_iff.1 h)
  | some p => exact .inr ⟨p.1, p.2, cutFirst?_eq_some_iff.1 h⟩

/-- A text without the separator, or else what stands before and after the last one. -/
theorem not_mem_or_exists_last (sep : Char) (cs : List Char) :
    sep ∉ cs ∨ ∃ a b, cs = a ++ sep :: b ∧ sep ∉ b := by
  cases h : cutLast? sep cs with
  | none => exact .inl (cutLast?_eq_none_iff.1 h)
  | some p => exact .inr ⟨p.1, p.2, cutLast?_eq_some_iff.1 h⟩

/-! ### Changing each piece -/

/-- The text with each of its pieces changed. -/
def changePieces (sep : Char) (f : List Char → List Char) (cs : List Char) : List Char :=
  join sep ((pieces sep cs).map f)

theorem changePieces_of_not_mem (h : sep ∉ cs) : changePieces sep f cs = f cs := by
  rw [changePieces, pieces_of_not_mem h]
  rfl

theorem changePieces_append_cons (sep : Char) (f : List Char → List Char) (a b : List Char) :
    changePieces sep f (a ++ sep :: b) = changePieces sep f a ++ sep :: changePieces sep f b := by
  rw [changePieces, pieces_append_cons, List.map_append]
  exact join_append (by simp) (by simp)

/-- A part that holds no separator matters to its own piece only, and there it stands behind an end
of what was before it and in front of a beginning of what follows it. -/
theorem changePieces_congr (hx : sep ∉ x) (hy : sep ∉ y)
    (h : ∀ a' b', a' <:+ a → b' <+: b → f (a' ++ x ++ b') = f (a' ++ y ++ b')) :
    changePieces sep f (a ++ x ++ b) = changePieces sep f (a ++ y ++ b) := by
  have hpiece : ∀ a' b', a' <:+ a → b' <+: b → sep ∉ a' → sep ∉ b' →
      changePieces sep f (a' ++ x ++ b') = changePieces sep f (a' ++ y ++ b') := by
    intro a' b' ha hb hna hnb
    have hnx : sep ∉ a' ++ x ++ b' := by simp [hna, hx, hnb]
    have hny : sep ∉ a' ++ y ++ b' := by simp [hna, hy, hnb]
    rw [changePieces_of_not_mem hnx, changePieces_of_not_mem hny, h a' b' ha hb]
  -- What stands behind the next separator is changed on its own ...
  have hright : ∀ a', a' <:+ a → sep ∉ a' →
      changePieces sep f (a' ++ x ++ b) = changePieces sep f (a' ++ y ++ b) := by
    intro a' ha hna
    rcases not_mem_or_exists_first sep b with hnb | ⟨b', rest, rfl, hnb⟩
    · exact hpiece a' b ha (List.prefix_refl b) hna hnb
    · rw [← List.append_assoc, ← List.append_assoc, changePieces_append_cons,
        changePieces_append_cons, hpiece a' b' ha (List.prefix_append ..) hna hnb]
  -- ... and so is what stands before the previous one.
  rcases not_mem_or_exists_last sep a with hna | ⟨rest, a', rfl, hna⟩
  · exact hright a (List.suffix_refl a) hna
  · have hsuffix : a' <:+ rest ++ sep :: a' :=
      ⟨rest ++ [sep], by simp⟩
    simp only [List.append_assoc, List.cons_append, changePieces_append_cons]
    rw [← List.append_assoc, ← List.append_assoc, hright a' hsuffix hna]

/-! ### Changes that keep the separators -/

/-- The change neither makes nor removes the character. -/
def KeepsCount (c : Char) (f : List Char → List Char) : Prop :=
  ∀ cs, (f cs).count c = cs.count c

theorem KeepsCount.mem_iff (h : KeepsCount c f) : c ∈ f cs ↔ c ∈ cs := by
  rw [← List.count_pos_iff, ← List.count_pos_iff, h cs]

theorem KeepsCount.comp (hf : KeepsCount c f) (hg : KeepsCount c g) : KeepsCount c (f ∘ g) := by
  intro cs
  rw [Function.comp_apply, hf, hg]

theorem count_join_map (h : KeepsCount c f) (ps : List (List Char)) :
    (join sep (ps.map f)).count c = (join sep ps).count c := by
  induction ps with
  | nil => rfl
  | cons p rest ih =>
    by_cases hrest : rest = []
    · simp [hrest, join, h p]
    · have hmap : rest.map f ≠ [] := by simp [hrest]
      rw [List.map_cons, join_cons _ hmap, join_cons _ hrest]
      simp [h p, ih, List.count_cons]

theorem KeepsCount.changePieces (h : KeepsCount c f) : KeepsCount c (changePieces sep f) := by
  intro cs
  rw [Text.changePieces, count_join_map h, join_pieces]

theorem pieces_changePieces (h : KeepsCount sep f) (cs : List Char) :
    pieces sep (changePieces sep f cs) = (pieces sep cs).map f := by
  refine pieces_join (by simp) fun q hq => ?_
  obtain ⟨p, hp, rfl⟩ := List.mem_map.1 hq
  intro hm
  exact not_mem_of_mem_pieces hp (h.mem_iff.1 hm)

/-- What need not be done to a piece twice need not be done to a text twice. -/
theorem changePieces_again (h : KeepsCount sep f) (hf : ∀ p, f (f p) = f p) (cs : List Char) :
    changePieces sep f (changePieces sep f cs) = changePieces sep f cs := by
  rw [changePieces, pieces_changePieces h, List.map_map, changePieces]
  simp [Function.comp_def, hf]

/-- Texts are changed to one text just when their pieces are. -/
theorem changePieces_eq_iff (h : KeepsCount sep f) :
    changePieces sep f s = changePieces sep f t ↔ (pieces sep s).map f = (pieces sep t).map f := by
  constructor
  · intro he
    rw [← pieces_changePieces h, ← pieces_changePieces h, he]
  · intro he
    rw [changePieces, changePieces, he]

end Reconciler.Text
