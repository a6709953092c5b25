/-
Cutting a text at a separator character, and putting the pieces together again.

Main statements:
* `cutFirst?_eq_some_iff`, `cutLast?_eq_some_iff`: what a cut at the first or last separator gives;
* `join_pieces`: the pieces, joined, are the text;
* `not_mem_of_mem_pieces`: no piece holds the separator;
* `occursIn_iff`: what it means that a text occurs in another.
-/

namespace Reconciler.Text

/-- The texts before and after the first separator. -/
def cutFirst? (sep : Char) : List Char → Option (List Char × List Char)
  | [] => none
  | c :: rest =>
    if c = sep then some ([], rest)
    else (cutFirst? sep rest).map fun p => (c :: p.1, p.2)

/-- The texts before and after the last separator. -/
def cutLast? (sep : Char) : List Char → Option (List Char × List Char)
  | [] => none
  | c :: rest =>
    match cutLast? sep rest with
    | some p => some (c :: p.1, p.2)
    | none => if c = sep then some ([], rest) else none

/-- The texts between the separators: one more than there are separators. -/
def pieces (sep : Char) : List Char → List (List Char)
  | [] => [[]]
  | c :: rest =>
    if c = sep then [] :: pieces sep rest
    else
      match pieces sep rest with
      | [] => [[c]]
      | p :: ps => (c :: p) :: ps

/-- The pieces with a separator between neighbours. -/
def join (sep : Char) : List (List Char) → List Char
  | [] => []
  | [p] => p
  | p :: q :: rest => p ++ sep :: join sep (q :: rest)

/-- Whether a text occurs in another one. -/
def occursIn (part : List Char) : List Char → Bool
  | [] => part.isEmpty
  | c :: rest => part.isPrefixOf (c :: rest) || occursIn part rest

/-! ### One cut -/

theorem cutFirst?_eq_some_iff {sep : Char} {cs a b : List Char} :
    cutFirst? sep cs = some (a, b) ↔ cs = a ++ sep :: b ∧ sep ∉ a := by
  induction cs generalizing a with
  | nil => simp [cutFirst?]
  | cons c rest ih =>
    by_cases hc : c = sep
    · subst hc
      simp only [cutFirst?, if_true, Option.some.injEq, Prod.mk.injEq]
      constructor
      · rintro ⟨rfl, rfl⟩; simp
      · cases a with
        | nil => simp
        | cons x xs => rintro ⟨h, hn⟩; simp at h hn; exact absurd h.1 hn.1
    · simp only [cutFirst?, hc, if_false, Option.map_eq_some_iff, Prod.mk.injEq, Prod.exists]
      constructor
      · rintro ⟨a', b', h, rfl, rfl⟩
        obtain ⟨rfl, hn⟩ := ih.1 h
        exact ⟨rfl, by simp [Ne.symm hc, hn]⟩
      · cases a with
        | nil => rintro ⟨h, -⟩; simp at h; exact absurd h.1 hc
        | cons x xs =>
          rintro ⟨h, hn⟩
          simp at h hn
          exact ⟨xs, b, ih.2 ⟨h.2, hn.2⟩, by rw [h.1], rfl⟩

theorem cutFirst?_eq_none_iff {sep : Char} {cs : List Char} :
    cutFirst? sep cs = none ↔ sep ∉ cs := by
  induction cs with
  | nil => simp [cutFirst?]
  | cons c rest ih =>
    by_cases hc : c = sep
    · simp [cutFirst?, hc]
    · simp [cutFirst?, hc, ih, Ne.symm hc]

theorem cutLast?_eq_none_iff {sep : Char} {cs : List Char} :
    cutLast? sep cs = none ↔ sep ∉ cs := by
  induction cs with
  | nil => simp [cutLast?]
  | cons c rest ih =>
    rw [cutLast?]
    split
    · next p h =>
      have : sep ∈ rest := by
        by_cases hm : sep ∈ rest
        · exact hm
        · rw [ih.2 hm] at h; simp at h
      simp [this]
    · next h =>
      by_cases hc : c = sep
      · simp [hc]
      · simp [hc, ih.1 h, Ne.symm hc]

theorem cutLast?_eq_some_iff {sep : Char} {cs a b : List Char} :
    cutLast? sep cs = some (a, b) ↔ cs = a ++ sep :: b ∧ sep ∉ b := by
  induction cs generalizing a b with
  | nil => simp [cutLast?]
  | cons c rest ih =>
    rw [cutLast?]
    split
    · next p hp =>
      obtain ⟨hrest, hb⟩ := ih.1 (show cutLast? sep rest = some (p.1, p.2) from hp)
      simp only [Option.some.injEq, Prod.mk.injEq]
      constructor
      · rintro ⟨rfl, rfl⟩
        exact ⟨by rw [hrest]; rfl, hb⟩
      · cases a with
        | nil =>
          rintro ⟨h, hn⟩
          simp at h
          rw [← h.2, hrest] at hn
          simp at hn
        | cons x xs =>
          rintro ⟨h, hn⟩
          simp at h
          have := ih.2 ⟨h.2, hn⟩
          rw [hp] at this
          simp at this
          simp [this, h.1]
    · next hnone =>
      have hn := cutLast?_eq_none_iff.1 hnone
      by_cases hc : c = sep
      · subst hc
        simp only [if_true, Option.some.injEq, Prod.mk.injEq]
        constructor
        · rintro ⟨rfl, rfl⟩; exact ⟨rfl, hn⟩
        · cases a with
          | nil => rintro ⟨h, -⟩; simpa using h
          | cons x xs => rintro ⟨h, -⟩; simp at h; rw [h.2] at hn; simp at hn
      · simp only [hc, if_false, reduceCtorEq, false_iff, not_and]
        intro h
        cases a with
        | nil => simp at h; exact absurd h.1 hc
        | cons x xs => simp at h; rw [h.2] at hn; simp at hn

/-! ### All pieces -/

@[simp] theorem pieces_ne_nil (sep : Char) (cs : List Char) : pieces sep cs ≠ [] := by
  cases cs with
  | nil => simp [pieces]
  | cons c rest => rw [pieces]; split <;> (try split) <;> simp

theorem join_cons {sep : Char} (p : List Char) {ps : List (List Char)} (h : ps ≠ []) :
    join sep (p :: ps) = p ++ sep :: join sep ps := by
  cases ps with
  | nil => exact absurd rfl h
  | cons q rest => rfl

theorem join_pieces (sep : Char) (cs : List Char) : join sep (pieces sep cs) = cs := by
  induction cs with
  | nil => rfl
  | cons c rest ih =>
    rw [pieces]
    split
    · next h => rw [join_cons _ (pieces_ne_nil _ _), ih, h]; rfl
    · split
      · next h => exact absurd h (pieces_ne_nil _ _)
      · next p ps h =>
        rw [h] at ih
        cases ps with
        | nil => simp only [join] at ih ⊢; rw [ih]
        | cons q qs => simp only [join] at ih ⊢; rw [List.cons_append, ih]

theorem not_mem_of_mem_pieces {sep : Char} {cs p : List Char} (h : p ∈ pieces sep cs) :
    sep ∉ p := by
  induction cs generalizing p with
  | nil => simp [pieces] at h; simp [h]
  | cons c rest ih =>
    rw [pieces] at h
    split at h
    · rcases List.mem_cons.1 h with rfl | h
      · simp
      · exact ih h
    · next hc =>
      split at h
      · next h' => exact absurd h' (pieces_ne_nil _ _)
      · next q qs hq =>
        rcases List.mem_cons.1 h with rfl | h
        · have := ih (p := q) (by simp [hq])
          simp [this, Ne.symm hc]
        · exact ih (by simp [hq, h])

/-! ### Occurrence -/

theorem occursIn_iff {part cs : List Char} : occursIn part cs = true ↔ part <:+: cs := by
  induction cs with
  | nil => simp [occursIn]
  | cons c rest ih =>
    rw [occursIn, Bool.or_eq_true, List.isPrefixOf_iff_prefix, ih, List.infix_cons_iff]

end Reconciler.Text
