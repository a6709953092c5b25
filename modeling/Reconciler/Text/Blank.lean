/-
Blanks: the characters with the Unicode property `White_Space`, and the parts of a text between
them.

Main statements:
* `isBlank_of_isWhitespace`: the class holds every blank of ASCII that core knows;
* `trim_eq_self_iff`: a text is its own trimmed form when no blank stands at its ends;
* `trim_trim`: trimming twice is trimming once.
-/

namespace Reconciler.Text

/-- The property `White_Space`. -/
def isBlank (c : Char) : Bool :=
  let n := c.toNat
  (9 ≤ n && n ≤ 13) || n == 0x20 || n == 0x85 || n == 0xA0 || n == 0x1680 ||
    (0x2000 ≤ n && n ≤ 0x200A) || n == 0x2028 || n == 0x2029 || n == 0x202F || n == 0x205F ||
    n == 0x3000

theorem isBlank_of_isWhitespace (c : Char) (h : c.isWhitespace = true) : isBlank c = true := by
  simp only [Char.isWhitespace, Bool.or_eq_true, decide_eq_true_eq] at h
  rcases h with ((h | h) | h) | h <;> subst h <;> decide

/-- The text without the blanks at its start. -/
def trimStart (cs : List Char) : List Char := cs.dropWhile isBlank

/-- The text without the blanks at its end. -/
def trimEnd (cs : List Char) : List Char := (cs.reverse.dropWhile isBlank).reverse

/-- The text without the blanks at its ends. -/
def trim (cs : List Char) : List Char := trimEnd (trimStart cs)

/-- The text without the occurrences of `c` at its start. -/
def stripStart (c : Char) (cs : List Char) : List Char := cs.dropWhile (· == c)

/-- The text without the occurrences of `c` at its end. -/
def stripEnd (c : Char) (cs : List Char) : List Char := (cs.reverse.dropWhile (· == c)).reverse

/-- Collects the words of a text; `word` holds the current one from its end. -/
def wordsFrom (word : List Char) : List Char → List (List Char)
  | [] => if word.isEmpty then [] else [word.reverse]
  | c :: rest =>
    if isBlank c then
      if word.isEmpty then wordsFrom [] rest else word.reverse :: wordsFrom [] rest
    else wordsFrom (c :: word) rest

/-- The maximal runs of characters that are not blank, in order. -/
def words (cs : List Char) : List (List Char) := wordsFrom [] cs

/-! ### Trimming -/

theorem dropWhile_eq_self_iff {α : Type} {p : α → Bool} {xs : List α} :
    xs.dropWhile p = xs ↔ ∀ x, xs.head? = some x → p x = false := by
  cases xs with
  | nil => simp
  | cons x rest =>
    by_cases h : p x = true
    · simp only [List.dropWhile_cons, h, if_true, List.head?_cons, Option.some.injEq, forall_eq']
      constructor
      · intro he
        have hl := congrArg List.length he
        have := (List.dropWhile_sublist p (l := rest)).length_le
        simp at hl
        omega
      · simp
    · simp [h]

theorem head?_dropWhile {α : Type} {p : α → Bool} {xs : List α} {x : α}
    (h : (xs.dropWhile p).head? = some x) : p x = false := by
  have := List.head?_dropWhile_not p xs
  rw [h] at this
  simpa using this

theorem trimEnd_trimEnd (cs : List Char) : trimEnd (trimEnd cs) = trimEnd cs := by
  simp only [trimEnd, List.reverse_reverse]
  rw [dropWhile_eq_self_iff.2 fun _ h => head?_dropWhile h]

/-- What is cut off at the end leaves a text that starts alike, or nothing. -/
theorem head?_trimEnd {cs : List Char} {c : Char} (h : (trimEnd cs).head? = some c) :
    cs.head? = some c := by
  obtain ⟨t, ht⟩ := List.dropWhile_suffix (p := isBlank) (l := cs.reverse)
  have hcs : cs = trimEnd cs ++ t.reverse := by
    have := congrArg List.reverse ht
    simpa [trimEnd] using this.symm
  rw [hcs, List.head?_append, h]
  rfl

theorem trimStart_trim (cs : List Char) : trimStart (trim cs) = trim cs :=
  dropWhile_eq_self_iff.2 fun _ h => head?_dropWhile (head?_trimEnd h)

theorem trim_trim (cs : List Char) : trim (trim cs) = trim cs := by
  rw [trim, trimStart_trim, trim, trimEnd_trimEnd]

theorem trim_eq_self_iff {cs : List Char} :
    trim cs = cs ↔
      (∀ c, cs.head? = some c → isBlank c = false) ∧
      (∀ c, cs.getLast? = some c → isBlank c = false) := by
  constructor
  · intro h
    have hs : trimStart cs = cs := by rw [← h, trimStart_trim]
    have he : trimEnd cs = cs := by
      have := trimEnd_trimEnd (trimStart cs)
      rw [← trim, h] at this
      exact this
    refine ⟨dropWhile_eq_self_iff.1 hs, ?_⟩
    have hr : cs.reverse.dropWhile isBlank = cs.reverse := by
      have := congrArg List.reverse he
      simpa [trimEnd] using this
    simpa using dropWhile_eq_self_iff.1 hr
  · rintro ⟨hs, he⟩
    have h1 : trimStart cs = cs := dropWhile_eq_self_iff.2 hs
    have h2 : cs.reverse.dropWhile isBlank = cs.reverse :=
      dropWhile_eq_self_iff.2 (by simpa using he)
    rw [trim, h1, trimEnd, h2, List.reverse_reverse]

end Reconciler.Text
