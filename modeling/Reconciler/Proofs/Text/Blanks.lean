/-
Blanks around a text, around its pieces and between its words.

* `AllBlank`: nothing but blanks;
* `IgnoresEnds`: a form of texts that does not depend on blanks at their ends;
* `IsWord`, `WellSpaced`: words, and texts of words with single spaces between them.

Main statements:
* `ignoresEnds_trim`, `keepsCount_trim`: what trimming ignores and what it keeps;
* `IgnoresEnds.changePieces_around`: where pieces are changed into forms that ignore the blanks at
  their ends, the text loses those next to its separators;
* `words_append_blanks`: words do not depend on how many blanks stand between them;
* `words_join`, `wellSpaced_join`: what joining words by single spaces gives.
-/
import Mathlib.Data.List.DropRight
import Reconciler.Proofs.Text.Pieces
import Reconciler.Text.Blank

namespace Reconciler.Text

variable {sep c d : Char} {cs u v w a b : List Char} {ws : List (List Char)}
variable {f g : List Char → List Char}

/-- Nothing but blanks. -/
def AllBlank (cs : List Char) : Prop := ∀ c ∈ cs, isBlank c = true

instance (cs : List Char) : Decidable (AllBlank cs) :=
  decidable_of_iff (cs.all isBlank = true) List.all_eq_true

theorem allBlank_nil : AllBlank [] := by simp [AllBlank]

theorem AllBlank.not_mem (h : AllBlank u) (hc : isBlank c = false) : c ∉ u := by
  intro hm
  rw [h c hm] at hc
  cases hc

/-! ### Blanks at the ends -/

/-- The form of a text does not depend on blanks at its ends. -/
def IgnoresEnds {α : Type} (f : List Char → α) : Prop :=
  ∀ u cs v, AllBlank u → AllBlank v → f (u ++ cs ++ v) = f cs

section

variable {α β : Type} {f : List Char → α}

theorem IgnoresEnds.start (h : IgnoresEnds f) (hu : AllBlank u) (cs : List Char) :
    f (u ++ cs) = f cs := by
  simpa using h u cs [] hu allBlank_nil

theorem IgnoresEnds.finish (h : IgnoresEnds f) (hv : AllBlank v) (cs : List Char) :
    f (cs ++ v) = f cs := by
  simpa using h [] cs v allBlank_nil hv

theorem IgnoresEnds.comp (h : IgnoresEnds f) (g : α → β) : IgnoresEnds (g ∘ f) :=
  fun u cs v hu hv => congrArg g (h u cs v hu hv)

end

theorem trimEnd_append (hv : AllBlank v) (cs : List Char) : trimEnd (cs ++ v) = trimEnd cs := by
  have hrev : ∀ c ∈ v.reverse, isBlank c = true := by
    intro c hc
    exact hv c (List.mem_reverse.1 hc)
  rw [trimEnd, List.reverse_append, List.dropWhile_append_of_pos hrev, trimEnd]

theorem ignoresEnds_trim : IgnoresEnds trim := by
  intro u cs v hu hv
  have hstart : trimStart (u ++ cs ++ v) = trimStart (cs ++ v) := by
    rw [List.append_assoc]
    exact List.dropWhile_append_of_pos hu
  rw [trim, hstart, trimStart, List.dropWhile_append]
  split
  · next hnil =>
    -- Only blanks are left, at both ends.
    have hv' : v.dropWhile isBlank = [] := List.dropWhile_eq_nil_iff.2 hv
    rw [hv', trim, trimStart, List.isEmpty_iff.1 hnil]
  · exact trimEnd_append hv _

/-- A text is what trimming leaves of it, between blanks. -/
theorem exists_trim (cs : List Char) :
    ∃ u v, AllBlank u ∧ AllBlank v ∧ cs = u ++ trim cs ++ v := by
  refine ⟨cs.takeWhile isBlank, (trimStart cs).rtakeWhile isBlank,
    fun c => List.mem_takeWhile_imp, fun c => List.mem_rtakeWhile_imp, ?_⟩
  have hend : trim cs ++ (trimStart cs).rtakeWhile isBlank = trimStart cs :=
    List.rdropWhile_append_rtakeWhile
  rw [List.append_assoc, hend, trimStart, List.takeWhile_append_dropWhile]

theorem keepsCount_trim (hc : isBlank c = false) : KeepsCount c trim := by
  intro cs
  obtain ⟨u, v, hu, hv, he⟩ := exists_trim cs
  have hu0 : u.count c = 0 := List.count_eq_zero.2 (hu.not_mem hc)
  have hv0 : v.count c = 0 := List.count_eq_zero.2 (hv.not_mem hc)
  have hcount := congrArg (List.count c) he
  rw [List.count_append, List.count_append] at hcount
  omega

/-! ### Blanks around pieces -/

/-- Forms of pieces that ignore the blanks at their ends make a form of texts that does so. -/
theorem IgnoresEnds.changePieces (h : IgnoresEnds f) (hsep : isBlank sep = false) :
    IgnoresEnds (changePieces sep f) := by
  intro u cs v hu hv
  have hstart : Text.changePieces sep f ([] ++ u ++ (cs ++ v)) =
      Text.changePieces sep f ([] ++ [] ++ (cs ++ v)) := by
    refine changePieces_congr (hu.not_mem hsep) List.not_mem_nil fun a' b' ha _ => ?_
    obtain rfl := List.suffix_nil.1 ha
    exact h.start hu b'
  have hfinish : Text.changePieces sep f (cs ++ v ++ []) =
      Text.changePieces sep f (cs ++ [] ++ []) := by
    refine changePieces_congr (hv.not_mem hsep) List.not_mem_nil fun a' b' _ hb => ?_
    obtain rfl := List.prefix_nil.1 hb
    simpa using h.finish hv a'
  simp only [List.nil_append, List.append_nil] at hstart hfinish
  rw [List.append_assoc, hstart, hfinish]

/-- And next to its separators. -/
theorem IgnoresEnds.changePieces_around (h : IgnoresEnds f) (hsep : isBlank sep = false)
    (hu : AllBlank u) (hv : AllBlank v) (a b : List Char) :
    Text.changePieces sep f (a ++ u ++ sep :: (v ++ b)) =
      Text.changePieces sep f (a ++ sep :: b) := by
  have hf := h.changePieces hsep
  rw [changePieces_append_cons, changePieces_append_cons, hf.finish hu, hf.start hv]

/-! ### Words -/

/-- Something without blanks. -/
def IsWord (w : List Char) : Prop := w ≠ [] ∧ ∀ c ∈ w, isBlank c = false

theorem wordsFrom_append_cons (hc : isBlank c = true) (word a b : List Char) :
    wordsFrom word (a ++ c :: b) = wordsFrom word a ++ words b := by
  induction a generalizing word with
  | nil =>
    simp only [List.nil_append, wordsFrom, hc, if_true]
    split <;> rfl
  | cons d rest ih =>
    simp only [List.cons_append, wordsFrom]
    split
    · split <;> simp [ih]
    · exact ih _

theorem words_append_cons (hc : isBlank c = true) (a b : List Char) :
    words (a ++ c :: b) = words a ++ words b :=
  wordsFrom_append_cons hc [] a b

theorem words_append_of_allBlank (hu : AllBlank u) (b : List Char) : words (u ++ b) = words b := by
  induction u with
  | nil => rfl
  | cons c rest ih =>
    have hrest : AllBlank rest := fun d hd => hu d (List.mem_cons_of_mem _ hd)
    show words ([] ++ c :: (rest ++ b)) = words b
    rw [words_append_cons (hu c List.mem_cons_self), ih hrest]
    rfl

theorem words_of_allBlank (hu : AllBlank u) : words u = [] := by
  have h := words_append_of_allBlank hu []
  rwa [List.append_nil] at h

theorem ignoresEnds_words : IgnoresEnds words := by
  intro u cs v hu hv
  rw [List.append_assoc, words_append_of_allBlank hu]
  cases v with
  | nil => rw [List.append_nil]
  | cons c rest =>
    have hrest : AllBlank rest := fun d hd => hv d (List.mem_cons_of_mem _ hd)
    rw [words_append_cons (hv c List.mem_cons_self), words_of_allBlank hrest, List.append_nil]

/-- Words do not depend on how many blanks stand between them. -/
theorem words_append_blanks (hne : u ≠ []) (hu : AllBlank u) (a b : List Char) :
    words (a ++ u ++ b) = words a ++ words b := by
  obtain ⟨c, rest, rfl⟩ := List.exists_cons_of_ne_nil hne
  have hrest : AllBlank rest := fun d hd => hu d (List.mem_cons_of_mem _ hd)
  rw [List.append_assoc, List.cons_append, words_append_cons (hu c List.mem_cons_self),
    words_append_of_allBlank hrest]

theorem wordsFrom_of_no_blank (h : ∀ c ∈ w, isBlank c = false) (word : List Char)
    (hne : word ≠ [] ∨ w ≠ []) : wordsFrom word w = [word.reverse ++ w] := by
  induction w generalizing word with
  | nil =>
    have hword : word ≠ [] := by simpa using hne
    simp [wordsFrom, hword]
  | cons c rest ih =>
    have hc : isBlank c = false := h c List.mem_cons_self
    simp only [wordsFrom, hc, Bool.false_eq_true, if_false]
    rw [ih (fun d hd => h d (List.mem_cons_of_mem _ hd)) (c :: word) (.inl (by simp))]
    simp

theorem words_of_isWord (h : IsWord w) : words w = [w] :=
  wordsFrom_of_no_blank h.2 [] (.inr h.1)

theorem isWord_of_mem_wordsFrom {word : List Char} (hword : ∀ c ∈ word, isBlank c = false)
    (h : w ∈ wordsFrom word cs) : IsWord w := by
  have hisWord : word ≠ [] → IsWord word.reverse := by
    intro hne
    exact ⟨by simpa using hne, fun c hc => hword c (List.mem_reverse.1 hc)⟩
  induction cs generalizing word with
  | nil =>
    by_cases hne : word = []
    · simp [wordsFrom, hne] at h
    · simp only [wordsFrom, List.isEmpty_iff, hne, if_false, List.mem_singleton] at h
      rw [h]
      exact hisWord hne
  | cons c rest ih =>
    simp only [wordsFrom] at h
    split at h
    · by_cases hne : word = []
      · simp only [hne, List.isEmpty_nil, if_true] at h
        exact ih (by simp) h (by simp)
      · simp only [List.isEmpty_iff, hne, if_false, List.mem_cons] at h
        rcases h with rfl | h
        · exact hisWord hne
        · exact ih (by simp) h (by simp)
    · next hc =>
      have hcons : ∀ d ∈ c :: word, isBlank d = false := by
        intro d hd
        rcases List.mem_cons.1 hd with rfl | hd
        · simpa using hc
        · exact hword d hd
      exact ih hcons h fun _ => ⟨by simp, fun d hd => hcons d (List.mem_reverse.1 hd)⟩

theorem isWord_of_mem_words (h : w ∈ words cs) : IsWord w :=
  isWord_of_mem_wordsFrom (by simp) h

/-- Words with spaces between them are the words of the text. -/
theorem words_join (h : ∀ w ∈ ws, IsWord w) : words (join ' ' ws) = ws := by
  induction ws with
  | nil => rfl
  | cons w rest ih =>
    have hw : words w = [w] := words_of_isWord (h w List.mem_cons_self)
    by_cases hrest : rest = []
    · rw [hrest]
      exact hw
    · rw [join_cons w hrest, words_append_cons (by decide), hw,
        ih fun x hx => h x (List.mem_cons_of_mem _ hx)]
      rfl

/-- Every blank is a space, and what stands on either side of it is no blank. -/
def WellSpaced (cs : List Char) : Prop :=
  ∀ a c b, cs = a ++ c :: b → isBlank c = true →
    c = ' ' ∧ (∃ x, a.getLast? = some x ∧ isBlank x = false) ∧
      ∃ y, b.head? = some y ∧ isBlank y = false

theorem IsWord.exists_head (h : IsWord w) (cs : List Char) :
    ∃ y, (w ++ cs).head? = some y ∧ isBlank y = false := by
  obtain ⟨y, rest, rfl⟩ := List.exists_cons_of_ne_nil h.1
  exact ⟨y, rfl, h.2 y List.mem_cons_self⟩

theorem IsWord.exists_last (h : IsWord w) : ∃ x, w.getLast? = some x ∧ isBlank x = false := by
  refine ⟨w.getLast h.1, List.getLast?_eq_some_getLast h.1, h.2 _ (List.getLast_mem h.1)⟩

theorem wellSpaced_of_isWord (h : IsWord w) : WellSpaced w := by
  intro a c b he hc
  have hmem : c ∈ w := by simp [he]
  rw [h.2 c hmem] at hc
  cases hc

theorem WellSpaced.cons_word (hw : IsWord w) (hcs : WellSpaced cs)
    (hhead : ∃ y, cs.head? = some y ∧ isBlank y = false) : WellSpaced (w ++ ' ' :: cs) := by
  intro a c b he hc
  rcases List.append_eq_append_iff.1 he with ⟨rest, rfl, hrest⟩ | ⟨rest, rfl, hrest⟩
  · -- The blank is the space behind the word, or stands behind that.
    cases rest with
    | nil =>
      obtain ⟨rfl, rfl⟩ := List.cons.inj hrest
      exact ⟨rfl, by simpa using hw.exists_last, hhead⟩
    | cons d rest =>
      obtain ⟨rfl, htail⟩ := List.cons.inj hrest
      obtain ⟨hspace, ⟨x, hx, hxb⟩, hnext⟩ := hcs rest c b htail hc
      refine ⟨hspace, ⟨x, ?_, hxb⟩, hnext⟩
      simp [List.getLast?_append, List.getLast?_cons, hx]
  · -- The word itself has none.
    cases rest with
    | nil =>
      obtain ⟨rfl, rfl⟩ := List.cons.inj hrest
      exact ⟨rfl, by simpa using hw.exists_last, hhead⟩
    | cons d rest =>
      obtain ⟨rfl, -⟩ := List.cons.inj hrest
      have hmem : c ∈ a ++ c :: rest := by simp
      rw [hw.2 c hmem] at hc
      cases hc

theorem wellSpaced_join (h : ∀ w ∈ ws, IsWord w) : WellSpaced (join ' ' ws) := by
  induction ws with
  | nil =>
    intro a c b he
    simp [join] at he
  | cons w rest ih =>
    have hw : IsWord w := h w List.mem_cons_self
    have hrest : ∀ x ∈ rest, IsWord x := fun x hx => h x (List.mem_cons_of_mem _ hx)
    cases rest with
    | nil => exact wellSpaced_of_isWord hw
    | cons x rest =>
      refine WellSpaced.cons_word hw (ih hrest) ?_
      have hx : IsWord x := hrest x List.mem_cons_self
      cases rest with
      | nil => simpa [join] using hx.exists_head []
      | cons y rest => exact hx.exists_head _

theorem WellSpaced.trim_eq (h : WellSpaced cs) : trim cs = cs := by
  refine trim_eq_self_iff.2 ⟨?_, ?_⟩
  · intro c hc
    obtain ⟨rest, rfl⟩ : ∃ rest, cs = c :: rest := by
      cases cs with
      | nil => simp at hc
      | cons d rest => exact ⟨rest, by simp at hc; rw [hc]⟩
    by_contra hb
    obtain ⟨-, ⟨x, hx, -⟩, -⟩ := h [] c rest rfl (by simpa using hb)
    simp at hx
  · intro c hc
    obtain ⟨rest, rfl⟩ := List.getLast?_eq_some_iff.1 hc
    by_contra hb
    obtain ⟨-, -, y, hy, -⟩ := h rest c [] rfl (by simpa using hb)
    simp at hy

end Reconciler.Text
