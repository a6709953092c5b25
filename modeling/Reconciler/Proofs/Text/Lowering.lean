/-
Lower case: what it changes, what it leaves alone, and that once is enough.

* `IsBoundary`: a character that lower-casing leaves alone and that hides what is behind it;
* `formIn`: what a character becomes between two texts.

Main statements:
* `lower_lower`: a text in lower case is its own lower-case form;
* `keepsCount_lower`: lower-casing neither makes nor removes a boundary;
* `lower_append_cons`, `lower_join`: the texts around a boundary are lowered as if they stood alone;
* `trim_lower_eq_self_iff`: nor does it bring blanks to the ends of a text.

Design notes:
* All that is used of the table is that no range has lower-case forms for members and that these
  forms are characters with case.  Both are computed range by range, with comparisons that the
  kernel does itself.
* The final form of sigma makes the form of a character depend on what stands around it.  A boundary
  ends a word, since it is no letter and is not passed over either.
-/
import Reconciler.Proofs.Text.Blanks
import Reconciler.Text.Lowercase

namespace Reconciler.Text

variable {c d : Char} {cs before rest a b : List Char} {ps : List (List Char)}

/-! ### The table -/

namespace CaseRange

/-- The lower-case form of the first member. -/
def lowest (r : CaseRange) : Nat := ((r.first : Int) + r.shift).toNat

/-- The lower-case form of the last member. -/
def highest (r : CaseRange) : Nat := ((r.last : Int) + r.shift).toNat

/-- Whether one sees that no lower-case form of a member of `r` is a member of `q`: they lie apart,
or the forms are odd where the members of `q` are even or the other way round. -/
def misses (r q : CaseRange) : Bool :=
  q.last.blt r.lowest || r.highest.blt q.first ||
    (r.first == r.last || r.stride == 2) && q.stride == 2 && (r.lowest + q.first) % 2 == 1

/-- Whether one sees this for ascending ranges; those behind the forms need not be looked at. -/
def missesAll (r : CaseRange) : List CaseRange → Bool
  | [] => true
  | q :: rest => r.highest.blt q.first || (r.misses q && r.missesAll rest)

theorem table_ascends : table.Pairwise fun q q' => q.first ≤ q'.first := by
  have hchain : (table.map first).IsChain (· ≤ ·) := by decide +kernel
  exact List.pairwise_map.1 (List.isChain_iff_pairwise.1 hchain)

theorem missesAll_of_mem_table : ∀ r ∈ table, r.missesAll table = true := by
  decide +kernel

theorem misses_of_missesAll {r : CaseRange} {qs : List CaseRange}
    (hasc : qs.Pairwise fun q q' => q.first ≤ q'.first) (h : r.missesAll qs = true) :
    ∀ q ∈ qs, r.misses q = true := by
  induction qs with
  | nil => simp
  | cons q rest ih =>
    obtain ⟨hfirst, hrest⟩ := List.pairwise_cons.1 hasc
    rw [missesAll, Bool.or_eq_true, Bool.and_eq_true] at h
    intro q' hq'
    rcases h with hbehind | ⟨hq, hall⟩
    · -- All of them start behind the forms.
      have hle : q.first ≤ q'.first := by
        rcases List.mem_cons.1 hq' with rfl | hq'
        · exact Nat.le_refl _
        · exact hfirst q' hq'
      have : r.highest.blt q'.first = true := by
        rw [Nat.blt_eq] at hbehind ⊢
        omega
      simp [misses, this]
    · rcases List.mem_cons.1 hq' with rfl | hq'
      · exact hq
      · exact ih hrest hall q' hq'

/-- Lower-case forms are characters other than U+0130 ... -/
theorem valid_of_mem_table : ∀ r ∈ table, 0 < r.lowest ∧ (r.highest < 0x130 ∨
    0x130 < r.lowest ∧ (r.highest < 0xD800 ∨ 0xDFFF < r.lowest ∧ r.highest < 0x110000)) := by
  decide +kernel

/-- ... and they have case. -/
theorem cased_of_mem_table : ∀ r ∈ table,
    (casedTable.any fun s => s.1.ble r.lowest && r.highest.ble s.2) = true := by
  decide +kernel

theorem covers_iff {r : CaseRange} {code : Nat} :
    r.covers code = true ↔ r.first ≤ code ∧ code ≤ r.last ∧ (code - r.first) % r.stride = 0 := by
  simp [covers, and_assoc]

/-- The lower-case form of a member lies as far behind the lowest one as the member behind the
first. -/
theorem lower_of_covers {r : CaseRange} {code : Nat} (h : r.covers code = true)
    (hlowest : 0 < r.lowest) :
    ((code : Int) + r.shift).toNat = r.lowest + (code - r.first) ∧
      ((code : Int) + r.shift).toNat ≤ r.highest := by
  obtain ⟨hfirst, hlast, -⟩ := covers_iff.1 h
  unfold lowest at hlowest ⊢
  unfold highest
  omega

theorem not_covers_of_misses {r q : CaseRange} {code : Nat} (h : r.covers code = true)
    (hlowest : 0 < r.lowest) (hmisses : r.misses q = true) :
    q.covers ((code : Int) + r.shift).toNat = false := by
  obtain ⟨he, hle⟩ := lower_of_covers h hlowest
  obtain ⟨hfirst, hlast, hstride⟩ := covers_iff.1 h
  rw [Bool.eq_false_iff, Ne, covers_iff, he]
  rintro ⟨hqfirst, hqlast, hqstride⟩
  simp only [misses, Bool.or_eq_true, Bool.and_eq_true, Nat.blt_eq, beq_iff_eq] at hmisses
  rcases hmisses with (hbelow | habove) | ⟨⟨heven, hq⟩, hodd⟩
  · omega
  · omega
  · rw [hq] at hqstride
    rcases heven with heven | heven
    · omega
    · rw [heven] at hstride
      omega

end CaseRange

/-- A code point is its own lower-case form, or has another one, which is settled: a character with
case that is its own lower-case form. -/
theorem lowerCode_cases (code : Nat) :
    lowerCode code = code ∨
      (lowerCode code).isValidChar ∧ lowerCode code ≠ 0x130 ∧
      inRanges casedTable (lowerCode code) = true ∧
      lowerCode (lowerCode code) = lowerCode code := by
  cases h : CaseRange.table.find? fun r => r.covers code with
  | none =>
    left
    simp only [lowerCode, h]
  | some r =>
    right
    have hr : r ∈ CaseRange.table := List.mem_of_find?_eq_some h
    have hcovers : r.covers code = true :=
      List.find?_some (p := fun r : CaseRange => r.covers code) h
    obtain ⟨hlowest, hvalid⟩ := CaseRange.valid_of_mem_table r hr
    obtain ⟨s, hs, hcased⟩ := List.any_eq_true.1 (CaseRange.cased_of_mem_table r hr)
    rw [Bool.and_eq_true, Nat.ble_eq, Nat.ble_eq] at hcased
    obtain ⟨he, hle⟩ := CaseRange.lower_of_covers hcovers hlowest
    have hlower : lowerCode code = ((code : Int) + r.shift).toNat := by
      simp only [lowerCode, h]
    refine ⟨?_, ?_, ?_, ?_⟩
    · rw [hlower]
      unfold Nat.isValidChar
      omega
    · omega
    · refine List.any_eq_true.2 ⟨s, hs, ?_⟩
      simp only [Bool.and_eq_true, decide_eq_true_eq]
      omega
    · have hnone : CaseRange.table.find? (fun q => q.covers (lowerCode code)) = none := by
        refine List.find?_eq_none.2 fun q hq => ?_
        have hmisses : r.misses q = true :=
          CaseRange.misses_of_missesAll CaseRange.table_ascends
            (CaseRange.missesAll_of_mem_table r hr) q hq
        rw [hlower, CaseRange.not_covers_of_misses hcovers hlowest hmisses]
        exact Bool.false_ne_true
      rw [lowerCode.eq_def (lowerCode code), hnone]

/-! ### Single characters -/

/-- Lower-casing leaves the character alone, and what stands behind it does not matter to the form
of what stands before it, nor the other way round. -/
def IsBoundary (c : Char) : Prop :=
  lowerChar c = [c] ∧ isCased c = false ∧ isCaseIgnorable c = false

instance (c : Char) : Decidable (IsBoundary c) := inferInstanceAs (Decidable (_ ∧ _ ∧ _))

/-- The code points of all blanks. -/
def blankCodes : List Nat :=
  [9, 10, 11, 12, 13, 0x20, 0x85, 0xA0, 0x1680, 0x2000, 0x2001, 0x2002, 0x2003, 0x2004, 0x2005,
    0x2006, 0x2007, 0x2008, 0x2009, 0x200A, 0x2028, 0x2029, 0x202F, 0x205F, 0x3000]

theorem isBoundary_of_mem_blankCodes : ∀ code ∈ blankCodes, IsBoundary (Char.ofNat code) := by
  decide +kernel

theorem isBoundary_of_isBlank (h : isBlank c = true) : IsBoundary c := by
  have hmem : c.toNat ∈ blankCodes := by
    simp only [isBlank, Bool.or_eq_true, Bool.and_eq_true, decide_eq_true_eq, beq_iff_eq] at h
    rcases h with (((((((((h | h) | h) | h) | h) | h) | h) | h) | h) | h) | h
    all_goals
      simp only [blankCodes, List.mem_cons, List.not_mem_nil, or_false]
      omega
  rw [← Char.ofNat_toNat c]
  exact isBoundary_of_mem_blankCodes _ hmem

/-- What a character becomes between two texts, the first one given from its end. -/
def formIn (before : List Char) (c : Char) (rest : List Char) : List Char :=
  if c = 'Σ' then [if beginsCased before && !beginsCased rest then 'ς' else 'σ'] else lowerChar c

theorem lowerFrom_eq (before : List Char) (c : Char) (rest : List Char) :
    lowerFrom before (c :: rest) = formIn before c rest ++ lowerFrom (c :: before) rest := rfl

/-- A character becomes itself, or characters that are settled and no boundaries. -/
theorem mem_formIn_cases (h : d ∈ formIn before c rest) :
    d = c ∧ lowerChar c = [c] ∨ lowerChar d = [d] ∧ ¬ IsBoundary d := by
  unfold formIn at h
  split at h
  · right
    have hsigma : d = 'ς' ∨ d = 'σ' := by
      rw [List.mem_singleton] at h
      rw [h]
      split <;> simp
    rcases hsigma with rfl | rfl <;> decide +kernel
  · unfold lowerChar at h
    split at h
    · right
      simp only [List.mem_cons, List.not_mem_nil, or_false] at h
      rcases h with rfl | rfl <;> decide +kernel
    · next hdotted =>
      obtain rfl := List.mem_singleton.1 h
      rcases lowerCode_cases c.toNat with he | ⟨hvalid, hne, hcased, hagain⟩
      · left
        rw [he, Char.ofNat_toNat, lowerChar, if_neg hdotted, he, Char.ofNat_toNat]
        exact ⟨rfl, rfl⟩
      · right
        have hcode : (Char.ofNat (lowerCode c.toNat)).toNat = lowerCode c.toNat := by
          rw [Char.ofNat, dif_pos hvalid]
          rfl
        refine ⟨?_, fun hb => ?_⟩
        · have hdotted' : Char.ofNat (lowerCode c.toNat) ≠ '\u0130' := by
            intro he
            exact hne (by rw [← hcode, he]; rfl)
          rw [lowerChar, if_neg hdotted', hcode, hagain]
        · have := hb.2.1
          rw [isCased, hcode, hcased] at this
          cases this

theorem formIn_ne_nil (before : List Char) (c : Char) (rest : List Char) :
    formIn before c rest ≠ [] := by
  unfold formIn lowerChar
  split
  · simp
  · split <;> simp

/-- Only capital sigma is formed by what stands around it, and it has another form. -/
theorem formIn_of_settled (h : lowerChar c = [c]) : formIn before c rest = [c] := by
  have hsigma : c ≠ 'Σ' := by
    rintro rfl
    revert h
    decide +kernel
  rw [formIn, if_neg hsigma, h]

theorem settled_of_mem_formIn (h : d ∈ formIn before c rest) : lowerChar d = [d] := by
  rcases mem_formIn_cases h with ⟨rfl, hd⟩ | ⟨hd, -⟩
  · exact hd
  · exact hd

theorem eq_of_mem_formIn (hd : IsBoundary d) (h : d ∈ formIn before c rest) : d = c := by
  rcases mem_formIn_cases h with ⟨rfl, -⟩ | ⟨-, hnot⟩
  · rfl
  · exact absurd hd hnot

/-! ### Texts -/

theorem settled_of_mem_lowerFrom (h : d ∈ lowerFrom before cs) : lowerChar d = [d] := by
  induction cs generalizing before with
  | nil => simp [lowerFrom] at h
  | cons c rest ih =>
    rw [lowerFrom_eq, List.mem_append] at h
    rcases h with h | h
    · exact settled_of_mem_formIn h
    · exact ih h

theorem lowerFrom_of_settled (h : ∀ c ∈ cs, lowerChar c = [c]) : lowerFrom before cs = cs := by
  induction cs generalizing before with
  | nil => rfl
  | cons c rest ih =>
    rw [lowerFrom_eq, formIn_of_settled (h c List.mem_cons_self),
      ih fun d hd => h d (List.mem_cons_of_mem _ hd)]
    rfl

/-- A text of settled characters is its own lower-case form. -/
theorem lower_of_settled (h : ∀ c ∈ cs, lowerChar c = [c]) : lower cs = cs :=
  lowerFrom_of_settled h

theorem settled_of_mem_lower (h : d ∈ lower cs) : lowerChar d = [d] :=
  settled_of_mem_lowerFrom h

/-- A text in lower case is its own lower-case form. -/
theorem lower_lower (cs : List Char) : lower (lower cs) = lower cs :=
  lower_of_settled fun _ h => settled_of_mem_lower h

theorem count_lowerFrom (hd : IsBoundary d) (before cs : List Char) :
    (lowerFrom before cs).count d = cs.count d := by
  induction cs generalizing before with
  | nil => rfl
  | cons c rest ih =>
    have hform : (formIn before c rest).count d = [c].count d := by
      by_cases hc : c = d
      · rw [hc, formIn_of_settled hd.1]
      · have hnot : d ∉ formIn before c rest := fun hm => hc (eq_of_mem_formIn hd hm).symm
        rw [List.count_eq_zero.2 hnot, List.count_eq_zero.2 (by simpa using Ne.symm hc)]
    rw [lowerFrom_eq, List.count_append, hform, ih, ← List.count_append]
    rfl

/-- Lower-casing neither makes nor removes a boundary. -/
theorem keepsCount_lower (hd : IsBoundary d) : KeepsCount d lower :=
  count_lowerFrom hd []

/-- Whether a text begins with a letter does not depend on what stands behind a boundary. -/
theorem beginsCased_append_cons (hd : IsBoundary d) (a b : List Char) :
    beginsCased (a ++ d :: b) = beginsCased a := by
  have hdrop : (d :: b).dropWhile isCaseIgnorable = d :: b := by
    simp [hd.2.2]
  rw [beginsCased, beginsCased, List.dropWhile_append, hdrop]
  cases a.dropWhile isCaseIgnorable with
  | nil => exact hd.2.1
  | cons c rest => rfl

theorem lowerFrom_behind (hd : IsBoundary d) (a before cs : List Char) :
    lowerFrom (a ++ d :: before) cs = lowerFrom a cs := by
  induction cs generalizing a with
  | nil => rfl
  | cons c rest ih =>
    rw [lowerFrom_eq, lowerFrom_eq, ← List.cons_append, ih, formIn, beginsCased_append_cons hd]
    rfl

theorem lowerFrom_append_cons (hd : IsBoundary d) (before a b : List Char) :
    lowerFrom before (a ++ d :: b) = lowerFrom before a ++ d :: lower b := by
  induction a generalizing before with
  | nil =>
    have hbehind : lowerFrom (d :: before) b = lower b := lowerFrom_behind hd [] before b
    rw [List.nil_append, lowerFrom_eq, formIn_of_settled hd.1, hbehind]
    rfl
  | cons c rest ih =>
    rw [List.cons_append, lowerFrom_eq, lowerFrom_eq, ih, formIn, beginsCased_append_cons hd,
      List.append_assoc]
    rfl

/-- The texts around a boundary are lowered as if they stood alone. -/
theorem lower_append_cons (hd : IsBoundary d) (a b : List Char) :
    lower (a ++ d :: b) = lower a ++ d :: lower b :=
  lowerFrom_append_cons hd [] a b

/-- So are the pieces of a text that is joined by boundaries. -/
theorem lower_join (hd : IsBoundary d) (ps : List (List Char)) :
    lower (join d ps) = join d (ps.map lower) := by
  induction ps with
  | nil => rfl
  | cons p rest ih =>
    by_cases hrest : rest = []
    · rw [hrest]
      rfl
    · have hmap : rest.map lower ≠ [] := by simp [hrest]
      rw [join_cons p hrest, lower_append_cons hd, ih, List.map_cons, join_cons _ hmap]

/-! ### The ends of a text -/

theorem lower_eq_nil_iff : lower cs = [] ↔ cs = [] := by
  constructor
  · intro h
    cases cs with
    | nil => rfl
    | cons c rest =>
      rw [lower, lowerFrom_eq, List.append_eq_nil_iff] at h
      exact absurd h.1 (formIn_ne_nil _ _ _)
  · rintro rfl
    rfl

theorem isWord_lower (h : IsWord cs) : IsWord (lower cs) := by
  refine ⟨fun hnil => h.1 (lower_eq_nil_iff.1 hnil), fun c hc => ?_⟩
  by_contra hb
  rw [Bool.not_eq_false] at hb
  have hmem : c ∈ cs := (keepsCount_lower (isBoundary_of_isBlank hb)).mem_iff.1 hc
  rw [h.2 c hmem] at hb
  cases hb

/-- A text in lower case begins with a boundary just when the text does. -/
theorem head?_lower_iff (hd : IsBoundary d) : (lower cs).head? = some d ↔ cs.head? = some d := by
  cases cs with
  | nil => rfl
  | cons c rest =>
    obtain ⟨x, xs, hform⟩ := List.exists_cons_of_ne_nil (formIn_ne_nil [] c rest)
    rw [lower, lowerFrom_eq, hform, List.cons_append, List.head?_cons, List.head?_cons,
      Option.some.injEq, Option.some.injEq]
    constructor
    · rintro rfl
      exact (eq_of_mem_formIn hd (by simp [hform] : x ∈ formIn [] c rest)).symm
    · rintro rfl
      rw [formIn_of_settled hd.1] at hform
      exact (List.cons.inj hform).1.symm

theorem exists_lowerFrom_concat (before cs : List Char) (c : Char) :
    ∃ x, lowerFrom before (cs ++ [c]) = x ++ formIn (cs.reverse ++ before) c [] := by
  induction cs generalizing before with
  | nil => exact ⟨[], List.append_nil _⟩
  | cons d rest ih =>
    obtain ⟨x, hx⟩ := ih (d :: before)
    refine ⟨formIn before d (rest ++ [c]) ++ x, ?_⟩
    rw [List.cons_append, lowerFrom_eq, hx]
    simp

/-- It ends with one just when the text does. -/
theorem getLast?_lower_iff (hd : IsBoundary d) :
    (lower cs).getLast? = some d ↔ cs.getLast? = some d := by
  constructor
  · intro h
    rcases List.eq_nil_or_concat' cs with rfl | ⟨rest, c, rfl⟩
    · exact h
    · obtain ⟨x, hx⟩ := exists_lowerFrom_concat [] rest c
      have hmem : d ∈ formIn (rest.reverse ++ []) c [] := by
        rw [lower, hx, List.getLast?_append_of_ne_nil _ (formIn_ne_nil _ _ _)] at h
        exact List.mem_of_getLast? h
      rw [eq_of_mem_formIn hd hmem, List.getLast?_append]
      rfl
  · intro h
    obtain ⟨rest, rfl⟩ := List.getLast?_eq_some_iff.1 h
    rw [lower_append_cons hd]
    simp

/-- Lower-casing brings no blanks to the ends of a text, and leaves those that are there. -/
theorem trim_lower_eq_self_iff : trim (lower cs) = lower cs ↔ trim cs = cs := by
  have hends : ∀ d, isBlank d = true →
      ((lower cs).head? = some d ↔ cs.head? = some d) ∧
        ((lower cs).getLast? = some d ↔ cs.getLast? = some d) := by
    intro d hd
    exact ⟨head?_lower_iff (isBoundary_of_isBlank hd),
      getLast?_lower_iff (isBoundary_of_isBlank hd)⟩
  simp only [trim_eq_self_iff, ← Bool.not_eq_true]
  constructor
  · rintro ⟨hfirst, hlast⟩
    exact ⟨fun d h hd => hfirst d ((hends d hd).1.2 h) hd,
      fun d h hd => hlast d ((hends d hd).2.2 h) hd⟩
  · rintro ⟨hfirst, hlast⟩
    exact ⟨fun d h hd => hfirst d ((hends d hd).1.1 h) hd,
      fun d h hd => hlast d ((hends d hd).2.1 h) hd⟩

end Reconciler.Text
