/-
The text of an instant names the instant.

* `Instant.Proper`: what holds of every instant that a text names: its day is one that instants
  cover, and only the last second of a minute goes on as a leap second.

Main statements:
* `Instant.digits?_append`, `field?_append`, `year?_append`, `fraction?_append`: each part of a text
  is read as it was written;
* `Instant.ofText?_of_parts`: a text of the form that is written is read part by part;
* `Instant.proper_of_ofText?`: what a text names is proper;
* `Instant.ofText?_toText`: what is proper is named by its own text.

Design notes:
* A leap second that a text names elsewhere than in universal time is still the last of its minute,
  because offsets are whole minutes.
-/
import Mathlib.Algebra.Group.Nat.Defs
import Reconciler.Proofs.Codec.Calendar

namespace Reconciler.Instant

/-! ### Digits -/

theorem range_of_isDigit {c : Char} (h : c.isDigit = true) : 48 ≤ c.toNat ∧ c.toNat ≤ 57 := by
  simpa [Char.isDigit, UInt32.le_iff_toNat_le] using h

section Digits

variable {width n : Nat} {digits rest : List Char}

theorem toList_padded (width n : Nat) : (padded width n).toList =
    List.replicate (width - (Nat.toDigits 10 n).length) '0' ++ Nat.toDigits 10 n := by
  unfold padded
  exact String.toList_ofList

theorem isDigit_of_mem_padded {c : Char} (h : c ∈ (padded width n).toList) : c.isDigit = true := by
  rw [toList_padded, List.mem_append] at h
  rcases h with h | h
  · rw [List.eq_of_mem_replicate h]
    rfl
  · exact Nat.isDigit_of_mem_toDigits (by decide) (by decide) h

theorem padded_ne_nil : (padded width n).toList ≠ [] := by
  rw [toList_padded]
  exact List.append_ne_nil_of_right_ne_nil _ Nat.toDigits_ne_nil

theorem length_padded (hwidth : 0 < width) (h : n < 10 ^ width) :
    (padded width n).toList.length = width := by
  have hlength := (Nat.length_toDigits_le_iff (b := 10) (by decide) hwidth).2 h
  rw [toList_padded, List.length_append, List.length_replicate]
  omega

theorem valueOf_eq (digits : List Char) : valueOf digits = Nat.ofDigitChars 10 digits 0 := by
  simp only [valueOf, Nat.ofDigitChars_eq_foldl, Nat.mul_comm 10]
  rfl

theorem valueOf_padded : valueOf (padded width n).toList = n := by
  rw [valueOf_eq, toList_padded, Nat.ofDigitChars_append, Nat.ofDigitChars_replicate_zero,
    Nat.mul_zero, Nat.ofDigitChars_ten_toDigits]

/-- Digits are read up to the first character that is none, or as many as may be read. -/
theorem digits?_append {most : Nat} (hdigits : ∀ c ∈ digits, c.isDigit = true) (hne : digits ≠ [])
    (hmost : digits.length ≤ most)
    (hrest : digits.length = most ∨ ∀ c ∈ rest.head?, c.isDigit = false) :
    digits? most (digits ++ rest) = some (digits, rest) := by
  have hnone : (rest.take (most - digits.length)).takeWhile Char.isDigit = [] := by
    rcases hrest with hfull | hrest
    · rw [hfull, Nat.sub_self]
      rfl
    · cases rest with
      | nil => rw [List.take_nil]; rfl
      | cons c rest =>
        cases most - digits.length with
        | zero => rfl
        | succ k => exact List.takeWhile_cons_of_neg (by rw [hrest c rfl]; exact Bool.false_ne_true)
  have htake : ((digits ++ rest).take most).takeWhile Char.isDigit = digits := by
    rw [List.take_append, List.take_of_length_le hmost, List.takeWhile_append_of_pos hdigits, hnone,
      List.append_nil]
  have hempty : digits.isEmpty = false := by
    rw [List.isEmpty_eq_false_iff]
    exact hne
  unfold digits?
  simp only [htake, hempty, Bool.false_eq_true, if_false, List.drop_left]

end Digits

/-! ### Parts of a text -/

section Parts

variable {cs rest : List Char}

theorem isBlank_of_isDigit {c : Char} (h : c.isDigit = true) : Text.isBlank c = false := by
  have hrange := range_of_isDigit h
  simp only [Text.isBlank, Bool.or_eq_false_iff, Bool.and_eq_false_iff, beq_eq_false_iff_ne,
    decide_eq_false_iff_not]
  omega

/-- A part that is no blank at its start is read from there. -/
theorem trimStart_of_head? (h : ∀ c ∈ cs.head?, Text.isBlank c = false) : Text.trimStart cs = cs :=
  Text.dropWhile_eq_self_iff.2 h

/-- A padded number starts with a digit. -/
theorem exists_padded_eq_cons (width n : Nat) :
    ∃ c digits, (padded width n).toList = c :: digits ∧ c.isDigit = true := by
  have hne : (padded width n).toList ≠ [] := padded_ne_nil
  obtain ⟨c, digits, h⟩ := List.exists_cons_of_ne_nil hne
  exact ⟨c, digits, h, isDigit_of_mem_padded (h ▸ List.mem_cons_self)⟩

theorem trimStart_padded (width n : Nat) (rest : List Char) :
    Text.trimStart ((padded width n).toList ++ rest) = (padded width n).toList ++ rest := by
  obtain ⟨c, digits, h, hc⟩ := exists_padded_eq_cons width n
  refine trimStart_of_head? fun c' hc' => ?_
  rw [h] at hc'
  cases hc'
  exact isBlank_of_isDigit hc

theorem field?_append {least greatest n : Nat} (hleast : least ≤ n) (hgreatest : n ≤ greatest)
    (hn : n < 100) (rest : List Char) :
    field? least greatest ((padded 2 n).toList ++ rest) = some (n, rest) := by
  have hlength : (padded 2 n).toList.length = 2 := length_padded (by decide) hn
  have hdigits : digits? 2 ((padded 2 n).toList ++ rest) = some ((padded 2 n).toList, rest) :=
    digits?_append (fun _ => isDigit_of_mem_padded) padded_ne_nil (by omega) (.inl hlength)
  unfold field?
  simp only [trimStart_padded, hdigits, valueOf_padded, Option.bind_eq_bind, Option.bind_some,
    hleast, hgreatest, and_self, if_true]
  rfl

theorem mark?_cons (mark : Char) (h : Text.isBlank mark = false) (rest : List Char) :
    mark? mark (mark :: rest) = some rest := by
  have hstart : Text.trimStart (mark :: rest) = mark :: rest :=
    trimStart_of_head? fun c hc => by
      cases hc
      exact h
  unfold mark?
  rw [hstart]
  exact if_pos rfl

/-- A year is read up to the mark after it. -/
theorem year?_append (year : Int) (rest : List Char) :
    year? ((yearText year).toList ++ '-' :: rest) = some (year, '-' :: rest) := by
  have hread : ∀ (most n : Nat), (padded 4 n).toList.length ≤ most →
      digits? most ((padded 4 n).toList ++ '-' :: rest) = some ((padded 4 n).toList, '-' :: rest) :=
    fun most n h =>
      digits?_append (fun _ => isDigit_of_mem_padded) padded_ne_nil h (.inr fun c hc => by
        cases hc
        rfl)
  unfold yearText
  split
  · next hyear =>
    -- Four digits, of which the first is no sign.
    obtain ⟨c, digits, hc, hdigit⟩ := exists_padded_eq_cons 4 year.toNat
    have hlength : (padded 4 year.toNat).toList.length = 4 :=
      length_padded (by decide) (by omega)
    have hfour := hread 4 year.toNat (by omega)
    unfold year?
    rw [trimStart_padded]
    split
    · next h =>
      rw [hc] at h
      cases h
      cases hdigit
    · next h =>
      rw [hc] at h
      cases h
      cases hdigit
    · rw [hfour]
      show some ((valueOf (padded 4 year.toNat).toList : Int), _) = _
      rw [valueOf_padded, Int.toNat_of_nonneg hyear.1]
  · next hyear =>
    -- A sign, and then all digits that there are.
    have hmore := hread ((padded 4 year.natAbs).toList ++ '-' :: rest).length year.natAbs (by simp)
    have htrim : ∀ sign, Text.isBlank sign = false →
        Text.trimStart (sign :: ((padded 4 year.natAbs).toList ++ '-' :: rest)) =
          sign :: ((padded 4 year.natAbs).toList ++ '-' :: rest) := fun sign hsign =>
      trimStart_of_head? fun c hc => by
        cases hc
        exact hsign
    by_cases hnegative : year < 0
    · rw [if_pos hnegative, String.toList_append]
      show year? ('-' :: ((padded 4 year.natAbs).toList ++ '-' :: rest)) = _
      unfold year?
      rw [htrim '-' rfl]
      simp only [hmore, Option.bind_eq_bind, Option.bind_some, Option.pure_def, valueOf_padded]
      rw [show -(year.natAbs : Int) = year by omega]
    · rw [if_neg hnegative, String.toList_append]
      show year? ('+' :: ((padded 4 year.natAbs).toList ++ '-' :: rest)) = _
      unfold year?
      rw [htrim '+' rfl]
      simp only [hmore, Option.bind_eq_bind, Option.bind_some, Option.pure_def, valueOf_padded]
      rw [show (year.natAbs : Int) = year by omega]

/-- A point and some digits are read as a part of 10^9. -/
theorem fraction?_point {width n : Nat} (hwidth : 0 < width) (hmost : width ≤ 9)
    (h : n < 10 ^ width) (rest : List Char) :
    fraction? (("." ++ padded width n).toList ++ 'Z' :: rest) =
      some (n * 10 ^ (9 - width), 'Z' :: rest) := by
  have hlength : (padded width n).toList.length = width := length_padded hwidth h
  have hdigits : digits? 9 ((padded width n).toList ++ 'Z' :: rest) =
      some ((padded width n).toList, 'Z' :: rest) :=
    digits?_append (fun _ => isDigit_of_mem_padded) padded_ne_nil (by omega) (.inr fun c hc => by
      cases hc
      rfl)
  rw [String.toList_append]
  show fraction? ('.' :: ((padded width n).toList ++ 'Z' :: rest)) = _
  unfold fraction?
  simp only [hdigits, Option.bind_eq_bind, Option.bind_some, Option.pure_def, valueOf_padded,
    hlength]
  rfl

theorem fraction?_append {nano : Nat} (h : nano < 1000000000) (rest : List Char) :
    fraction? ((fractionText nano).toList ++ 'Z' :: rest) = some (nano, 'Z' :: rest) := by
  unfold fractionText
  split
  · next hzero =>
    rw [hzero]
    rfl
  · split
    · rw [fraction?_point (by decide) (by decide) (by omega)]
      congr 2
      omega
    · split
      · rw [fraction?_point (by decide) (by decide) (by omega)]
        congr 2
        omega
      · rw [fraction?_point (by decide) (by decide) (by omega)]
        congr 2
        omega

end Parts

/-! ### Whole texts -/

/-- What holds of every instant that a text names. -/
structure Proper (t : Instant) : Prop where
  firstDay_le : Civil.firstDay ≤ t.day
  le_lastDay : t.day ≤ Civil.lastDay
  leap : 1000000000 ≤ t.nano → t.second % 60 = 59

variable {t : Instant}

/-- Clocks that are set to universal time show the instant itself. -/
theorem ofLocal?_ofDay (h : t.Proper) :
    ofLocal? (Civil.ofDay t.day) t.second t.nano 0 = some t := by
  obtain ⟨day, second, nano, hsecond, hnano⟩ := t
  have hday : (Civil.ofDay day).toDay + ((second : Int) - 0) / 86400 = day := by
    rw [Civil.toDay_ofDay]
    omega
  have hvalid : (Civil.ofDay day).isValid = true ∧ Civil.firstDay ≤ day ∧ day ≤ Civil.lastDay :=
    ⟨Civil.isValid_ofDay h.firstDay_le h.le_lastDay, h.firstDay_le, h.le_lastDay⟩
  unfold ofLocal?
  simp only [hday, dif_pos hnano, if_pos hvalid, Option.some.injEq, mk.injEq, true_and, and_true]
  omega

/-- The characters of the text of an instant, part by part. -/
theorem toList_toText (t : Instant) : t.toText.toList =
    (yearText (Civil.ofDay t.day).year).toList ++ '-' ::
      ((padded 2 (Civil.ofDay t.day).month).toList ++ '-' ::
        ((padded 2 (Civil.ofDay t.day).day).toList ++ 'T' ::
          ((padded 2 (t.second / 3600)).toList ++ ':' ::
            ((padded 2 (t.second / 60 % 60)).toList ++ ':' ::
              ((padded 2 (t.second % 60 + t.nano / 1000000000)).toList ++
                ((fractionText (t.nano % 1000000000)).toList ++ ['Z'])))))) := by
  simp [toText, List.append_assoc]

/-- After a part that was read comes the next. -/
theorem bind_of_eq_some {α β : Type} {x : Option α} {a : α} (h : x = some a) (f : α → Option β) :
    (x >>= f) = f a := by
  rw [h]
  rfl

/-- A text of this form is read part by part. -/
theorem ofText?_of_parts {text : String} {year : Int} {month day hour minute second nano : Nat}
    {cs afterYear afterMonth afterDay afterHour afterMinute afterSecond : List Char}
    (htext : text.toList = cs) (hyear : year? cs = some (year, '-' :: afterYear))
    (hmonth : field? 1 12 afterYear = some (month, '-' :: afterMonth))
    (hday : field? 1 31 afterMonth = some (day, 'T' :: afterDay))
    (hhour : field? 0 23 afterDay = some (hour, ':' :: afterHour))
    (hminute : field? 0 59 afterHour = some (minute, ':' :: afterMinute))
    (hsecond : field? 0 60 afterMinute = some (second, afterSecond))
    (hnano : fraction? afterSecond = some (nano, ['Z'])) :
    ofText? text =
      if second = 60 then
        ofLocal? ⟨year, month, day⟩ (hour * 3600 + minute * 60 + 59) (nano + 1000000000) 0
      else ofLocal? ⟨year, month, day⟩ (hour * 3600 + minute * 60 + second) nano 0 := by
  have hmark : (if 'T' = 'T' ∨ 'T' = 't' ∨ 'T' = ' ' then some afterDay else none) =
      some afterDay := if_pos (.inl rfl)
  have hoffset : offset? (Text.trimStart ['Z']) = some (0, []) := rfl
  have hend : (Text.trimStart []).isEmpty = true := rfl
  subst htext
  unfold ofText?
  refine (bind_of_eq_some hyear _).trans ?_
  refine (bind_of_eq_some (mark?_cons '-' rfl _) _).trans ?_
  refine (bind_of_eq_some hmonth _).trans ?_
  refine (bind_of_eq_some (mark?_cons '-' rfl _) _).trans ?_
  refine (bind_of_eq_some hday _).trans ?_
  refine (bind_of_eq_some hmark _).trans ?_
  refine (bind_of_eq_some hhour _).trans ?_
  refine (bind_of_eq_some (mark?_cons ':' rfl _) _).trans ?_
  refine (bind_of_eq_some hminute _).trans ?_
  refine (bind_of_eq_some (mark?_cons ':' rfl _) _).trans ?_
  refine (bind_of_eq_some hsecond _).trans ?_
  refine (bind_of_eq_some hnano _).trans ?_
  refine (bind_of_eq_some hoffset _).trans ?_
  exact if_pos hend

/-- **An instant that a text can name is named by its own text.** -/
theorem ofText?_toText (h : t.Proper) : ofText? t.toText = some t := by
  have hvalid : (Civil.ofDay t.day).isValid = true :=
    Civil.isValid_ofDay h.firstDay_le h.le_lastDay
  obtain ⟨hmonth, hmonth', hday, hday'⟩ := Civil.range_of_isValid hvalid
  have hsecond := t.second_lt
  have hnano := t.nano_lt
  have hleap := h.leap
  have hhour : t.second / 3600 ≤ 23 := by omega
  have hminute : t.second / 60 % 60 ≤ 59 := by omega
  have hlast : t.second % 60 + t.nano / 1000000000 ≤ 60 := by omega
  have hfraction : t.nano % 1000000000 < 1000000000 := by omega
  rw [ofText?_of_parts (toList_toText t) (year?_append _ _)
    (field?_append hmonth hmonth' (by omega) _) (field?_append hday hday' (by omega) _)
    (field?_append (Nat.zero_le _) hhour (by omega) _)
    (field?_append (Nat.zero_le _) hminute (by omega) _)
    (field?_append (Nat.zero_le _) hlast (by omega) _) (fraction?_append hfraction [])]
  have hlocal : ofLocal? (Civil.ofDay t.day) t.second t.nano 0 = some t := ofLocal?_ofDay h
  split
  · rw [show t.second / 3600 * 3600 + t.second / 60 % 60 * 60 + 59 = t.second by omega,
      show t.nano % 1000000000 + 1000000000 = t.nano by omega]
    exact hlocal
  · rw [show t.second / 3600 * 3600 + t.second / 60 % 60 * 60 +
        (t.second % 60 + t.nano / 1000000000) = t.second by omega,
      show t.nano % 1000000000 = t.nano by omega]
    exact hlocal

/-! ### What a text can name -/

/-- As many digits as there are, whatever stands before them. -/
theorem foldl_digits_lt {digits : List Char} (h : ∀ c ∈ digits, c.isDigit = true) (n : Nat) :
    digits.foldl (fun n c => n * 10 + (c.toNat - 48)) n < (n + 1) * 10 ^ digits.length := by
  induction digits generalizing n with
  | nil =>
    rw [List.foldl_nil, List.length_nil]
    omega
  | cons c digits ih =>
    obtain ⟨hc, hdigits⟩ := List.forall_mem_cons.1 h
    have hrange := range_of_isDigit hc
    calc digits.foldl _ (n * 10 + (c.toNat - 48))
        < (n * 10 + (c.toNat - 48) + 1) * 10 ^ digits.length := ih hdigits _
      _ ≤ ((n + 1) * 10) * 10 ^ digits.length := Nat.mul_le_mul_right _ (by omega)
      _ = (n + 1) * 10 ^ (c :: digits).length := by
        rw [List.length_cons, Nat.pow_succ, Nat.mul_assoc, Nat.mul_comm 10]

theorem valueOf_lt {digits : List Char} (h : ∀ c ∈ digits, c.isDigit = true) :
    valueOf digits < 10 ^ digits.length := by
  simpa [valueOf] using foldl_digits_lt h 0

/-- What is read as digits are digits, and no more than may be read. -/
theorem digits?_spec {most : Nat} {cs digits rest : List Char}
    (h : digits? most cs = some (digits, rest)) :
    (∀ c ∈ digits, c.isDigit = true) ∧ digits.length ≤ most := by
  unfold digits? at h
  simp only at h
  split at h
  · cases h
  · cases h
    refine ⟨fun c hc => List.all_eq_true.1 List.all_takeWhile c hc, ?_⟩
    calc ((cs.take most).takeWhile Char.isDigit).length
        ≤ (cs.take most).length := (List.takeWhile_prefix _).length_le
      _ ≤ most := List.length_take_le ..

/-- Whatever stands after a point is less than a second. -/
theorem fraction?_lt {cs rest : List Char} {nano : Nat} (h : fraction? cs = some (nano, rest)) :
    nano < 1000000000 := by
  unfold fraction? at h
  split at h
  · next digits =>
    obtain ⟨⟨ds, more⟩, hdigits, he⟩ := Option.bind_eq_some_iff.1 h
    cases he
    obtain ⟨hds, hmost⟩ := digits?_spec hdigits
    calc valueOf ds * 10 ^ (9 - ds.length)
        < 10 ^ ds.length * 10 ^ (9 - ds.length) :=
          Nat.mul_lt_mul_of_pos_right (valueOf_lt hds) (Nat.pow_pos (by decide))
      _ = 1000000000 := by rw [← Nat.pow_add, show ds.length + (9 - ds.length) = 9 by omega]
  · cases h
    decide

/-- Offsets are whole minutes. -/
theorem offset?_mod {cs rest : List Char} {offset : Int} (h : offset? cs = some (offset, rest)) :
    offset % 60 = 0 := by
  unfold offset? at h
  split at h
  · cases h
  · split at h
    · cases h
      rfl
    · simp only at h
      split at h
      · cases h
        rfl
      · split at h
        · obtain ⟨⟨hours, more⟩, -, h⟩ := Option.bind_eq_some_iff.1 h
          obtain ⟨⟨minutes, last⟩, -, h⟩ := Option.bind_eq_some_iff.1 h
          dsimp only at h
          split at h
          · cases h
            split <;> omega
          · cases h
        · cases h

theorem proper_of_ofLocal? {date : Civil} {second nano : Nat} {offset : Int}
    (h : ofLocal? date second nano offset = some t) (hoffset : offset % 60 = 0)
    (hleap : 1000000000 ≤ nano → second % 60 = 59) : t.Proper := by
  unfold ofLocal? at h
  simp only at h
  split at h
  · split at h
    · next hdays =>
      cases h
      refine ⟨hdays.2.1, hdays.2.2, fun hnano => ?_⟩
      have hlast := hleap hnano
      dsimp only
      omega
    · cases h
  · cases h

theorem proper_of_ofText? {text : String} (h : ofText? text = some t) : t.Proper := by
  unfold ofText? at h
  obtain ⟨⟨year, cs⟩, -, h⟩ := Option.bind_eq_some_iff.1 h
  obtain ⟨cs, -, h⟩ := Option.bind_eq_some_iff.1 h
  obtain ⟨⟨month, cs⟩, -, h⟩ := Option.bind_eq_some_iff.1 h
  obtain ⟨cs, -, h⟩ := Option.bind_eq_some_iff.1 h
  obtain ⟨⟨day, cs⟩, -, h⟩ := Option.bind_eq_some_iff.1 h
  dsimp only at h
  split at h
  · split at h
    · -- There is a mark between the date and the time.
      obtain ⟨cs, -, h⟩ := Option.bind_eq_some_iff.1 h
      obtain ⟨⟨hour, cs⟩, -, h⟩ := Option.bind_eq_some_iff.1 h
      obtain ⟨cs, -, h⟩ := Option.bind_eq_some_iff.1 h
      obtain ⟨⟨minute, cs⟩, -, h⟩ := Option.bind_eq_some_iff.1 h
      obtain ⟨cs, -, h⟩ := Option.bind_eq_some_iff.1 h
      obtain ⟨⟨second, cs⟩, -, h⟩ := Option.bind_eq_some_iff.1 h
      obtain ⟨⟨nano, cs⟩, hfraction, h⟩ := Option.bind_eq_some_iff.1 h
      obtain ⟨⟨offset, cs⟩, hoffset, h⟩ := Option.bind_eq_some_iff.1 h
      have hnano : nano < 1000000000 := fraction?_lt hfraction
      have hminutes : offset % 60 = 0 := offset?_mod hoffset
      dsimp only at h
      split at h
      · split at h
        · exact proper_of_ofLocal? h hminutes fun _ => by omega
        · exact proper_of_ofLocal? h hminutes fun hleap => by omega
      · cases h
    · cases h
  · cases h

instance : LawfulCodec Instant where
  decode?_encode {j t} h := by
    obtain ⟨text, -, htext⟩ := Option.bind_eq_some_iff.1 h
    have hread : ofText? t.toText = some t := ofText?_toText (proper_of_ofText? htext)
    simp only [decode?, encode, Json.text?, Option.bind_eq_bind, Option.bind_some, hread]

end Reconciler.Instant
