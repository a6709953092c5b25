/-
Normal forms of normal forms.

Values are stored in normal form, and whenever they are compared they are brought to normal form
again.  Under a rule that changes its own normal forms, what is stored never agrees with what was
observed.

* `MatchingRule.unbraced`: what the rule for UUIDs puts in lower case.

Main statements:
* `MatchingRule.idempotent_iff_settles`: a rule is idempotent just when a single value that it
  brought to normal form calls for no modification;
* `RuleRegistry.normalize_again_iff`: each standard rule keeps the normal forms that it makes,
  except that of a UUID with blanks just inside its braces;
* `RuleRegistry.blank_inside_braces`: such a UUID;
* `RuleRegistry.idempotent_lookup_register`: with an idempotent rule for UUIDs in its place, the
  standard rules are idempotent.
-/
import Reconciler.Proofs.Matching.Blanks
import Reconciler.Proofs.Shadow.InLine

namespace Reconciler

namespace MatchingRule

open Text

variable {rule : MatchingRule} {cs : List Char}

/-! ### What idempotence is good for -/

/-- A single value in normal form is left alone just when the rule is idempotent. -/
theorem idempotent_iff_settles (name : ItemName) :
    rule.Idempotent ↔ ∀ v,
      ReconcileContext.singleDelta rule name [rule.normalize v] (rule.normalForms [v]) = [] := by
  refine forall_congr' fun v => ?_
  rw [ReconcileContext.singleDelta_eq_nil_iff]
  simp [form, Json.same_iff]

/-- A rule for text keeps a normal form just when its change of the text does. -/
theorem textual_again_iff (name : String) (f : List Char → List Char) (v : Json) :
    (textual name f).normalize ((textual name f).normalize v) = (textual name f).normalize v ↔
      ∀ s : String, v = .str s → f (f s.toList) = f s.toList := by
  cases v with
  | str s =>
    show Json.str (String.ofList (f (String.ofList (f s.toList)).toList)) =
      Json.str (String.ofList (f s.toList)) ↔ _
    rw [String.toList_ofList, Json.str.injEq, String.ofList_inj]
    constructor
    · rintro h t ⟨⟩
      exact h
    · intro h
      exact h s rfl
  | _ =>
    -- Other values stay as they are.
    refine ⟨fun _ s hs => ?_, fun _ => rfl⟩
    cases hs

/-! ### E-mail addresses -/

theorem isBoundary_at : IsBoundary '@' := by decide +kernel

theorem normalizeEmailAddress_again (cs : List Char) :
    normalizeEmailAddress (normalizeEmailAddress cs) = normalizeEmailAddress cs := by
  unfold normalizeEmailAddress
  cases h : cutLast? '@' cs with
  | none => simp only [h]
  | some p =>
    obtain ⟨mailbox, domain⟩ := p
    obtain ⟨-, hdomain⟩ := cutLast?_eq_some_iff.1 h
    -- The domain has no sign of its own, in lower case neither.
    have hlower : '@' ∉ lower domain := fun hm =>
      hdomain ((keepsCount_lower isBoundary_at).mem_iff.1 hm)
    have hcut : cutLast? '@' (mailbox ++ '@' :: lower domain) = some (mailbox, lower domain) :=
      cutLast?_eq_some_iff.2 ⟨rfl, hlower⟩
    simp only [hcut, lower_lower]

/-! ### UUIDs -/

/-- A text without the blanks around it, and then without the braces around that. -/
def unbraced (cs : List Char) : List Char := stripEnd '\x7d' (stripStart '\x7b' (trim cs))

theorem isBoundary_opening : IsBoundary '\x7b' := by decide +kernel

theorem isBoundary_closing : IsBoundary '\x7d' := by decide +kernel

theorem normalizeUuid_eq (cs : List Char) : normalizeUuid cs = lower (unbraced cs) := rfl

theorem stripStart_eq_self_iff {c : Char} (cs : List Char) :
    stripStart c cs = cs ↔ cs.head? ≠ some c := by
  rw [stripStart, dropWhile_eq_self_iff]
  constructor
  · intro h hc
    simpa using h c hc
  · intro h x hx
    simpa using fun he : x = c => h (he ▸ hx)

theorem stripEnd_eq_self_iff {c : Char} (cs : List Char) :
    stripEnd c cs = cs ↔ cs.getLast? ≠ some c := by
  rw [stripEnd, List.reverse_eq_iff, ← List.head?_reverse]
  exact stripStart_eq_self_iff cs.reverse

theorem exists_stripEnd_append (c : Char) (cs : List Char) : ∃ rest, stripEnd c cs ++ rest = cs :=
  List.rdropWhile_prefix _ _

theorem unbraced_sublist (cs : List Char) : (unbraced cs).Sublist (trim cs) := by
  have hstrip : (unbraced cs).Sublist (stripStart '\x7b' (trim cs)) :=
    List.IsPrefix.sublist (exists_stripEnd_append _ _)
  exact hstrip.trans (List.dropWhile_sublist _)

theorem trim_sublist (cs : List Char) : (trim cs).Sublist cs := by
  obtain ⟨u, v, -, -, he⟩ := exists_trim cs
  conv_rhs => rw [he]
  exact List.sublist_append_of_sublist_left (List.sublist_append_right _ _)

theorem head?_unbraced_ne (cs : List Char) : (unbraced cs).head? ≠ some '\x7b' := by
  intro h
  obtain ⟨rest, hrest⟩ := exists_stripEnd_append '\x7d' (stripStart '\x7b' (trim cs))
  have hstart : (stripStart '\x7b' (trim cs)).head? = some '\x7b' := by
    rw [← hrest, List.head?_append]
    show (unbraced cs).head?.or _ = _
    rw [h]
    rfl
  simpa using head?_dropWhile hstart

theorem getLast?_unbraced_ne (cs : List Char) : (unbraced cs).getLast? ≠ some '\x7d' := by
  intro h
  rw [unbraced, stripEnd, List.getLast?_reverse] at h
  simpa using head?_dropWhile h

/-- Once in lower case, a text without braces and blanks at its ends stays as it is. -/
theorem unbraced_lower_unbraced_iff (cs : List Char) :
    unbraced (lower (unbraced cs)) = lower (unbraced cs) ↔ trim (unbraced cs) = unbraced cs := by
  constructor
  · intro h
    have hle := (unbraced_sublist (lower (unbraced cs))).length_le
    rw [h] at hle
    exact trim_lower_eq_self_iff.1 ((trim_sublist _).eq_of_length_le hle)
  · intro h
    have hopen : (lower (unbraced cs)).head? ≠ some '\x7b' := fun hh =>
      head?_unbraced_ne cs ((head?_lower_iff isBoundary_opening).1 hh)
    have hclose : (lower (unbraced cs)).getLast? ≠ some '\x7d' := fun hh =>
      getLast?_unbraced_ne cs ((getLast?_lower_iff isBoundary_closing).1 hh)
    have htrim : trim (lower (unbraced cs)) = lower (unbraced cs) := trim_lower_eq_self_iff.2 h
    rw [unbraced, htrim, (stripStart_eq_self_iff _).2 hopen, (stripEnd_eq_self_iff _).2 hclose]

theorem normalizeUuid_again_iff (cs : List Char) :
    normalizeUuid (normalizeUuid cs) = normalizeUuid cs ↔ trim (unbraced cs) = unbraced cs := by
  rw [normalizeUuid_eq cs, normalizeUuid_eq, ← unbraced_lower_unbraced_iff]
  -- What is cut from a text in lower case is in lower case.
  have hsettled : lower (unbraced (lower (unbraced cs))) = unbraced (lower (unbraced cs)) :=
    lower_of_settled fun c hc =>
      settled_of_mem_lower (((unbraced_sublist _).trans (trim_sublist _)).subset hc)
  rw [hsettled]

/-! ### All standard rules -/

theorem again_of_mem_standard (h : rule ∈ standard) (hne : rule.name ≠ "uuid") (v : Json) :
    rule.normalize (rule.normalize v) = rule.normalize v := by
  simp only [standard, List.mem_cons, List.not_mem_nil, or_false] at h
  rcases h with rfl | rfl | rfl | rfl | rfl | rfl
  · rfl
  · exact (textual_again_iff _ _ v).2 fun s _ => lower_lower s.toList
  · exact (textual_again_iff _ _ v).2 fun s _ => collapsed_again s.toList
  · exact (textual_again_iff _ _ v).2 fun s _ => normalizeDistinguishedName_again s.toList
  · exact absurd rfl hne
  · exact (textual_again_iff _ _ v).2 fun s _ => normalizeEmailAddress_again s.toList

theorem eq_uuid_of_mem_standard (h : rule ∈ standard) (hname : rule.name = "uuid") :
    rule = uuid := by
  simp only [standard, List.mem_cons, List.not_mem_nil, or_false] at h
  rcases h with rfl | rfl | rfl | rfl | rfl | rfl
  all_goals first | rfl | exact absurd hname (by decide)

end MatchingRule

namespace RuleRegistry

open MatchingRule

variable {name : String} {rule : MatchingRule} {r : RuleRegistry} {rules : List MatchingRule}

/-- What is found after rules were added is one of them, or was there before. -/
theorem cases_of_get?_register (h : (rules.foldl register r).rules.get? name = some rule) :
    rule ∈ rules ∧ rule.name = name ∨ r.rules.get? name = some rule := by
  induction rules generalizing r with
  | nil => exact .inr h
  | cons first rest ih =>
    rcases ih h with ⟨hmem, hname⟩ | h
    · exact .inl ⟨List.mem_cons_of_mem _ hmem, hname⟩
    · rw [register, SortedMap.get?_insert] at h
      split at h
      · next hname =>
        obtain rfl := Option.some.inj h
        exact .inl ⟨List.mem_cons_self, hname.symm⟩
      · exact .inr h

theorem mem_standard_of_get? (h : standard.rules.get? name = some rule) :
    rule ∈ MatchingRule.standard ∧ rule.name = name := by
  rcases cases_of_get?_register h with h | h
  · exact h
  · cases h

/-- **Normal forms are normal, but for blanks inside the braces of a UUID.**  Every standard rule
keeps the normal form of every value, except that the rule for UUIDs changes the one of a text which
has blanks at its ends once it has lost the blanks around it and then its braces. -/
theorem normalize_again_iff (h : standard.rules.get? name = some rule) (v : Json) :
    rule.normalize (rule.normalize v) = rule.normalize v ↔
      (name = "uuid" → ∀ s : String, v = .str s →
        Text.trim (unbraced s.toList) = unbraced s.toList) := by
  obtain ⟨hmem, rfl⟩ := mem_standard_of_get? h
  by_cases hname : rule.name = "uuid"
  · obtain rfl := eq_uuid_of_mem_standard hmem hname
    rw [uuid, textual_again_iff]
    simp only [normalizeUuid_again_iff]
    exact ⟨fun h _ => h, fun h => h rfl⟩
  · exact ⟨fun _ hn => absurd hn hname, fun _ => again_of_mem_standard hmem hname v⟩

theorem normalize_again_iff_sample :
    standard.rules.get? "uuid" = some uuid ∧
      uuid.normalize (uuid.normalize (.str " \x7b\x7bA B\x7d\n")) =
        uuid.normalize (.str " \x7b\x7bA B\x7d\n") ∧
      uuid.normalize (.str " \x7b\x7bA B\x7d\n") = .str "a b" := by
  have hfound : standard.rules.get? "uuid" = some uuid := rfl
  refine ⟨hfound, (normalize_again_iff hfound _).2 ?_, by decide +kernel⟩
  rintro - s ⟨⟩
  decide +kernel

/-- **A UUID with blanks inside its braces** has a normal form that is not normal. -/
theorem blank_inside_braces : ∃ rule, standard.rules.get? "uuid" = some rule ∧
    rule.normalize (.str "\x7b A \x7d") = .str " a " ∧
    rule.normalize (rule.normalize (.str "\x7b A \x7d")) = .str "a" ∧
    rule.normalize (rule.normalize (.str "\x7b A \x7d")) ≠ rule.normalize (.str "\x7b A \x7d") :=
  ⟨uuid, rfl, by decide +kernel, by decide +kernel, by decide +kernel⟩

theorem get?_of_lookup {name : Option String} {valueType : ValueType}
    (h : r.lookup name valueType = .ok rule) :
    r.rules.get? (name.getD MatchingRule.default.name) = some rule := by
  unfold lookup at h
  dsimp only at h
  split at h
  · cases h
  · next found hfound =>
    split at h
    · rw [← Except.ok.inj h]
      exact hfound
    · cases h

/-- With an idempotent rule for UUIDs in its place, all that is found is idempotent. -/
theorem idempotent_lookup_register (hname : rule.name = "uuid") (hrule : rule.Idempotent) :
    (standard.register rule).lookup.Idempotent := by
  intro name valueType found h
  have hget := get?_of_lookup h
  rw [register, SortedMap.get?_insert] at hget
  split at hget
  · obtain rfl := Option.some.inj hget
    exact hrule
  · next hne =>
    obtain ⟨hmem, hfound⟩ := mem_standard_of_get? hget
    intro v
    rw [again_of_mem_standard hmem (by rw [hfound, ← hname]; exact hne) v]
    exact Json.same_refl _

end RuleRegistry

end Reconciler
