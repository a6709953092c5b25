/-
Protection with more values, more patterns and fewer conditions.

An object is protected when one pattern is met, and a pattern when all of its conditions are, each
by one of the values.  More of what there has to be one of, and fewer of what all have to be met,
never make an object less protected; but a pattern whose last condition is taken away protects
nothing.

* `AttributeValues.Within`: attributes are among others, which have at least their values;
* `AttributeValues.Among`: the same up to the signs of zeros, which is enough where values are
  compared as they are;
* `AttributeValues.Reorders`, `ProtectedPattern.Rearranged`: the same in another order;
* `ProtectedPattern.Covers`: for each of some patterns there is one that asks for no more;
* `ProtectsNoLess`, `ProtectsAlike`: how answers compare, on values as they are and under rules.

Main statements:
* `AttributeCondition.holdsUnder_mono`: a condition that holds goes on to hold with more values;
* `protectsNoLess_of_covers`: from values to more values, and from patterns to such that cover them;
* `protection_monotone`: what this means for values, patterns and conditions, one by one.

Design notes:
* A rule may tell values apart that are the same, so under rules the values themselves have to be
  there.
* Under rules an answer may be an error, as a rule may be asked for that was not asked for before.
  An object is then not declared unprotected; where all rules are found, it stays protected.
-/
import Reconciler.Proofs.Protection.Comparing

namespace Reconciler

variable {a b : AttributeValues} {c : AttributeCondition} {d : CompositeDefinition}
variable {p q : ProtectedPattern} {ps qs : List ProtectedPattern}
variable {rules : RuleLookup} {t : ObjectType} {auxiliary : List ObjectClass}

/-! ### More values -/

/-- Every attribute is among the others, with at least its values. -/
def AttributeValues.Within (a b : AttributeValues) : Prop :=
  ∀ e ∈ a.entries, ∃ e' ∈ b.entries, e.1 = e'.1 ∧ ∀ v ∈ e.2, v ∈ e'.2

instance (a b : AttributeValues) : Decidable (a.Within b) :=
  inferInstanceAs (Decidable (∀ e ∈ a.entries, ∃ e' ∈ b.entries,
    e.1 = e'.1 ∧ ∀ v ∈ e.2, v ∈ e'.2))

/-- Every attribute is among the others, with values that are the same as its values. -/
def AttributeValues.Among (a b : AttributeValues) : Prop :=
  ∀ e ∈ a.entries, ∃ e' ∈ b.entries, e.1 = e'.1 ∧ ∀ v ∈ e.2, v.isIn e'.2 = true

/-- The attributes are the same, with the values of each in another order. -/
def AttributeValues.Reorders (a b : AttributeValues) : Prop :=
  a.entries.Forall₂ (fun e e' => e.1 = e'.1 ∧ e.2.Perm e'.2) b.entries

theorem AttributeValues.Within.among (h : a.Within b) : a.Among b := by
  intro e he
  obtain ⟨e', he', hname, hvalues⟩ := h e he
  exact ⟨e', he', hname, fun v hv => Json.isIn_of_mem (hvalues v hv)⟩

theorem AttributeValues.within_of_perm
    (h : ∀ e ∈ a.entries, ∃ e' ∈ b.entries, e.1 = e'.1 ∧ e.2.Perm e'.2) : a.Within b := by
  intro e he
  obtain ⟨e', he', hname, hperm⟩ := h e he
  exact ⟨e', he', hname, fun v hv => hperm.mem_iff.1 hv⟩

theorem AttributeValues.Within.refl (a : AttributeValues) : a.Within a :=
  within_of_perm fun e he => ⟨e, he, rfl, .refl _⟩

theorem AttributeValues.Reorders.within (h : a.Reorders b) : a.Within b ∧ b.Within a := by
  obtain ⟨hforth, hback⟩ := List.exists_of_forall₂ h
  refine ⟨within_of_perm hforth, within_of_perm fun e he => ?_⟩
  obtain ⟨e', he', hname, hperm⟩ := hback e he
  exact ⟨e', he', hname.symm, hperm.symm⟩

/-- A condition that holds goes on to hold with more values, whatever values it accepts. -/
theorem AttributeCondition.holdsUnder_mono (hab : a.Within b) {test : Json → Bool}
    (h : c.holdsUnder test a = true) : c.holdsUnder test b = true := by
  obtain ⟨e, he, hagrees, v, hv, haccepts⟩ := holdsUnder_iff.1 h
  obtain ⟨e', he', hname, hvalues⟩ := hab e he
  rw [hname] at hagrees
  exact holdsUnder_iff.2 ⟨e', he', hagrees, v, hvalues v hv, haccepts⟩

theorem AttributeCondition.holdsWith_mono (hab : a.Within b)
    (h : c.holdsWith a d rules = .ok true) : c.holdsWith b d rules = .ok true := by
  obtain ⟨rule, hrule, hholds⟩ := holdsWith_eq_ok_iff.1 h
  exact holdsWith_eq_ok_iff.2 ⟨rule, hrule, holdsUnder_mono hab hholds⟩

/-- A condition on values as they are accepts the same values alike. -/
theorem AttributeCondition.holds_mono (hab : a.Among b) (h : c.holds a = true) :
    c.holds b = true := by
  obtain ⟨e, he, hagrees, v, hv, hsame⟩ := holdsUnder_iff.1 h
  obtain ⟨e', he', hname, hvalues⟩ := hab e he
  obtain ⟨w, hw, heq⟩ := Json.isIn_iff.1 (hvalues v hv)
  rw [hname] at hagrees
  exact holdsUnder_iff.2 ⟨e', he', hagrees, w, hw, Json.same_trans (Json.same_symm heq) hsame⟩

/-! ### Patterns that ask for no more -/

namespace ProtectedPattern

/-- For each pattern that has conditions, one of the others has some of these and no other ones. -/
def Covers (qs ps : List ProtectedPattern) : Prop :=
  ∀ p ∈ ps, p.filter ≠ [] → ∃ q ∈ qs, q.filter ≠ [] ∧ q.filter ⊆ p.filter

/-- The same patterns with the same conditions, both in another order. -/
def Rearranged (ps qs : List ProtectedPattern) : Prop :=
  ∃ moved, ps.Perm moved ∧ moved.Forall₂ (fun p q => p.filter.Perm q.filter) qs

theorem covers_of_perm (h : ∀ p ∈ ps, ∃ q ∈ qs, p.filter.Perm q.filter) : Covers qs ps := by
  intro p hp hsome
  obtain ⟨q, hq, hperm⟩ := h p hp
  exact ⟨q, hq, fun hnone => hsome (hnone ▸ hperm).eq_nil, hperm.symm.subset⟩

theorem Rearranged.exists_perm (h : Rearranged ps qs) :
    (∀ p ∈ ps, ∃ q ∈ qs, p.filter.Perm q.filter) ∧ ∀ q ∈ qs, ∃ p ∈ ps, p.filter.Perm q.filter := by
  obtain ⟨moved, hmoved, hconditions⟩ := h
  obtain ⟨hforth, hback⟩ := List.exists_of_forall₂ hconditions
  refine ⟨fun p hp => hforth p (hmoved.mem_iff.1 hp), fun q hq => ?_⟩
  obtain ⟨p, hp, hperm⟩ := hback q hq
  exact ⟨p, hmoved.mem_iff.2 hp, hperm⟩

theorem Rearranged.covers (h : Rearranged ps qs) : Covers qs ps ∧ Covers ps qs := by
  obtain ⟨hforth, hback⟩ := h.exists_perm
  refine ⟨covers_of_perm hforth, covers_of_perm fun q hq => ?_⟩
  obtain ⟨p, hp, hperm⟩ := hback q hq
  exact ⟨p, hp, hperm.symm⟩

end ProtectedPattern

open ProtectedPattern (Covers Rearranged)

/-! ### Comparing answers -/

/-- The definition of a type with these patterns. -/
def ObjectType.guardedBy (t : ObjectType) (ps : List ProtectedPattern)
    (auxiliary : List ObjectClass) : CompositeDefinition where
  structural := .ofType { t with protectedPatterns := ps }
  auxiliary := auxiliary

/-- Patterns have no influence on how conditions compare. -/
theorem isProtectedUnder_guardedBy :
    isProtectedUnder a (t.guardedBy ps auxiliary) rules =
      anyIsMetUnder a (t.guardedBy [] auxiliary) rules ps :=
  anyIsMetUnder_congr fun _ _ _ _ => rfl

/-- If `ps` protects the attributes `a`, then `qs` protects the attributes `b`: on values as they
are, and under rules where these are found.  Where one is not, the answer may be an error, but it is
never that `b` is not protected. -/
structure ProtectsNoLess (ps : List ProtectedPattern) (a : AttributeValues)
    (qs : List ProtectedPattern) (b : AttributeValues) : Prop where
  asIs : isProtectedBy ps a = true → isProtectedBy qs b = true
  underRules : ∀ (t : ObjectType) (auxiliary : List ObjectClass) (rules : RuleLookup),
    isProtectedUnder a (t.guardedBy ps auxiliary) rules = .ok true →
      isProtectedUnder b (t.guardedBy qs auxiliary) rules ≠ .ok false ∧
      ((t.guardedBy qs auxiliary).FindsRules rules qs →
        isProtectedUnder b (t.guardedBy qs auxiliary) rules = .ok true)

/-- `ps` says of the attributes `a` what `qs` says of `b`: on values as they are, and under rules
where all of these are found. -/
structure ProtectsAlike (ps : List ProtectedPattern) (a : AttributeValues)
    (qs : List ProtectedPattern) (b : AttributeValues) : Prop where
  asIs : isProtectedBy ps a = isProtectedBy qs b
  underRules : ∀ (t : ObjectType) (auxiliary : List ObjectClass) (rules : RuleLookup),
    (t.guardedBy ps auxiliary).FindsRules rules ps →
      isProtectedUnder a (t.guardedBy ps auxiliary) rules =
        isProtectedUnder b (t.guardedBy qs auxiliary) rules

theorem isProtectedBy_mono (hab : a.Among b) (hcovers : Covers qs ps)
    (h : isProtectedBy ps a = true) : isProtectedBy qs b = true := by
  unfold isProtectedBy at h ⊢
  rw [List.any_eq_true] at h ⊢
  obtain ⟨p, hp, hmet⟩ := h
  obtain ⟨hsome, hall⟩ := ProtectedPattern.isMet_iff.1 hmet
  obtain ⟨q, hq, hconditions, hsub⟩ := hcovers p hp hsome
  have hkept : ∀ c ∈ q.filter, c.holds b = true := fun c hc =>
    AttributeCondition.holds_mono hab (hall c (hsub hc))
  exact ⟨q, hq, ProtectedPattern.isMet_iff.2 ⟨hconditions, hkept⟩⟩

theorem anyIsMetUnder_ne_ok_false (hab : a.Within b) (hcovers : Covers qs ps)
    (h : anyIsMetUnder a d rules ps = .ok true) : anyIsMetUnder b d rules qs ≠ .ok false := by
  intro hfalse
  obtain ⟨p, hp, hmet⟩ := exists_of_anyIsMetUnder_eq_ok_true h
  obtain ⟨hsome, hall⟩ := ProtectedPattern.isMetUnder_eq_ok_true_iff.1 hmet
  obtain ⟨q, hq, hconditions, hsub⟩ := hcovers p hp hsome
  have htrue : q.isMetUnder b d rules = .ok true :=
    ProtectedPattern.isMetUnder_eq_ok_true_iff.2 ⟨hconditions, fun c hc =>
      AttributeCondition.holdsWith_mono hab (hall c (hsub hc))⟩
  rw [anyIsMetUnder_eq_ok_false_iff.1 hfalse q hq] at htrue
  cases htrue

/-- Patterns that cover others protect no less, with no less values. -/
theorem protectsNoLess_of_covers (hab : a.Within b) (hcovers : Covers qs ps) :
    ProtectsNoLess ps a qs b where
  asIs := isProtectedBy_mono hab.among hcovers
  underRules t auxiliary rules h := by
    rw [isProtectedUnder_guardedBy] at h ⊢
    have hne := anyIsMetUnder_ne_ok_false hab hcovers h
    refine ⟨hne, fun hfinds => ?_⟩
    obtain ⟨answer, hanswer⟩ : ∃ answer,
        anyIsMetUnder b (t.guardedBy [] auxiliary) rules qs = .ok answer :=
      exists_anyIsMetUnder_of_findsRules hfinds
    cases answer with
    | true => exact hanswer
    | false => exact absurd hanswer hne

theorem CompositeDefinition.FindsRules.rearranged (h : d.FindsRules rules ps)
    (hrearranged : Rearranged ps qs) : d.FindsRules rules qs := by
  intro q hq c hc
  obtain ⟨p, hp, hperm⟩ := hrearranged.exists_perm.2 q hq
  exact h p hp c (hperm.mem_iff.2 hc)

/-- The order of patterns, conditions and values does not matter. -/
theorem protectsAlike_of_rearranged (hrearranged : Rearranged ps qs) (hab : a.Reorders b) :
    ProtectsAlike ps a qs b := by
  obtain ⟨hforth, hback⟩ := hrearranged.covers
  obtain ⟨hto, hfrom⟩ := hab.within
  have hless := protectsNoLess_of_covers hto hforth
  have hmore := protectsNoLess_of_covers hfrom hback
  refine ⟨Bool.eq_iff_iff.2 ⟨hless.asIs, hmore.asIs⟩, fun t auxiliary rules hfinds => ?_⟩
  have hfinds' : (t.guardedBy qs auxiliary).FindsRules rules qs := hfinds.rearranged hrearranged
  obtain ⟨x, hx⟩ : ∃ x, isProtectedUnder a (t.guardedBy ps auxiliary) rules = .ok x :=
    exists_anyIsMetUnder_of_findsRules hfinds
  obtain ⟨y, hy⟩ : ∃ y, isProtectedUnder b (t.guardedBy qs auxiliary) rules = .ok y :=
    exists_anyIsMetUnder_of_findsRules hfinds'
  cases x with
  | true => rw [hx, ((hless.underRules t auxiliary rules hx).2 hfinds')]
  | false =>
    cases y with
    | true => rw [(hmore.underRules t auxiliary rules hy).2 hfinds] at hx; cases hx
    | false => rw [hx, hy]

/-- **Protection is monotone**, under any rules.  Attributes are no less protected with more values,
by more patterns, and by a pattern that keeps some but not all of its conditions; and the order of
patterns, conditions and values does not matter.  On values as they are, it is enough that the
values are the same. -/
theorem protection_monotone :
    (∀ (ps : List ProtectedPattern) (a b : AttributeValues), a.Among b →
      isProtectedBy ps a = true → isProtectedBy ps b = true) ∧
    (∀ (ps : List ProtectedPattern) (a b : AttributeValues), a.Within b →
      ProtectsNoLess ps a ps b) ∧
    (∀ (ps qs : List ProtectedPattern) (a : AttributeValues), ps.Sublist qs →
      ProtectsNoLess ps a qs a) ∧
    (∀ (earlier later : List ProtectedPattern) (p q : ProtectedPattern) (a : AttributeValues),
      q.filter ≠ [] → q.filter.Sublist p.filter →
        ProtectsNoLess (earlier ++ p :: later) a (earlier ++ q :: later) a) ∧
    (∀ (ps qs : List ProtectedPattern) (a b : AttributeValues), Rearranged ps qs → a.Reorders b →
      ProtectsAlike ps a qs b) := by
  have hself (ps : List ProtectedPattern) : Covers ps ps := fun p hp hsome =>
    ⟨p, hp, hsome, List.Subset.refl _⟩
  refine ⟨fun ps a b hab => isProtectedBy_mono hab (hself ps),
    fun ps a b hab => protectsNoLess_of_covers hab (hself ps),
    fun ps qs a hsub => protectsNoLess_of_covers (.refl a) fun p hp hsome =>
      ⟨p, hsub.subset hp, hsome, List.Subset.refl _⟩,
    fun earlier later p q a hsome hsub => protectsNoLess_of_covers (.refl a) ?_,
    fun ps qs a b hrearranged hab => protectsAlike_of_rearranged hrearranged hab⟩
  -- The changed pattern is covered by what is left of it, and all others by themselves.
  intro p' hp' hsome'
  rcases List.mem_append.1 hp' with hearlier | hlater
  · exact ⟨p', List.mem_append_left _ hearlier, hsome', List.Subset.refl _⟩
  · rcases List.mem_cons.1 hlater with rfl | hlater
    · exact ⟨q, List.mem_append_right _ List.mem_cons_self, hsome, hsub.subset⟩
    · exact ⟨p', List.mem_append_right _ (List.mem_cons_of_mem _ hlater), hsome',
        List.Subset.refl _⟩

/-! ### An administrator -/

namespace ProtectedPattern

/-- Accounts whose names ignore case. -/
def sampleType : ObjectType where
  id := ⟨.account, "default"⟩
  objectClass := { name := .qualified "ri" "account" }
  attributes := [{ AttributeDefinition.new (.qualified "ri" "uid") with
    matchingRule := some "stringIgnoreCase" }]

/-- The rule for names, and the default one for all else. -/
def caseRules : RuleLookup := fun name _ =>
  .ok (if name = some "stringIgnoreCase" then .stringIgnoreCase else .default)

def isRoot : ProtectedPattern := ⟨[⟨.qualified "ri" "uid", .str "root"⟩]⟩

def isAdmin : ProtectedPattern := ⟨[⟨.qualified "ri" "uid", .str "admin"⟩]⟩

def isSystemAdmin : ProtectedPattern :=
  ⟨[⟨.qualified "ri" "uid", .str "admin"⟩, ⟨.unqualified "ou", .str "system"⟩]⟩

def isAdminOfSystem : ProtectedPattern :=
  ⟨[⟨.unqualified "ou", .str "system"⟩, ⟨.qualified "ri" "uid", .str "admin"⟩]⟩

/-- The account of an administrator, before and after it is put into units. -/
def sampleAccount : AttributeValues := .ofList [(.qualified "ri" "uid", [.str "Admin"])]

def sampleMember : AttributeValues :=
  .ofList [(.qualified "ri" "uid", [.str "Admin"]),
    (.qualified "ri" "ou", [.str "system", .str "people"])]

def sampleMoved : AttributeValues :=
  .ofList [(.qualified "ri" "uid", [.str "Admin"]),
    (.qualified "ri" "ou", [.str "people", .str "system"])]

theorem protection_monotone_sample :
    sampleAccount.Within sampleMember ∧
      isProtectedUnder sampleMember (sampleType.guardedBy [isAdmin] []) caseRules = .ok true ∧
      isProtectedUnder sampleAccount (sampleType.guardedBy [isRoot, isAdmin] []) caseRules =
        .ok true ∧
      isProtectedUnder sampleMember (sampleType.guardedBy [isRoot, isAdmin] []) caseRules =
        .ok true ∧
      isProtectedUnder sampleMoved (sampleType.guardedBy [isAdminOfSystem, isRoot] []) caseRules =
        .ok true := by
  have hfinds (d : CompositeDefinition) (ps : List ProtectedPattern) : d.FindsRules caseRules ps :=
    CompositeDefinition.findsRules_of_total fun _ _ => ⟨_, rfl⟩
  have hwithin : sampleAccount.Within sampleMember := by decide +kernel
  have hrearranged : Rearranged [isRoot, isSystemAdmin] [isAdminOfSystem, isRoot] :=
    ⟨[isSystemAdmin, isRoot], .swap .., .cons (.swap ..) (.cons (.refl _) .nil)⟩
  have hreorders : sampleMember.Reorders sampleMoved :=
    .cons ⟨rfl, .swap ..⟩ (.cons ⟨rfl, .refl _⟩ .nil)
  obtain ⟨-, hvalues, hpatterns, hconditions, horder⟩ := protection_monotone
  refine ⟨hwithin, ?_, ?_, ?_, ?_⟩
  · exact ((hvalues [isAdmin] _ _ hwithin).underRules sampleType [] caseRules
      (by decide +kernel)).2 (hfinds _ _)
  · exact ((hpatterns [isAdmin] [isRoot, isAdmin] sampleAccount (by decide)).underRules sampleType
      [] caseRules (by decide +kernel)).2 (hfinds _ _)
  · exact ((hconditions [isRoot] [] isSystemAdmin isAdmin sampleMember (by decide)
      (by decide)).underRules sampleType [] caseRules (by decide +kernel)).2 (hfinds _ _)
  · rw [← (horder _ _ _ _ hrearranged hreorders).underRules sampleType [] caseRules (hfinds _ _)]
    decide +kernel

/-- With its last condition, a pattern loses all that it protects. -/
example : isProtectedBy [isRoot] (.ofList [(.unqualified "uid", [.str "root"])]) = true ∧
    isProtectedBy [⟨[]⟩] (.ofList [(.unqualified "uid", [.str "root"])]) = false := by
  decide +kernel

end ProtectedPattern

end Reconciler
