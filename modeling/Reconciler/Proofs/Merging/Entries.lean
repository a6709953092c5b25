/-
Lists of entries merged by key.

Declared types are merged by kind and intent, and within a declaration the refinements by the names
of their attributes.  Every incoming entry is put into the list as the earlier ones have left it, so
nothing must get lost or doubled on the way.

* `KeyedMerge.PairsBy`: an incoming entry is merged into those with its key, and keeps its key;
* `KeyedMerge.Unites`: what a merged list has of both lists, and in which order;
* `TypeDeclaration.Orderly`: a declaration refines attributes by name, and none of them twice.

Main statements:
* `KeyedMerge.map_put`, `KeyedMerge.get?_put`: what one incoming entry changes;
* `KeyedMerge.nodup_merge_iff`: merging leaves the duplicates underneath, and no others;
* `KeyedMerge.unites_merge`: merging unites lists without duplicates;
* `KeyedMerge.Unites.eq`: there is only one list that unites two others;
* `TypeDeclaration.merge_unites`: declarations are united by kind and intent, and refinements by
  name.
-/
import Mathlib.Data.List.Nodup
import Reconciler.ObjectType.Declaration

namespace Reconciler

namespace KeyedMerge

variable {α κ : Type} [DecidableEq κ] {key : α → κ} {belongs : α → α → Bool} {combine : α → α → α}
variable {base top merged merged' : List α}

/-! ### One incoming entry -/

/-- An incoming entry belongs to the entries with its key, and has it still when it is merged. -/
structure PairsBy (key : α → κ) (belongs : α → α → Bool) (combine : α → α → α) (x : α) : Prop where
  belongs_eq : ∀ y, belongs y x = (key y == key x)
  key_combine : ∀ y, key (combine y x) = key x

/-- The first entry with a key. -/
def get? (key : α → κ) (k : κ) (xs : List α) : Option α := xs.find? fun a => key a == k

theorem get?_cons (k : κ) (x : α) (xs : List α) :
    get? key k (x :: xs) = if key x = k then some x else get? key k xs := by
  unfold get?
  by_cases h : key x = k
  · rw [if_pos h, List.find?_cons_of_pos (by simpa using h)]
  · rw [if_neg h, List.find?_cons_of_neg (by simpa using h)]

theorem get?_eq_none_iff {k : κ} {xs : List α} : get? key k xs = none ↔ k ∉ xs.map key := by
  simp [get?, List.find?_eq_none]

theorem mem_of_get? {k : κ} {x : α} {xs : List α} (h : get? key k xs = some x) :
    x ∈ xs ∧ key x = k :=
  ⟨List.mem_of_find?_eq_some h, by simpa using List.find?_some h⟩

theorem get?_of_mem {x : α} {xs : List α} (hdistinct : (xs.map key).Nodup) (hx : x ∈ xs) :
    get? key (key x) xs = some x := by
  cases h : get? key (key x) xs with
  | none => exact absurd (List.mem_map_of_mem hx) (get?_eq_none_iff.1 h)
  | some y =>
    obtain ⟨hy, hkey⟩ := mem_of_get? h
    rw [List.inj_on_of_nodup_map hdistinct hy hx hkey]

namespace PairsBy

variable {x : α}

/-- Entries keep their keys, and a new key comes last. -/
theorem map_put (h : PairsBy key belongs combine x) (xs : List α) :
    (put belongs combine x xs).map key =
      if key x ∈ xs.map key then xs.map key else xs.map key ++ [key x] := by
  induction xs with
  | nil => rfl
  | cons y rest ih =>
    rw [put, h.belongs_eq]
    by_cases heq : key y = key x
    · simp [heq, h.key_combine]
    · have hother : key x ≠ key y := fun he => heq he.symm
      simp only [beq_iff_eq, heq, if_false, List.map_cons, ih, List.mem_cons, hother, false_or]
      split <;> rfl

/-- The entry with the key of an incoming one is merged with it; all others stay. -/
theorem get?_put (h : PairsBy key belongs combine x) (k : κ) (xs : List α) :
    get? key k (put belongs combine x xs) =
      if key x = k then Option.merge combine (get? key k xs) (some x) else get? key k xs := by
  induction xs with
  | nil => rw [put, get?_cons]; rfl
  | cons y rest ih =>
    rw [put, h.belongs_eq]
    by_cases heq : key y = key x
    · simp only [heq, beq_self_eq_true, if_true, get?_cons, h.key_combine]
      split <;> rfl
    · simp only [beq_iff_eq, heq, if_false, get?_cons, ih]
      by_cases hy : key y = k
      · have hx : key x ≠ k := fun hx => heq (hy.trans hx.symm)
        simp [hy, hx]
      · simp [hy]

theorem nodup_put_iff (h : PairsBy key belongs combine x) (xs : List α) :
    ((put belongs combine x xs).map key).Nodup ↔ (xs.map key).Nodup := by
  rw [h.map_put]
  split
  · exact Iff.rfl
  · next hnew =>
    rw [List.nodup_append]
    refine ⟨And.left, fun hnodup => ⟨hnodup, List.pairwise_singleton _ _, fun k hk k' hk' => ?_⟩⟩
    rw [List.mem_singleton.1 hk']
    exact fun he => hnew (he ▸ hk)

end PairsBy

/-! ### All of them -/

/-- What is merged in can neither add a duplicate nor remove one. -/
theorem nodup_merge_iff (h : ∀ x ∈ top, PairsBy key belongs combine x) (base : List α) :
    ((merge belongs combine base top).map key).Nodup ↔ (base.map key).Nodup := by
  induction top generalizing base with
  | nil => exact Iff.rfl
  | cons x top ih =>
    obtain ⟨hx, htop⟩ := List.forall_mem_cons.1 h
    exact (ih htop _).trans (hx.nodup_put_iff base)

/-- The keys are those underneath, and after them the new ones. -/
theorem map_merge (h : ∀ x ∈ top, PairsBy key belongs combine x) (htop : (top.map key).Nodup)
    (base : List α) :
    (merge belongs combine base top).map key =
      base.map key ++ (top.map key).filter fun k => k ∉ base.map key := by
  induction top generalizing base with
  | nil => simp
  | cons x top ih =>
    obtain ⟨hx, hpairs⟩ := List.forall_mem_cons.1 h
    obtain ⟨hnew, hdistinct⟩ := List.nodup_cons.1 (List.map_cons ▸ htop)
    change (merge belongs combine (put belongs combine x base) top).map key = _
    rw [ih hpairs hdistinct, hx.map_put, List.map_cons]
    split
    · next hold => rw [List.filter_cons_of_neg (by simpa using hold)]
    · next hfresh =>
      rw [List.filter_cons_of_pos (by simpa using hfresh), List.append_assoc]
      refine congrArg _ (congrArg _ (List.filter_congr fun k hk => ?_))
      have hother : k ≠ key x := fun he => hnew (he ▸ hk)
      simp [hother]

/-- The entry of a key that both lists have is merged of both. -/
theorem get?_merge (h : ∀ x ∈ top, PairsBy key belongs combine x) (htop : (top.map key).Nodup)
    (base : List α) (k : κ) :
    get? key k (merge belongs combine base top) =
      Option.merge combine (get? key k base) (get? key k top) := by
  induction top generalizing base with
  | nil => simp [get?]
  | cons x top ih =>
    obtain ⟨hx, hpairs⟩ := List.forall_mem_cons.1 h
    obtain ⟨hnew, hdistinct⟩ := List.nodup_cons.1 (List.map_cons ▸ htop)
    change get? key k (merge belongs combine (put belongs combine x base) top) = _
    rw [ih hpairs hdistinct, hx.get?_put, get?_cons]
    split
    · next hk =>
      subst hk
      rw [get?_eq_none_iff.2 hnew]
      cases get? key (key x) base <;> rfl
    · rfl

/-- A list unites two others: no key comes twice; the keys are those underneath in their order, and
after them the new ones in theirs; and what both lists have under a key is combined, while what only
one of them has stays as it is. -/
structure Unites (key : α → κ) (combine : α → α → α) (base top merged : List α) : Prop where
  distinct : (merged.map key).Nodup
  keys : merged.map key = base.map key ++ (top.map key).filter fun k => k ∉ base.map key
  entry_eq : ∀ k, get? key k merged =
    Option.merge combine (get? key k base) (get? key k top)

theorem unites_merge (h : ∀ x ∈ top, PairsBy key belongs combine x) (hbase : (base.map key).Nodup)
    (htop : (top.map key).Nodup) :
    Unites key combine base top (merge belongs combine base top) where
  distinct := (nodup_merge_iff h base).2 hbase
  keys := map_merge h htop base
  entry_eq := get?_merge h htop base

/-- An entry of a list that unites two others is an entry of one of them, or combined of both. -/
theorem Unites.mem_cases (h : Unites key combine base top merged) {x : α} (hx : x ∈ merged) :
    x ∈ base ∨ x ∈ top ∨ ∃ y ∈ base, ∃ z ∈ top, combine y z = x := by
  have hentry := h.entry_eq (key x)
  rw [get?_of_mem h.distinct hx] at hentry
  cases hbase : get? key (key x) base with
  | none =>
    rw [hbase, Option.merge_none_left] at hentry
    exact .inr (.inl (mem_of_get? hentry.symm).1)
  | some y =>
    cases htop : get? key (key x) top with
    | none =>
      rw [hbase, htop] at hentry
      cases hentry
      exact .inl (mem_of_get? hbase).1
    | some z =>
      rw [hbase, htop] at hentry
      cases hentry
      exact .inr (.inr ⟨y, (mem_of_get? hbase).1, z, (mem_of_get? htop).1, rfl⟩)

/-- Lists without duplicates are the same if they have the same keys in the same order and the same
entries under them. -/
theorem eq_of_get?_eq {xs ys : List α} (hdistinct : (xs.map key).Nodup)
    (hkeys : xs.map key = ys.map key) (hentries : ∀ k, get? key k xs = get? key k ys) :
    xs = ys := by
  induction xs generalizing ys with
  | nil => exact (List.map_eq_nil_iff.1 hkeys.symm).symm
  | cons x xs ih =>
    cases ys with
    | nil => cases hkeys
    | cons y ys =>
      obtain ⟨hnew, hrest⟩ := List.nodup_cons.1 (List.map_cons ▸ hdistinct)
      obtain ⟨hkey, hkeys⟩ := List.cons.inj hkeys
      have hhead := hentries (key x)
      rw [get?_cons, get?_cons, if_pos rfl, if_pos hkey.symm, Option.some.injEq] at hhead
      refine List.cons_eq_cons.2 ⟨hhead, ih hrest hkeys fun k => ?_⟩
      by_cases hk : key x = k
      · subst hk
        rw [get?_eq_none_iff.2 hnew, get?_eq_none_iff.2 (hkeys ▸ hnew)]
      · have hsame := hentries k
        rwa [get?_cons, get?_cons, if_neg hk, if_neg (hkey ▸ hk)] at hsame

/-- There is only one list that unites two others. -/
theorem Unites.eq (h : Unites key combine base top merged)
    (h' : Unites key combine base top merged') : merged = merged' :=
  eq_of_get?_eq h.distinct (h.keys.trans h'.keys.symm) fun k =>
    (h.entry_eq k).trans (h'.entry_eq k).symm

end KeyedMerge

/-! ### Declarations and refinements -/

open KeyedMerge (PairsBy Unites)

namespace AttributeRefinement

/-- Refinements of one attribute are merged, and keep its name. -/
theorem pairsBy_name {r : AttributeRefinement} (h : r.name ≠ none) :
    PairsBy name TypeDeclaration.refinesSame mergedWith r where
  belongs_eq base := by
    obtain ⟨name, hname⟩ := Option.ne_none_iff_exists'.1 h
    unfold TypeDeclaration.refinesSame
    rw [hname]
    cases base.name <;> simp
  key_combine base := by
    obtain ⟨name, hname⟩ := Option.ne_none_iff_exists'.1 h
    simp [mergedWith, hname]

end AttributeRefinement

namespace TypeDeclaration

variable {base top : List TypeDeclaration} {d e : TypeDeclaration}

theorem pairsBy_id (d : TypeDeclaration) : PairsBy id sameId mergedWith d where
  belongs_eq _ := rfl
  key_combine base := mergedWith_id base d

theorem nodup_merge_iff (base top : List TypeDeclaration) :
    ((merge base top).map id).Nodup ↔ (base.map id).Nodup :=
  KeyedMerge.nodup_merge_iff (fun d _ => pairsBy_id d) base

/-- A declaration refines attributes by name, and none of them twice. -/
structure Orderly (d : TypeDeclaration) : Prop where
  named : ∀ r ∈ d.attributes, r.name ≠ none
  distinct : (d.attributes.map AttributeRefinement.name).Nodup

instance (d : TypeDeclaration) : Decidable d.Orderly :=
  decidable_of_iff ((∀ r ∈ d.attributes, r.name ≠ none) ∧
      (d.attributes.map AttributeRefinement.name).Nodup)
    ⟨fun ⟨named, distinct⟩ => ⟨named, distinct⟩, fun h => ⟨h.named, h.distinct⟩⟩

theorem unites_declarations (hbase : (base.map id).Nodup) (htop : (top.map id).Nodup) :
    Unites id mergedWith base top (merge base top) :=
  KeyedMerge.unites_merge (fun d _ => pairsBy_id d) hbase htop

theorem unites_attributes (hd : d.Orderly) (he : e.Orderly) :
    Unites AttributeRefinement.name AttributeRefinement.mergedWith d.attributes e.attributes
      (d.mergedWith e).attributes :=
  KeyedMerge.unites_merge (fun r hr => AttributeRefinement.pairsBy_name (he.named r hr)) hd.distinct
    he.distinct

theorem Orderly.mergedWith (hd : d.Orderly) (he : e.Orderly) : (d.mergedWith e).Orderly where
  distinct := (unites_attributes hd he).distinct
  named r hr := by
    rcases (unites_attributes hd he).mem_cases hr with hbelow | hown | ⟨below, -, own, hown, rfl⟩
    · exact hd.named r hbelow
    · exact he.named r hown
    · rw [(AttributeRefinement.pairsBy_name (he.named own hown)).key_combine below]
      exact he.named own hown

/-- **Merging declarations loses nothing and doubles nothing**, if no kind and intent is declared
twice on either side: the merged list unites both lists by kind and intent.  And where a declaration
is merged of two that refine attributes by name and none of them twice, its refinements unite
theirs. -/
theorem merge_unites (hbase : (base.map id).Nodup) (htop : (top.map id).Nodup) :
    Unites id mergedWith base top (merge base top) ∧
      ∀ d ∈ base, ∀ e ∈ top, d.id = e.id → d.mergedWith e ∈ merge base top ∧
        (d.Orderly → e.Orderly →
          Unites AttributeRefinement.name AttributeRefinement.mergedWith d.attributes e.attributes
            (d.mergedWith e).attributes) := by
  have hunites := unites_declarations hbase htop
  refine ⟨hunites, fun d hd e he hid => ⟨?_, fun hd he => unites_attributes hd he⟩⟩
  have hentry := hunites.entry_eq d.id
  rw [KeyedMerge.get?_of_mem hbase hd, hid, KeyedMerge.get?_of_mem htop he] at hentry
  exact (KeyedMerge.mem_of_get? hentry).1

/-! ### A template and a resource -/

/-- A template with two kinds of accounts. -/
def sampleBelow : List TypeDeclaration := [
  { kind := .account, intent := "default"
    attributes := [{ name := some (.unqualified "mail"), displayName := some "Mail" }] },
  { kind := .account, intent := "admin" }]

/-- A resource that refines one of them further and adds groups. -/
def sampleAbove : List TypeDeclaration := [
  { kind := .entitlement, intent := "group" },
  { kind := .account, intent := "default"
    attributes := [
      { name := some (.unqualified "cn") },
      { name := some (.unqualified "mail"), displayName := some "E-mail" }] }]

theorem merge_unites_sample :
    (sampleBelow.map id).Nodup ∧ (sampleAbove.map id).Nodup ∧
      (merge sampleBelow sampleAbove).map id =
        [⟨.account, "default"⟩, ⟨.account, "admin"⟩, ⟨.entitlement, "group"⟩] := by
  have hbelow : (sampleBelow.map id).Nodup := by decide
  have habove : (sampleAbove.map id).Nodup := by decide
  refine ⟨hbelow, habove, (merge_unites hbelow habove).1.keys.trans ?_⟩
  decide

end TypeDeclaration

end Reconciler
