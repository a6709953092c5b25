/-
Reading what a query selects page by page.

The pages are cut one by one, each from all that is selected at its time.  That they fit together
rests on the order of the OIDs alone, so it does not matter in which order the repository lists what
it holds.

* `Query.paged`: the query for a page;
* `Store.pages`: page after page, up to the first that is empty.

Main statements:
* `Store.search_eq_of_perm`: sorted by OID, what is selected from any listing gives the same page;
* `Store.flatten_pages`: the pages from an offset on make up the rest of what is selected;
* `Store.pages_tile`: together the pages hold each selected resource once, in order.
-/
import Reconciler.Store
import Mathlib.Data.String.Basic

namespace Reconciler

/-- The query for the page of a size at an offset. -/
def Query.paged (q : Query) (offset size : Nat) : Query :=
  { q with offset := offset, maxSize := some size }

namespace Store

variable {s : Store} {q : Query} {size : Nat}

/-! ### One page -/

/-- A page is a window on what the query selects on all pages. -/
theorem search_paged (s : Store) (q : Query) (offset size : Nat) :
    s.search (q.paged offset size) = ((s.selected q).drop offset).take size := rfl

theorem lt_length_of_search_paged_ne_nil {offset : Nat}
    (h : s.search (q.paged offset size) ≠ []) : offset < (s.selected q).length := by
  rw [search_paged] at h
  by_contra hpast
  rw [List.drop_of_length_le (not_lt.1 hpast), List.take_nil] at h
  exact h rfl

/-- Only past the last selected resource a page is empty. -/
theorem drop_selected_of_search_paged_eq_nil (hsize : 0 < size) {offset : Nat}
    (h : s.search (q.paged offset size) = []) : (s.selected q).drop offset = [] := by
  rw [search_paged, List.take_eq_nil_iff] at h
  exact h.resolve_left hsize.ne'

theorem pairwise_values (s : Store) : s.objects.values.Pairwise fun a b => a.oid < b.oid := by
  refine List.pairwise_map.2 (s.objects.ascending.imp_of_mem fun {a b} ha hb hlt => ?_)
  rw [s.keyed a ha, s.keyed b hb]
  exact compare_lt_iff_lt.1 hlt

/-- What a query selects is listed in the order of the OIDs. -/
theorem pairwise_selected (s : Store) (q : Query) :
    (s.selected q).Pairwise fun a b => a.oid < b.oid :=
  s.pairwise_values.filter _

/-- However the resources are listed, to pick the selected ones, to sort them by OID and to cut the
page gives the same. -/
theorem search_eq_of_perm {listed : List Resource} (h : listed.Perm s.objects.values) (q : Query) :
    q.page ((listed.filter q.selects).mergeSort fun a b => a.oid ≤ b.oid) = s.search q := by
  have hperm : ((listed.filter q.selects).mergeSort fun a b => a.oid ≤ b.oid).Perm
      (s.selected q) := (List.mergeSort_perm ..).trans (h.filter _)
  have hsorted : ((listed.filter q.selects).mergeSort fun a b => a.oid ≤ b.oid).Pairwise
      fun a b => decide (a.oid ≤ b.oid) = true :=
    List.pairwise_mergeSort
      (fun a b c hab hbc => by simpa using le_trans (of_decide_eq_true hab) (of_decide_eq_true hbc))
      (fun a b => by simpa using le_total a.oid b.oid) _
  -- Two selected resources with one OID are the same, so there is one sorted list of them only.
  have heq := hperm.eq_of_pairwise (fun a b ha hb hab hba => ?_)
    (hsorted.imp of_decide_eq_true) ((s.pairwise_selected q).imp le_of_lt)
  · rw [heq]
    rfl
  · have ha := (mem_selected_iff.1 (hperm.subset ha)).1
    rw [le_antisymm hab hba, (mem_selected_iff.1 hb).1] at ha
    exact (Option.some.inj ha).symm

/-! ### All pages -/

/-- The pages from an offset on, up to the first that is empty. -/
def pages (s : Store) (q : Query) (hsize : 0 < size) (offset : Nat) : List (List Resource) :=
  if h : s.search (q.paged offset size) = [] then []
  else
    have : offset < (s.selected q).length := lt_length_of_search_paged_ne_nil h
    s.search (q.paged offset size) :: s.pages q hsize (offset + size)
termination_by (s.selected q).length - offset

/-- What is on the pages from an offset on is what the query selects from there on. -/
theorem flatten_pages (s : Store) (q : Query) (hsize : 0 < size) (offset : Nat) :
    (s.pages q hsize offset).flatten = (s.selected q).drop offset := by
  fun_induction s.pages q hsize offset with
  | case1 offset hempty => exact (drop_selected_of_search_paged_eq_nil hsize hempty).symm
  | case2 offset _ _ ih =>
    rw [List.flatten_cons, ih, search_paged, ← List.drop_drop]
    exact List.take_append_drop ..

/-- **Paging loses and repeats nothing**: page after page until one is empty, in pages of whatever
size, the selected resources come once each, in the order of their OIDs; and whichever page a query
asks for, it is counted how many there are on all of them.  Every page may be cut from a listing of
its own of what the repository holds. -/
theorem pages_tile (s : Store) (q : Query) (hsize : 0 < size) :
    (∀ r, r ∈ (s.pages q hsize 0).flatten ↔ s.find? r.oid = some r ∧ q.selects r = true) ∧
      (s.pages q hsize 0).flatten.Pairwise (fun a b => a.oid < b.oid) ∧
      (∀ offset maxSize, s.count { q with offset := offset, maxSize := maxSize } =
        (s.pages q hsize 0).flatten.length) ∧
      ∀ (listed : List Resource) (offset : Nat), listed.Perm s.objects.values →
        (q.paged offset size).page ((listed.filter q.selects).mergeSort fun a b => a.oid ≤ b.oid) =
          s.search (q.paged offset size) := by
  have hall : (s.pages q hsize 0).flatten = s.selected q := s.flatten_pages q hsize 0
  rw [hall]
  exact ⟨fun _ => mem_selected_iff, s.pairwise_selected q, fun _ _ => rfl,
    fun _ offset hlisted => search_eq_of_perm hlisted (q.paged offset size)⟩

/-- Three resources, one of them a template, that were not added in the order of their OIDs. -/
def samplePaged : Store :=
  ((empty.put { oid := "c", name := "Payroll" }).put
    { oid := "a", name := "Directory", configuration := { isTemplate := true } }).put
    { oid := "b", name := "Directory of staff" }

/-- Two of them fit on the first page of two; with the one on the second page they are all that is
counted, on whatever page. -/
theorem pages_tile_sample :
    0 < 2 ∧ (samplePaged.search (({} : Query).paged 0 2)).map Resource.oid = ["a", "b"] ∧
      (∀ h : 0 < 2, (samplePaged.pages {} h 0).flatten.length = 3) ∧
      samplePaged.count { offset := 7, maxSize := some 0 } = 3 := by
  obtain ⟨-, -, hcount, -⟩ := samplePaged.pages_tile {} Nat.two_pos
  have hthree : samplePaged.count { offset := 7, maxSize := some 0 } = 3 := by decide
  exact ⟨by decide, by decide, fun _ => (hcount 7 (some 0)).symm.trans hthree, hthree⟩

end Store

end Reconciler
