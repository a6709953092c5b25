/-
JSON values.

Whole numbers and doubles are different values, members of an object are listed in ascending order
of their names, and text is any string.

Main statements:
* `Json` has decidable equality: two values are equal when they are written alike;
* `Json.same`: two values are the same when they differ at most in the signs of zeros, and
  `same_refl`, `same_symm`, `same_trans` make it an equivalence;
* `get?_record`: a record built from named members answers look-ups by the last member of a name.

Design notes:
* Attribute values are compared by `same`, not by equality, since `0.0` and `-0.0` are one number.
* Members are an entry list in the sense of `Reconciler.Assoc`; its laws need no premise about their
  order.
-/
import Reconciler.Assoc
import Reconciler.Binary64

namespace Reconciler

/-- A JSON value. -/
inductive Json where
  | null
  | bool (b : Bool)
  | int (n : Int)
  | float (x : Binary64)
  | str (s : String)
  | arr (items : List Json)
  | obj (members : List (String × Json))
deriving Inhabited

namespace Json

/-! ### Decidable equality -/

mutual

/-- Decides whether two values are equal. -/
def decEq : (a b : Json) → Decidable (a = b)
  | .null, .null => .isTrue rfl
  | .bool a, .bool b =>
    if h : a = b then .isTrue (h ▸ rfl) else .isFalse fun e => h (by cases e; rfl)
  | .int a, .int b =>
    if h : a = b then .isTrue (h ▸ rfl) else .isFalse fun e => h (by cases e; rfl)
  | .float a, .float b =>
    if h : a = b then .isTrue (h ▸ rfl) else .isFalse fun e => h (by cases e; rfl)
  | .str a, .str b =>
    if h : a = b then .isTrue (h ▸ rfl) else .isFalse fun e => h (by cases e; rfl)
  | .arr a, .arr b =>
    match decEqItems a b with
    | .isTrue h => .isTrue (h ▸ rfl)
    | .isFalse h => .isFalse fun e => h (by cases e; rfl)
  | .obj a, .obj b =>
    match decEqMembers a b with
    | .isTrue h => .isTrue (h ▸ rfl)
    | .isFalse h => .isFalse fun e => h (by cases e; rfl)
  | .null, .bool _ | .null, .int _ | .null, .float _ | .null, .str _ | .null, .arr _ | .null, .obj _
  | .bool _, .null | .bool _, .int _ | .bool _, .float _ | .bool _, .str _ | .bool _, .arr _
  | .bool _, .obj _
  | .int _, .null | .int _, .bool _ | .int _, .float _ | .int _, .str _ | .int _, .arr _
  | .int _, .obj _
  | .float _, .null | .float _, .bool _ | .float _, .int _ | .float _, .str _ | .float _, .arr _
  | .float _, .obj _
  | .str _, .null | .str _, .bool _ | .str _, .int _ | .str _, .float _ | .str _, .arr _
  | .str _, .obj _
  | .arr _, .null | .arr _, .bool _ | .arr _, .int _ | .arr _, .float _ | .arr _, .str _
  | .arr _, .obj _
  | .obj _, .null | .obj _, .bool _ | .obj _, .int _ | .obj _, .float _ | .obj _, .str _
  | .obj _, .arr _ => .isFalse fun e => nomatch e

/-- Decides whether two lists of values are equal. -/
def decEqItems : (as bs : List Json) → Decidable (as = bs)
  | [], [] => .isTrue rfl
  | [], _ :: _ => .isFalse fun e => nomatch e
  | _ :: _, [] => .isFalse fun e => nomatch e
  | a :: as, b :: bs =>
    match decEq a b, decEqItems as bs with
    | .isTrue h, .isTrue hs => .isTrue (h ▸ hs ▸ rfl)
    | .isFalse h, _ => .isFalse fun e => h (by cases e; rfl)
    | _, .isFalse h => .isFalse fun e => h (by cases e; rfl)

/-- Decides whether two lists of members are equal. -/
def decEqMembers : (as bs : List (String × Json)) → Decidable (as = bs)
  | [], [] => .isTrue rfl
  | [], _ :: _ => .isFalse fun e => nomatch e
  | _ :: _, [] => .isFalse fun e => nomatch e
  | (k, a) :: as, (l, b) :: bs =>
    if hk : k = l then
      match decEq a b, decEqMembers as bs with
      | .isTrue h, .isTrue hs => .isTrue (hk ▸ h ▸ hs ▸ rfl)
      | .isFalse h, _ => .isFalse fun e => h (by cases e; rfl)
      | _, .isFalse h => .isFalse fun e => h (by cases e; rfl)
    else .isFalse fun e => hk (by cases e; rfl)

end

instance : DecidableEq Json := decEq

/-! ### Sameness of values -/

mutual

/-- The value with every zero taken as positive. -/
def unsigned : Json → Json
  | .float x => .float x.unsigned
  | .arr items => .arr (unsignedItems items)
  | .obj members => .obj (unsignedMembers members)
  | .null => .null
  | .bool b => .bool b
  | .int n => .int n
  | .str s => .str s

/-- The items with every zero taken as positive. -/
def unsignedItems : List Json → List Json
  | [] => []
  | a :: as => unsigned a :: unsignedItems as

/-- The members with every zero taken as positive. -/
def unsignedMembers : List (String × Json) → List (String × Json)
  | [] => []
  | (k, a) :: as => (k, unsigned a) :: unsignedMembers as

end

/-- Whether two values differ at most in the signs of zeros. -/
def same (a b : Json) : Bool := decide (a.unsigned = b.unsigned)

/-- Whether a list holds a value that is the same as this one. -/
def isIn (v : Json) (values : List Json) : Bool := values.any v.same

@[simp] theorem same_refl (a : Json) : a.same a = true := by simp [same]

theorem same_symm {a b : Json} (h : a.same b = true) : b.same a = true := by
  simp only [same, decide_eq_true_eq] at h ⊢
  exact h.symm

theorem same_trans {a b c : Json} (h : a.same b = true) (h' : b.same c = true) :
    a.same c = true := by
  simp only [same, decide_eq_true_eq] at h h' ⊢
  exact h.trans h'

theorem same_iff {a b : Json} : a.same b = true ↔ a.unsigned = b.unsigned := by simp [same]

/-- On text, sameness is equality. -/
theorem same_str (s t : String) : (str s).same (str t) = decide (s = t) := by
  simp [same, unsigned]

theorem isIn_iff {v : Json} {values : List Json} :
    v.isIn values = true ↔ ∃ w ∈ values, v.same w = true := by
  simp [isIn]

/-! ### Nesting -/

mutual

/-- How deep a value is nested. -/
def height : Json → Nat
  | .arr items => heightItems items + 1
  | .obj members => heightMembers members + 1
  | .null | .bool _ | .int _ | .float _ | .str _ => 0

/-- How deep the deepest item is nested. -/
def heightItems : List Json → Nat
  | [] => 0
  | a :: as => max (height a) (heightItems as)

/-- How deep the deepest member is nested. -/
def heightMembers : List (String × Json) → Nat
  | [] => 0
  | (_, a) :: as => max (height a) (heightMembers as)

end

/-! ### Members -/

/-- The member of an object; `none` for other values. -/
def get? (name : String) : Json → Option Json
  | .obj members => Assoc.lookup name members
  | _ => none

/-- The object with these members; of two with one name the later stays. -/
def record (members : List (String × Json)) : Json := .obj (Assoc.ofList members)

/-- The text of a string value. -/
def text? : Json → Option String
  | .str s => some s
  | _ => none

/-- The truth value of a boolean value. -/
def bool? : Json → Option Bool
  | .bool b => some b
  | _ => none

theorem get?_record (name : String) (members : List (String × Json)) :
    (record members).get? name = Assoc.lookup name members.reverse := by
  simp only [get?, record]
  exact (Assoc.lookup_overlay name [] members).trans (by simp)

end Json

end Reconciler
