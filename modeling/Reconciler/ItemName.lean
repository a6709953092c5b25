/-
Names of attributes and object classes: a local part, optionally qualified by a scope.

A name is written `scope:local` or just `local`.  Two names agree when their local parts
agree and their scopes do, unless one of them has none; agreement is therefore symmetric and
reflexive but not transitive.

Main statements:
* `ItemName.ofText?_eq_ok_iff`: exactly which texts are names;
* `ItemName.toText_of_ofText?`: a name that was read is displayed as the trimmed text;
* `ItemName.wellFormed_iff`: the names that can be read are those that read back from their display;
* `ItemName.agrees_iff`, `agrees_comm`.

Design notes:
* Names are ordered by scope, unqualified ones first, and then by local part, so `a:x` comes before
  `a-b:x` although the display orders them the other way round.
* Parts are arbitrary strings; `WellFormed` singles out the names that a text can stand for.
-/
import Reconciler.Json.Codec
import Reconciler.Text.Blank
import Reconciler.Text.Cut

namespace Reconciler

/-- The name of an attribute or an object class. -/
structure ItemName where
  scope : Option String
  localPart : String
deriving DecidableEq, Repr, Inhabited

namespace ItemName

/-- The scope of items that the resource itself defines. -/
def resourceScope : String := "ri"

/-- The scope of items that the connector framework defines. -/
def frameworkScope : String := "icfs"

/-- A name without a scope. -/
def unqualified (localPart : String) : ItemName := ⟨none, localPart⟩

/-- A name with a scope. -/
def qualified (scope localPart : String) : ItemName := ⟨some scope, localPart⟩

/-- The display of a name. -/
def toText (n : ItemName) : String :=
  match n.scope with
  | some scope => scope ++ ":" ++ n.localPart
  | none => n.localPart

/-- Loose comparison: a missing scope agrees with every scope. -/
def agrees (a b : ItemName) : Bool :=
  a.localPart == b.localPart &&
    match a.scope, b.scope with
    | some s, some t => s == t
    | _, _ => true

/-- The item with exactly this name, or else the first whose name agrees with it. -/
def find? {α : Type} (nameOf : α → ItemName) (items : List α) (name : ItemName) : Option α :=
  items.find? (fun a => nameOf a == name) <|> items.find? (fun a => (nameOf a).agrees name)

/-! ### Order -/

instance : Ord ItemName where
  compare a b := (compare a.scope b.scope).then (compare a.localPart b.localPart)

theorem compare_def (a b : ItemName) :
    compare a b = (compare a.scope b.scope).then (compare a.localPart b.localPart) := rfl

instance : Std.LawfulEqOrd ItemName where
  compare_self := by simp [compare_def, Std.ReflOrd.compare_self]
  eq_of_compare {a b} h := by
    rw [compare_def, Ordering.then_eq_eq] at h
    obtain ⟨s, l⟩ := a
    obtain ⟨t, m⟩ := b
    simp only [Std.LawfulEqOrd.compare_eq_iff_eq] at h
    rw [h.1, h.2]

instance : Std.TransOrd ItemName :=
  inferInstanceAs <| Std.TransCmp <|
    compareLex (compareOn ItemName.scope) (compareOn ItemName.localPart)

/-! ### Reading -/

/-- Why a text is no name. -/
inductive Error where
  | empty
  | malformed (text : String)
deriving DecidableEq, Repr

/-- The wording of an error. -/
def Error.message : Error → String
  | .empty => "item name cannot be empty"
  | .malformed text => "malformed item name '" ++ text ++ "'"

/-- The name that trimmed characters stand for. -/
def ofChars? (cs : List Char) : Except Error ItemName :=
  if cs.isEmpty then .error .empty
  else
    match Text.cutFirst? ':' cs with
    | none => .ok (unqualified (String.ofList cs))
    | some (scope, localPart) =>
      if scope.isEmpty || localPart.isEmpty then .error (.malformed (String.ofList cs))
      else .ok (qualified (String.ofList scope) (String.ofList localPart))

/-- The name that a text stands for; blanks around it do not matter. -/
def ofText? (text : String) : Except Error ItemName := ofChars? (Text.trim text.toList)

/-- Names that a text can stand for. -/
def WellFormed (n : ItemName) : Prop := ofText? n.toText = .ok n

instance (n : ItemName) : Decidable n.WellFormed :=
  match h : ofText? n.toText with
  | .ok m =>
    if e : m = n then .isTrue (by rw [WellFormed, h, e]) else .isFalse (by simp [WellFormed, h, e])
  | .error e => .isFalse (by simp [WellFormed, h])

instance : TextKey ItemName where
  text := toText
  ofText? s := (ofText? s).toOption

instance : Codec ItemName where
  encode n := .str n.toText
  decode? j := j.text? >>= TextKey.ofText?

/-! ### Laws -/

theorem toText_toList (n : ItemName) :
    n.toText.toList = match n.scope with
      | some scope => scope.toList ++ ':' :: n.localPart.toList
      | none => n.localPart.toList := by
  unfold toText
  cases n.scope <;> simp

theorem ofChars?_eq_ok_iff {cs : List Char} {n : ItemName} :
    ofChars? cs = .ok n ↔ cs ≠ [] ∧ n.toText.toList = cs ∧
      match n.scope with
      | some scope => scope ≠ "" ∧ n.localPart ≠ "" ∧ ':' ∉ scope.toList
      | none => ':' ∉ n.localPart.toList := by
  rw [toText_toList]
  obtain ⟨scope, localPart⟩ := n
  unfold ofChars?
  by_cases hcs : cs = []
  · simp [hcs]
  simp only [List.isEmpty_iff, hcs, if_false, ne_eq, not_false_eq_true, true_and]
  cases hcut : Text.cutFirst? ':' cs with
  | none =>
    have hn := Text.cutFirst?_eq_none_iff.1 hcut
    simp only [unqualified, Except.ok.injEq, mk.injEq]
    cases scope with
    | none =>
      simp only [true_and]
      constructor
      · rintro rfl; simpa using hn
      · rintro ⟨rfl, -⟩; simp
    | some scope =>
      simp only [reduceCtorEq, false_and, false_iff, not_and]
      rintro rfl
      simp at hn
  | some p =>
    obtain ⟨a, b⟩ := p
    obtain ⟨rfl, ha⟩ := Text.cutFirst?_eq_some_iff.1 hcut
    simp only [Bool.or_eq_true, List.isEmpty_iff]
    cases scope with
    | none =>
      have : ∀ l : String, l.toList = a ++ ':' :: b → ':' ∈ l.toList := by
        intro l hl; simp [hl]
      constructor
      · intro h
        split at h <;> simp [qualified] at h
      · rintro ⟨h, hn⟩
        exact absurd (this _ h) hn
    | some scope =>
      simp only [qualified]
      constructor
      · intro h
        split at h
        · simp at h
        · next hne =>
          simp only [Except.ok.injEq, mk.injEq, Option.some.injEq] at h
          obtain ⟨rfl, rfl⟩ := h
          simp only [not_or] at hne
          refine ⟨by simp, ?_, ?_, by simpa using ha⟩
          · intro h; exact hne.1 (by simpa using congrArg String.toList h)
          · intro h; exact hne.2 (by simpa using congrArg String.toList h)
      · rintro ⟨h, hs, hl, hns⟩
        have hcut' : Text.cutFirst? ':' (a ++ ':' :: b) = some (scope.toList, localPart.toList) :=
          Text.cutFirst?_eq_some_iff.2 ⟨h.symm, hns⟩
        rw [hcut] at hcut'
        simp only [Option.some.injEq, Prod.mk.injEq] at hcut'
        obtain ⟨rfl, rfl⟩ := hcut'
        have h1 : scope.toList ≠ [] := fun e => hs (by simpa using congrArg String.ofList e)
        have h2 : localPart.toList ≠ [] := fun e => hl (by simpa using congrArg String.ofList e)
        simp [h1, h2]

theorem ofText?_eq_ok_iff {text : String} {n : ItemName} :
    ofText? text = .ok n ↔ Text.trim text.toList ≠ [] ∧ n.toText.toList = Text.trim text.toList ∧
      match n.scope with
      | some scope => scope ≠ "" ∧ n.localPart ≠ "" ∧ ':' ∉ scope.toList
      | none => ':' ∉ n.localPart.toList :=
  ofChars?_eq_ok_iff

theorem toText_of_ofText? {text : String} {n : ItemName} (h : ofText? text = .ok n) :
    n.toText = String.ofList (Text.trim text.toList) := by
  have := (ofText?_eq_ok_iff.1 h).2.1
  simpa using congrArg String.ofList this

/-- The names that can be read are those that read back from their display. -/
theorem wellFormed_iff {n : ItemName} : n.WellFormed ↔ ∃ text, ofText? text = .ok n := by
  refine ⟨fun h => ⟨_, h⟩, fun ⟨text, h⟩ => ?_⟩
  obtain ⟨h1, h2, h3⟩ := ofText?_eq_ok_iff.1 h
  refine ofText?_eq_ok_iff.2 ?_
  rw [h2, Text.trim_trim]
  exact ⟨h1, rfl, h3⟩

theorem agrees_iff {a b : ItemName} :
    a.agrees b = true ↔
      a.localPart = b.localPart ∧ (a.scope = b.scope ∨ a.scope = none ∨ b.scope = none) := by
  obtain ⟨s, l⟩ := a
  obtain ⟨t, m⟩ := b
  cases s <;> cases t <;> simp [agrees]

@[simp] theorem agrees_refl (a : ItemName) : a.agrees a = true := by simp [agrees_iff]

theorem agrees_comm (a b : ItemName) : a.agrees b = b.agrees a := by
  rw [Bool.eq_iff_iff, agrees_iff, agrees_iff]
  constructor <;> rintro ⟨h, h'⟩ <;> exact ⟨h.symm, by rcases h' with h' | h' | h' <;> simp [h']⟩

theorem mem_of_find? {α : Type} {nameOf : α → ItemName} {items : List α} {name : ItemName} {a : α}
    (h : find? nameOf items name = some a) : a ∈ items ∧ (nameOf a).agrees name = true := by
  unfold find? at h
  cases h1 : items.find? (fun a => nameOf a == name) with
  | some b =>
    rw [h1] at h
    cases h
    have he : (nameOf a == name) = true := by simpa using List.find?_some h1
    exact ⟨List.mem_of_find?_eq_some h1, by rw [eq_of_beq he]; simp⟩
  | none =>
    rw [h1] at h
    replace h : items.find? (fun a => (nameOf a).agrees name) = some a := h
    exact ⟨List.mem_of_find?_eq_some h, by simpa using List.find?_some h⟩

theorem find?_isSome_iff {α : Type} {nameOf : α → ItemName} {items : List α} {name : ItemName} :
    (find? nameOf items name).isSome ↔ ∃ a ∈ items, (nameOf a).agrees name = true := by
  constructor
  · intro h
    obtain ⟨a, ha⟩ := Option.isSome_iff_exists.1 h
    exact ⟨a, mem_of_find? ha⟩
  · rintro ⟨a, ha, h⟩
    unfold find?
    cases items.find? (fun a => nameOf a == name) with
    | some b => rfl
    | none =>
      show (items.find? (fun a => (nameOf a).agrees name)).isSome = true
      exact List.find?_isSome.2 ⟨a, ha, h⟩

/-- The first item that agrees, among changed items that keep their names. -/
theorem find?_agrees_map {α β : Type} {nameOf : α → ItemName} {nameOf' : β → ItemName} {f : α → β}
    (h : ∀ a, nameOf' (f a) = nameOf a) (items : List α) (name : ItemName) :
    (items.map f).find? (fun b => (nameOf' b).agrees name) =
      (items.find? fun a => (nameOf a).agrees name).map f := by
  have hagrees : ((fun b => (nameOf' b).agrees name) ∘ f) = fun a => (nameOf a).agrees name := by
    funext a
    simp only [Function.comp_apply, h]
  rw [List.find?_map, hagrees]

/-- Where just names count, changed items are found like the original ones. -/
theorem find?_map {α β : Type} {nameOf : α → ItemName} {nameOf' : β → ItemName} {f : α → β}
    (h : ∀ a, nameOf' (f a) = nameOf a) (items : List α) (name : ItemName) :
    find? nameOf' (items.map f) name = (find? nameOf items name).map f := by
  have hexact : ((fun b => nameOf' b == name) ∘ f) = fun a => nameOf a == name := by
    funext a
    simp only [Function.comp_apply, h]
  unfold find?
  rw [List.find?_map, hexact, find?_agrees_map h]
  cases items.find? fun a => nameOf a == name <;> rfl

end ItemName

end Reconciler
