/-
Deltas: modifications of the items of a shadow.

* `ItemPath`: the items that a shadow has, and their paths as text;
* `ItemDelta`: a modification of one item, either by replacing its values or by deleting some and
  adding some;
* `Delta`: modifications in the order in which they apply; `Delta.appliedTo` applies them.

Main statements:
* `ItemPath.ofText?_toText`: paths of readable names read back from their text;
* `ItemDelta.modified_of_isEmpty`: an empty modification keeps values as they are;
* `ItemDelta.valuesAt_applyTo`: what a modification of an attribute does to the stored values.

Design notes:
* An item with a single value takes the first of the values that a modification leaves; an attribute
  without values is not stored.
* Values that cannot be read for an item do not count, except that `isPresent` then stays.
-/
import Reconciler.Shadow

namespace Reconciler

/-! ### Paths -/

/-- An item of a shadow. -/
inductive ItemPath where
  | attributeValues (name : ItemName)
  | name
  | auxiliaryClasses
  | presence
  | production
  | activation (property : ActivationProperty)
  | cachingMetadata
deriving DecidableEq, Repr, Inhabited

namespace ItemPath

/-- What the paths of attributes start with. -/
def attributesFolder : String := "attributes/"

/-- The items that are known by a fixed path, with it. -/
def fixed : List (String × ItemPath) :=
  [("name", name), ("auxiliaryObjectClass", auxiliaryClasses), ("exists", presence),
    ("production", production), ("cachingMetadata", cachingMetadata)] ++
  ActivationProperty.all.map fun p => ("activation/" ++ p.label, activation p)

/-- The path of an item. -/
def toText : ItemPath → String
  | attributeValues item => attributesFolder ++ item.toText
  | name => "name"
  | auxiliaryClasses => "auxiliaryObjectClass"
  | presence => "exists"
  | production => "production"
  | activation p => "activation/" ++ p.label
  | cachingMetadata => "cachingMetadata"

/-- The item with a path. -/
def ofText? (text : String) : Option ItemPath :=
  let folder := attributesFolder.toList
  if folder.isPrefixOf text.toList then
    (ItemName.ofText? (String.ofList (text.toList.drop folder.length))).toOption.map attributeValues
  else Assoc.lookup text fixed

/-- Paths read back from their text; attributes must have names that a text can stand for. -/
theorem ofText?_toText {p : ItemPath} (h : ∀ item, p = attributeValues item → item.WellFormed) :
    ofText? p.toText = some p := by
  cases p with
  | attributeValues item =>
    have := h item rfl
    rw [ItemName.WellFormed] at this
    simp [ofText?, toText, List.isPrefixOf_iff_prefix, this, Except.toOption]
  | activation p => cases p <;> decide +kernel
  | _ => decide +kernel

/-- A path is written as its text. -/
instance : Codec ItemPath where
  encode p := .str p.toText
  decode? j := j.text? >>= ofText?

end ItemPath

/-! ### Modifications -/

/-- A modification of one item. -/
structure ItemDelta where
  path : ItemPath
  /-- Values to add; without effect if there is a replacement. -/
  add : List Json := []
  /-- Values to delete; without effect if there is a replacement. -/
  delete : List Json := []
  /-- The values to have afterwards. -/
  replace : Option (List Json) := none
deriving DecidableEq, Inhabited

namespace ItemDelta

instance : Codec ItemDelta where
  encode m := .record [
    ("path", encode m.path), ("add", encode m.add), ("delete", encode m.delete),
    ("replace", encode m.replace)]
  decode? j := do
    let row ← Row.named? j
    return {
      path := ← row.required "path"
      add := ← row.orElse "add" []
      delete := ← row.orElse "delete" []
      replace := ← row.optional "replace" }

/-- Whether nothing is modified. -/
def isEmpty (m : ItemDelta) : Bool := m.add.isEmpty && m.delete.isEmpty && m.replace.isNone

/-- Whether the values are replaced as a whole. -/
def isReplace (m : ItemDelta) : Bool := m.replace.isSome

/-- Values with one more at the end, unless it is there. -/
def addValue (values : List Json) (v : Json) : List Json :=
  if v.isIn values then values else values ++ [v]

/-- The values of an item after the modification. -/
def modified (m : ItemDelta) (current : List Json) : List Json :=
  match m.replace with
  | some values => values
  | none => m.add.foldl addValue (current.filter fun v => !v.isIn m.delete)

/-- The first value after the modification. -/
def firstOf (m : ItemDelta) (current : List Json) : Option Json := (m.modified current).head?

theorem modified_of_isEmpty {m : ItemDelta} (h : m.isEmpty = true) (current : List Json) :
    m.modified current = current := by
  simp only [isEmpty, Bool.and_eq_true, List.isEmpty_iff, Option.isNone_iff_eq_none] at h
  obtain ⟨⟨ha, hd⟩, hr⟩ := h
  have : ∀ v : Json, v.isIn [] = false := fun v => rfl
  simp [modified, ha, hd, hr, this]

/-- The attributes with the values of one set; without values it is dropped. -/
def setValues (attributes : AttributeValues) (name : ItemName) (values : List Json) :
    AttributeValues :=
  if values.isEmpty then attributes.erase name else attributes.insert name values

theorem getD_setValues (attributes : AttributeValues) (name other : ItemName) (values : List Json) :
    ((setValues attributes name values).get? other).getD [] =
      if other = name then values else (attributes.get? other).getD [] := by
  unfold setValues
  by_cases h : values = []
  · subst h
    simp only [List.isEmpty_nil, if_true, SortedMap.get?_erase]
    split <;> rfl
  · have : values.isEmpty = false := by simpa using h
    simp only [this, Bool.false_eq_true, if_false, SortedMap.get?_insert]
    split <;> rfl

/-- The shadow after the modification. -/
def applyTo (m : ItemDelta) (s : Shadow) : Shadow :=
  match m.path with
  | .attributeValues name =>
    { s with attributes := setValues s.attributes name (m.modified (s.valuesAt name)) }
  | .name => { s with name := m.firstOf (s.name.toList.map encode) >>= decode? }
  | .auxiliaryClasses =>
    { s with
      auxiliaryClasses :=
        .ofList ((m.modified (s.auxiliaryClasses.toList.map encode)).filterMap decode?) }
  | .presence =>
    { s with isPresent := (m.firstOf [encode s.isPresent] >>= decode?).getD s.isPresent }
  | .production => { s with production := m.firstOf (s.production.toList.map encode) >>= decode? }
  | .activation p =>
    { s with activation := p.set s.activation (m.firstOf (p.valuesOf s.activation)) }
  | .cachingMetadata =>
    { s with cachingMetadata := m.firstOf (s.cachingMetadata.toList.map encode) >>= decode? }

/-- What a modification of an attribute leaves under every name. -/
theorem valuesAt_applyTo {m : ItemDelta} {name : ItemName} (h : m.path = .attributeValues name)
    (s : Shadow) (other : ItemName) :
    (m.applyTo s).valuesAt other =
      if other = name then m.modified (s.valuesAt name) else s.valuesAt other := by
  simp only [applyTo, h, Shadow.valuesAt]
  exact getD_setValues ..

end ItemDelta

/-- Modifications in the order in which they apply. -/
abbrev Delta := List ItemDelta

namespace Delta

/-- The delta with one more modification at the end, unless that is empty. -/
def push (d : Delta) (m : ItemDelta) : Delta := if m.isEmpty then d else d ++ [m]

/-- The first modification of exactly this item. -/
def find? (d : Delta) (path : ItemPath) : Option ItemDelta := List.find? (·.path == path) d

/-- The first modification of an attribute whose name agrees with this one. -/
def findAgreeing? (d : Delta) (name : ItemName) : Option ItemDelta :=
  List.find? (fun m => match m.path with | .attributeValues n => n.agrees name | _ => false) d

/-- The modifications of attributes. -/
def attributeChanges (d : Delta) : Delta :=
  d.filter fun m => match m.path with | .attributeValues _ => true | _ => false

/-- The shadow after all modifications. -/
def appliedTo (d : Delta) (s : Shadow) : Shadow := d.foldl (fun s m => m.applyTo s) s

@[simp] theorem appliedTo_nil (s : Shadow) : appliedTo [] s = s := rfl

@[simp] theorem appliedTo_append (d e : Delta) (s : Shadow) :
    appliedTo (d ++ e) s = appliedTo e (appliedTo d s) := by
  simp [appliedTo, List.foldl_append]

end Delta

end Reconciler
