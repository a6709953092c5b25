/-
Connector settings merged, along the paths into them.

Settings are objects within objects.  Where both sides have an object the objects are merged, and
everywhere else what is laid over stands; so it depends on both sides, name by name, how far down
merging goes.

* `Json.valueAt?`: what a value holds at a path of names;
* `Json.Tidy`: the members of objects are listed in order, as they are when they are read;
* `Json.Blocks`: a value holds something else than an object on the way along a path.

Main statements:
* `Json.get?_mergeOver`: a member of merged objects is merged of members;
* `Json.valueAt?_mergeOver_of_some`, `valueAt?_mergeOver_of_none`, `valueAt?_mergeOver_of_blocks`:
  what merged values hold at a path;
* `Json.Tidy.mergeOver`, `Json.Tidy.mergeOver_again`: merged values are tidy, and merging a second
  time changes nothing;
* `Configuration.valueAt?_mergedOver`: connector settings are merged leaf by leaf.

Design notes:
* Lists are never merged, so what they hold need not be tidy.
-/
import Mathlib.Data.List.Infix
import Reconciler.Configuration

namespace Reconciler

namespace Json

variable {name : String} {path : List String} {top v w : Json} {base : Option Json}

/-! ### Paths -/

/-- Whether a value is an object. -/
def isObject : Json → Bool
  | .obj _ => true
  | _ => false

/-- What a value holds at a path of names. -/
def valueAt? : Json → List String → Option Json
  | v, [] => some v
  | v, name :: path => (v.get? name).bind fun w => w.valueAt? path

@[simp] theorem valueAt?_nil (v : Json) : v.valueAt? [] = some v := rfl

theorem valueAt?_cons (v : Json) (name : String) (path : List String) :
    v.valueAt? (name :: path) = (v.get? name).bind (valueAt? · path) := rfl

theorem isObject_of_get? (h : v.get? name = some w) : v.isObject = true := by
  cases v <;> first | rfl | cases h

theorem get?_of_not_isObject (h : v.isObject = false) (name : String) : v.get? name = none := by
  cases hget : v.get? name with
  | none => rfl
  | some w =>
    rw [isObject_of_get? hget] at h
    cases h

/-- Somewhere on the way along a path, but not at its end, the value holds something else than an
object. -/
def Blocks (v : Json) (path : List String) : Prop :=
  ∃ front, front <+: path ∧ front ≠ path ∧ ∃ w, v.valueAt? front = some w ∧ w.isObject = false

theorem blocks_cons_iff :
    v.Blocks (name :: path) ↔
      v.isObject = false ∨ ∃ w, v.get? name = some w ∧ w.Blocks path := by
  constructor
  · rintro ⟨_ | ⟨first, front⟩, hprefix, hne, w, hw, hobject⟩
    · cases hw
      exact .inl hobject
    · obtain ⟨rfl, hfront⟩ := List.cons_prefix_cons.1 hprefix
      obtain ⟨u, hu, hrest⟩ := Option.bind_eq_some_iff.1 hw
      exact .inr ⟨u, hu, front, hfront, fun he => hne (he ▸ rfl), w, hrest, hobject⟩
  · rintro (hobject | ⟨u, hu, front, hfront, hne, w, hw, hobject⟩)
    · exact ⟨[], List.nil_prefix, (List.cons_ne_nil _ _).symm, v, rfl, hobject⟩
    · refine ⟨name :: front, List.cons_prefix_cons.2 ⟨rfl, hfront⟩,
        fun he => hne (List.cons.inj he).2, w, ?_, hobject⟩
      rw [valueAt?_cons, hu]
      exact hw

/-! ### Objects in order -/

/-- Members of objects are listed in ascending order of their names, and so are those of objects
within objects. -/
inductive Tidy : Json → Prop where
  | object {members : List (String × Json)} (ascending : Assoc.Ascending members)
    (tidy : ∀ e ∈ members, Tidy e.2) : Tidy (.obj members)
  | other {v : Json} (h : v.isObject = false) : Tidy v

theorem Tidy.ascending {members : List (String × Json)} (h : Tidy (.obj members)) :
    Assoc.Ascending members := by
  cases h with
  | object ascending => exact ascending
  | other h => cases h

theorem Tidy.of_mem {members : List (String × Json)} (h : Tidy (.obj members))
    {e : String × Json} (he : e ∈ members) : e.2.Tidy := by
  cases h with
  | object _ tidy => exact tidy e he
  | other h => cases h

theorem Tidy.get? (h : v.Tidy) (hw : v.get? name = some w) : w.Tidy := by
  cases v with
  | obj members => exact h.of_mem (Assoc.mem_of_lookup hw)
  | _ => cases hw

/-! ### Merged values -/

theorem mergeOver_of_not_isObject (h : top.isObject = false) (base : Option Json) :
    top.mergeOver base = top := by
  cases top <;> first | rfl | cases h

@[simp] theorem mergeOver_none (top : Json) : top.mergeOver none = top := by
  cases top <;> rfl

theorem mergeOver_obj (incoming existing : List (String × Json)) :
    (Json.obj incoming).mergeOver (some (.obj existing)) =
      .obj (mergeMembers incoming existing) := by
  rw [mergeOver]

theorem mergeOver_of_base (h : w.isObject = false) (top : Json) : top.mergeOver (some w) = top := by
  cases top <;> cases w <;> first | rfl | cases h

/-- A member of merged objects is merged of members, or is the one that there is. -/
theorem get?_mergeOver (h : top.Tidy) (hobject : top.isObject = true) (base : Option Json)
    (name : String) :
    (top.mergeOver base).get? name =
      match top.get? name with
      | some v => some (v.mergeOver (base.bind (get? name)))
      | none => base.bind (get? name) := by
  have hunmerged (hnone : base.bind (get? name) = none) (hmerged : top.mergeOver base = top) :
      (top.mergeOver base).get? name =
        match top.get? name with
        | some v => some (v.mergeOver (base.bind (get? name)))
        | none => base.bind (get? name) := by
    rw [hmerged, hnone]
    cases top.get? name with
    | none => rfl
    | some v => exact congrArg some (mergeOver_none v).symm
  cases base with
  | none => exact hunmerged rfl (mergeOver_none top)
  | some w =>
    cases hw : w.isObject with
    | false => exact hunmerged (get?_of_not_isObject hw name) (mergeOver_of_base hw top)
    | true =>
      obtain ⟨incoming, rfl⟩ : ∃ incoming, top = .obj incoming := by
        cases top <;> first | exact ⟨_, rfl⟩ | cases hobject
      obtain ⟨existing, rfl⟩ : ∃ existing, w = .obj existing := by
        cases w <;> first | exact ⟨_, rfl⟩ | cases hw
      rw [mergeOver_obj]
      exact lookup_mergeMembers h.ascending

/-- Where the value on top holds something, that is laid over what there is. -/
theorem valueAt?_mergeOver_of_some (h : top.Tidy) (base : Option Json)
    (hv : top.valueAt? path = some v) :
    (top.mergeOver base).valueAt? path = some (v.mergeOver (base.bind (valueAt? · path))) := by
  induction path generalizing top base with
  | nil =>
    cases hv
    cases base <;> rfl
  | cons name path ih =>
    obtain ⟨w, hw, hrest⟩ := Option.bind_eq_some_iff.1 hv
    rw [valueAt?_cons, get?_mergeOver h (isObject_of_get? hw), hw]
    change (w.mergeOver _).valueAt? path = _
    rw [ih (h.get? hw) _ hrest, Option.bind_assoc]
    rfl

/-- Where it holds nothing, and only objects on the way, there is what there was. -/
theorem valueAt?_mergeOver_of_none (h : top.Tidy) (base : Option Json)
    (hnone : top.valueAt? path = none) (hopen : ¬ top.Blocks path) :
    (top.mergeOver base).valueAt? path = base.bind (valueAt? · path) := by
  induction path generalizing top base with
  | nil => cases hnone
  | cons name path ih =>
    rw [blocks_cons_iff, not_or] at hopen
    obtain ⟨hobject, hrest⟩ := hopen
    have hassoc : base.bind (valueAt? · (name :: path)) =
        (base.bind (get? name)).bind (valueAt? · path) := (Option.bind_assoc ..).symm
    rw [valueAt?_cons, get?_mergeOver h (by simpa using hobject), hassoc]
    cases hw : top.get? name with
    | none => rfl
    | some w =>
      rw [valueAt?_cons, hw] at hnone
      exact ih (h.get? hw) _ hnone fun hblocks => hrest ⟨w, hw, hblocks⟩

/-- Where it holds something else than an object on the way, there is nothing. -/
theorem valueAt?_mergeOver_of_blocks (h : top.Tidy) (base : Option Json)
    (hblocks : top.Blocks path) : (top.mergeOver base).valueAt? path = none := by
  induction path generalizing top base with
  | nil =>
    obtain ⟨front, hprefix, hne, -⟩ := hblocks
    exact absurd (List.prefix_nil.1 hprefix) hne
  | cons name path ih =>
    rcases blocks_cons_iff.1 hblocks with hobject | ⟨w, hw, hrest⟩
    · rw [mergeOver_of_not_isObject hobject, valueAt?_cons, get?_of_not_isObject hobject]
      rfl
    · rw [valueAt?_cons, get?_mergeOver h (isObject_of_get? hw), hw]
      exact ih (h.get? hw) _ hrest

/-- What is merged of tidy values is tidy. -/
theorem Tidy.mergeOver (h : top.Tidy) (hbase : ∀ w, base = some w → w.Tidy) :
    (top.mergeOver base).Tidy := by
  induction h generalizing base with
  | other hobject =>
    rw [mergeOver_of_not_isObject hobject]
    exact .other hobject
  | @object incoming ascending tidy ih =>
    cases base with
    | none =>
      rw [mergeOver_none]
      exact .object ascending tidy
    | some w =>
      cases hbase w rfl with
      | other hobject =>
        rw [mergeOver_of_base hobject]
        exact .object ascending tidy
      | @object existing ascending' tidy' =>
        rw [mergeOver_obj]
        have hmerged := ascending_mergeMembers incoming ascending'
        refine .object hmerged fun e he => ?_
        have hlookup := Assoc.lookup_of_mem hmerged he
        rw [lookup_mergeMembers ascending] at hlookup
        cases hincoming : Assoc.lookup e.1 incoming with
        | none =>
          rw [hincoming] at hlookup
          exact tidy' _ (Assoc.mem_of_lookup hlookup)
        | some v =>
          rw [hincoming] at hlookup
          obtain he := Option.some.inj hlookup
          exact he ▸ ih _ (Assoc.mem_of_lookup hincoming) fun w hw =>
            tidy' _ (Assoc.mem_of_lookup hw)

/-! ### Merging a second time -/

theorem Tidy.mergeOver_self (h : v.Tidy) : v.mergeOver (some v) = v := by
  induction h with
  | other hobject => exact mergeOver_of_not_isObject hobject _
  | @object members ascending _ ih =>
    refine (mergeOver_obj members members).trans (congrArg Json.obj ?_)
    refine Assoc.eq_of_lookup_eq (ascending_mergeMembers _ ascending) ascending fun name => ?_
    rw [lookup_mergeMembers ascending]
    cases hlookup : Assoc.lookup name members with
    | none => rfl
    | some w => exact congrArg some (ih _ (Assoc.mem_of_lookup hlookup))

/-- What was merged over a value is not changed by merging it over the same value again. -/
theorem Tidy.mergeOver_again (h : top.Tidy) (hbase : ∀ w, base = some w → w.Tidy) :
    (top.mergeOver base).mergeOver base = top.mergeOver base := by
  induction h generalizing base with
  | @other top hobject =>
    rw [mergeOver_of_not_isObject hobject, mergeOver_of_not_isObject hobject]
  | @object incoming ascending _ ih =>
    cases base with
    | none => rw [mergeOver_none]
    | some w =>
      cases hbase w rfl with
      | other hobject => rw [mergeOver_of_base hobject, mergeOver_of_base hobject]
      | @object existing ascending' tidy =>
        rw [mergeOver_obj, mergeOver_obj]
        have hmerged := ascending_mergeMembers incoming ascending'
        refine congrArg Json.obj (Assoc.eq_of_lookup_eq (ascending_mergeMembers _ ascending')
          hmerged fun name => ?_)
        rw [lookup_mergeMembers hmerged, lookup_mergeMembers ascending]
        have htidy : ∀ w, Assoc.lookup name existing = some w → w.Tidy :=
          fun w hw => tidy _ (Assoc.mem_of_lookup hw)
        cases hlookup : Assoc.lookup name incoming with
        | some v => exact congrArg some (ih _ (Assoc.mem_of_lookup hlookup) htidy)
        | none =>
          -- The name is there only underneath, so that what is there is merged over itself.
          cases hexisting : Assoc.lookup name existing with
          | none => rfl
          | some w => exact congrArg some (htidy w hexisting).mergeOver_self

end Json

namespace Settings

/-- What settings hold at a path of names. -/
def valueAt? (s : Settings) (path : List String) : Option Json := (Json.obj s.entries).valueAt? path

/-- The members of all objects among the settings are listed in order. -/
def Tidy (s : Settings) : Prop := ∀ e ∈ s.entries, e.2.Tidy

theorem Tidy.object {s : Settings} (h : s.Tidy) : (Json.obj s.entries).Tidy :=
  .object s.ascending h

theorem obj_deepMerge (base top : Settings) :
    Json.obj (deepMerge base top).entries =
      (Json.obj top.entries).mergeOver (some (.obj base.entries)) :=
  (Json.mergeOver_obj _ _).symm

theorem Tidy.deepMerge {base top : Settings} (hbase : base.Tidy) (htop : top.Tidy) :
    (Settings.deepMerge base top).Tidy := by
  have hmerged : (Json.obj (Settings.deepMerge base top).entries).Tidy := by
    rw [obj_deepMerge]
    refine htop.object.mergeOver fun w hw => ?_
    cases hw
    exact hbase.object
  exact fun _ => hmerged.of_mem

end Settings

/-- **Connector settings are merged leaf by leaf.**  At every path, what the resource holds there
stands if it is not an object; if the resource holds nothing there, and only objects on the way, the
merged settings hold what the template holds, or nothing; and they hold nothing where neither side
does. -/
theorem Configuration.valueAt?_mergedOver {child parent : Configuration}
    (h : child.connectorSettings.Tidy) (path : List String) :
    let merged := (child.mergedOver parent).connectorSettings
    (∀ v, child.connectorSettings.valueAt? path = some v → v.isObject = false →
        merged.valueAt? path = some v) ∧
      (child.connectorSettings.valueAt? path = none →
        (∀ front, front <+: path → front ≠ path → ∀ v,
          child.connectorSettings.valueAt? front = some v → v.isObject = true) →
        merged.valueAt? path = parent.connectorSettings.valueAt? path) ∧
      (child.connectorSettings.valueAt? path = none →
        parent.connectorSettings.valueAt? path = none → merged.valueAt? path = none) := by
  intro merged
  have hmerged : merged.valueAt? path = ((Json.obj child.connectorSettings.entries).mergeOver
      (some (.obj parent.connectorSettings.entries))).valueAt? path :=
    congrArg (Json.valueAt? · path) (Settings.obj_deepMerge _ _)
  rw [hmerged]
  refine ⟨fun v hv hobject => ?_, fun hnone hway => ?_, fun hnone hnone' => ?_⟩
  · rw [Json.valueAt?_mergeOver_of_some h.object _ hv, Json.mergeOver_of_not_isObject hobject]
  · refine Json.valueAt?_mergeOver_of_none h.object _ hnone ?_
    rintro ⟨front, hprefix, hne, w, hw, hobject⟩
    rw [hway front hprefix hne w hw] at hobject
    cases hobject
  · by_cases hblocks : (Json.obj child.connectorSettings.entries).Blocks path
    · exact Json.valueAt?_mergeOver_of_blocks h.object _ hblocks
    · exact (Json.valueAt?_mergeOver_of_none h.object _ hnone hblocks).trans hnone'

/-! ### A template and a resource -/

/-- Settings of a template. -/
def Settings.sampleBelow : Settings where
  entries := [
    ("host", .obj [("name", .str "directory")]),
    ("pool", .obj [("max", .int 9), ("min", .int 1)])]
  ascending := by decide

/-- Settings of a resource, which has a text where the template has an object. -/
def Settings.sampleAbove : Settings where
  entries := [
    ("host", .str "localhost"),
    ("pool", .obj [("max", .int 5), ("timeouts", .arr [])])]
  ascending := by decide

theorem Settings.tidy_sampleBelow : sampleBelow.Tidy := by
  refine List.forall_mem_cons.2 ⟨?_, List.forall_mem_singleton.2 ?_⟩
  · exact .object (by decide) (List.forall_mem_singleton.2 (.other rfl))
  · exact .object (by decide)
      (List.forall_mem_cons.2 ⟨.other rfl, List.forall_mem_singleton.2 (.other rfl)⟩)

theorem Settings.tidy_sampleAbove : sampleAbove.Tidy := by
  refine List.forall_mem_cons.2 ⟨.other rfl, List.forall_mem_singleton.2 ?_⟩
  exact .object (by decide)
    (List.forall_mem_cons.2 ⟨.other rfl, List.forall_mem_singleton.2 (.other rfl)⟩)

/-- The text stands, and objects are merged. -/
theorem Configuration.valueAt?_mergedOver_sample :
    let child : Configuration := { connectorSettings := Settings.sampleAbove }
    let parent : Configuration := { connectorSettings := Settings.sampleBelow }
    let merged := (child.mergedOver parent).connectorSettings
    child.connectorSettings.Tidy ∧ merged.valueAt? ["host"] = some (.str "localhost") ∧
      merged.valueAt? ["pool", "max"] = some (.int 5) ∧
      merged.valueAt? ["pool", "min"] = some (.int 1) ∧
      merged.valueAt? ["pool", "idle"] = none := by
  intro child parent merged
  have hleaf := @Configuration.valueAt?_mergedOver child parent Settings.tidy_sampleAbove
  refine ⟨Settings.tidy_sampleAbove, (hleaf ["host"]).1 _ rfl rfl,
    (hleaf ["pool", "max"]).1 _ rfl rfl, (hleaf ["pool", "min"]).2.1 rfl ?_,
    (hleaf ["pool", "idle"]).2.2 rfl rfl⟩
  rintro (_ | ⟨name, _ | ⟨name', front⟩⟩) hprefix hne v hv
  · cases hv
    rfl
  · obtain ⟨rfl, -⟩ := List.cons_prefix_cons.1 hprefix
    cases hv
    rfl
  · obtain ⟨rfl, hrest⟩ := List.cons_prefix_cons.1 hprefix
    obtain ⟨rfl, hnil⟩ := List.cons_prefix_cons.1 hrest
    exact absurd (by rw [List.prefix_nil.1 hnil]) hne

end Reconciler
