/-
Written forms that are put together: lists, optional values, maps, sets, enumerations and records.

* `ReadsBack`: a value is read again from what is written for it;
* `NonNull`: types whose values are never written as `null`;
* `LawfulTextKey`: keys that were read once are read again from their texts;
* `Row.written`: the row that is found in a written record.

Main statements:
* instances of `LawfulCodec` for containers of lawful types;
* `Row.required_again`, `Row.optional_again`, `Row.defaulted_again`: what was read in a field of any
  row is read again in the written record, whatever the kind of the field;
* `LawfulCodec.of_row`: a record is lawful when all of its fields are read again.

Design notes:
* An optional value is written like a value that must be there, so that nothing could be told from
  the absence of one that is itself written as `null`.
* Members are written in the order of their texts, which need not be the order of the keys of a map.
-/
import Reconciler.Json.Codec

namespace Reconciler

/-- A value is read again from what is written for it. -/
def ReadsBack {α : Type} [Codec α] (a : α) : Prop := decode? (encode a) = some a

/-- Types whose values are never written as `null`. -/
class NonNull (α : Type) [Codec α] : Prop where
  encode_ne_null : ∀ a : α, encode a ≠ .null

/-- Keys that were read once are read again from their texts. -/
class LawfulTextKey (κ : Type) [TextKey κ] : Prop where
  ofText?_text : ∀ {s : String} {k : κ}, TextKey.ofText? s = some k →
    TextKey.ofText? (TextKey.text k) = some k

/-! ### Basic types and enumerations -/

instance : NonNull Bool := ⟨fun _ h => nomatch h⟩
instance : NonNull String := ⟨fun _ h => nomatch h⟩
instance : NonNull UInt32 := ⟨fun _ h => nomatch h⟩
instance : NonNull Int32 := ⟨fun _ h => nomatch h⟩

instance : LawfulTextKey String := ⟨fun _ => rfl⟩

namespace Named

variable {α : Type} [Named α]

instance : @LawfulCodec α codec := @LawfulCodec.mk α codec fun _ => ofName?_name _

instance : @NonNull α codec := @NonNull.mk α codec fun _ h => nomatch h

instance : @LawfulTextKey α textKey := @LawfulTextKey.mk α textKey fun _ => ofName?_name _

end Named

/-! ### Reading one after another -/

section Each

variable {α β : Type} {read : α → Option β} {write : β → α}

theorem mapM_cons_eq_some_iff {a : α} {as : List α} {bs : List β} :
    (a :: as).mapM read = some bs ↔
      ∃ b rest, read a = some b ∧ as.mapM read = some rest ∧ bs = b :: rest := by
  rw [List.mapM_cons]
  constructor
  · intro h
    obtain ⟨b, hb, h⟩ := Option.bind_eq_some_iff.1 h
    obtain ⟨rest, hrest, h⟩ := Option.bind_eq_some_iff.1 h
    exact ⟨b, rest, hb, hrest, (Option.some.inj h).symm⟩
  · rintro ⟨b, rest, hb, hrest, rfl⟩
    exact Option.bind_eq_some_iff.2 ⟨b, hb, Option.bind_eq_some_iff.2 ⟨rest, hrest, rfl⟩⟩

/-- What was read came from somewhere. -/
theorem exists_of_mapM_eq_some {as : List α} {bs : List β} (h : as.mapM read = some bs) :
    ∀ b ∈ bs, ∃ a ∈ as, read a = some b := by
  induction as generalizing bs with
  | nil =>
    cases h
    exact List.forall_mem_nil _
  | cons a as ih =>
    obtain ⟨b, rest, hb, hrest, rfl⟩ := mapM_cons_eq_some_iff.1 h
    refine List.forall_mem_cons.2 ⟨⟨a, List.mem_cons_self, hb⟩, fun b' hb' => ?_⟩
    obtain ⟨a', ha', h'⟩ := ih hrest b' hb'
    exact ⟨a', List.mem_cons_of_mem _ ha', h'⟩

/-- Written one by one, values are read again one by one. -/
theorem mapM_map_eq_some {bs : List β} (h : ∀ b ∈ bs, read (write b) = some b) :
    (bs.map write).mapM read = some bs := by
  induction bs with
  | nil => rfl
  | cons b bs ih =>
    obtain ⟨hb, hbs⟩ := List.forall_mem_cons.1 h
    exact mapM_cons_eq_some_iff.2 ⟨b, bs, hb, ih hbs, rfl⟩

/-- What was written is the written form of a list. -/
theorem exists_map_eq {as : List α} {bs : List β} (h : ∀ a ∈ as, ∃ b ∈ bs, write b = a) :
    ∃ again : List β, again.map write = as ∧ ∀ b ∈ again, b ∈ bs := by
  induction as with
  | nil => exact ⟨[], rfl, List.forall_mem_nil _⟩
  | cons a as ih =>
    obtain ⟨⟨b, hb, rfl⟩, has⟩ := List.forall_mem_cons.1 h
    obtain ⟨again, rfl, hagain⟩ := ih has
    exact ⟨b :: again, rfl, List.forall_mem_cons.2 ⟨hb, hagain⟩⟩

end Each

/-! ### Lists and optional values -/

section Containers

variable {α : Type} [Codec α]

/-- A list reads back when all of its elements do. -/
theorem readsBack_list {xs : List α} (h : ∀ a ∈ xs, ReadsBack a) : ReadsBack xs :=
  mapM_map_eq_some h

/-- Without a value there is nothing but `null`. -/
theorem readsBack_none : ReadsBack (none : Option α) := rfl

theorem decode?_option_of_ne_null {j : Json} (h : j ≠ .null) :
    (decode? j : Option (Option α)) = (decode? j).map some := by
  cases j with
  | null => exact absurd rfl h
  | _ => rfl

theorem readsBack_some [NonNull α] {a : α} (h : ReadsBack a) : ReadsBack (some a) := by
  show (decode? (encode a) : Option (Option α)) = some (some a)
  rw [decode?_option_of_ne_null (NonNull.encode_ne_null a), show decode? (encode a) = some a from h]
  rfl

variable [LawfulCodec α]

/-- Elements of a list that was read once read back. -/
theorem readsBack_of_mem {j : Json} {xs : List α} (h : decode? j = some xs) :
    ∀ a ∈ xs, ReadsBack a := by
  cases j with
  | arr items =>
    intro a ha
    obtain ⟨j, -, hj⟩ := exists_of_mapM_eq_some h a ha
    exact LawfulCodec.decode?_encode hj
  | _ => cases h

instance : LawfulCodec (List α) := ⟨fun h => readsBack_list (readsBack_of_mem h)⟩

instance [NonNull α] : LawfulCodec (Option α) where
  decode?_encode {j x} h := by
    cases x with
    | none => exact readsBack_none
    | some a =>
      by_cases hj : j = .null
      · subst hj
        cases h
      · rw [decode?_option_of_ne_null hj] at h
        obtain ⟨_, ha, he⟩ := Option.map_eq_some_iff.1 h
        cases he
        exact readsBack_some (LawfulCodec.decode?_encode ha)

end Containers

/-! ### Maps and sets -/

section Maps

variable {κ ν : Type} [TextKey κ] [Codec ν]

/-- The entry that a member stands for. -/
def entryOf? (member : String × Json) : Option (κ × ν) := do
  return (← TextKey.ofText? member.1, ← decode? member.2)

/-- The member that is written for an entry. -/
def memberOf (e : κ × ν) : String × Json := (TextKey.text e.1, encode e.2)

theorem entryOf?_eq_some_iff {member : String × Json} {e : κ × ν} :
    entryOf? member = some e ↔
      TextKey.ofText? member.1 = some e.1 ∧ decode? member.2 = some e.2 := by
  obtain ⟨k, v⟩ := e
  simp [entryOf?, Option.bind_eq_some_iff]

/-- An entry that was read once is read from the member that is written for it. -/
theorem entryOf?_memberOf [LawfulTextKey κ] [LawfulCodec ν] {member : String × Json} {e : κ × ν}
    (h : entryOf? member = some e) : entryOf? (memberOf e) = some e := by
  obtain ⟨hkey, hvalue⟩ := entryOf?_eq_some_iff.1 h
  exact entryOf?_eq_some_iff.2 ⟨LawfulTextKey.ofText?_text hkey, LawfulCodec.decode?_encode hvalue⟩

variable [Ord κ] [Std.TransOrd κ] [Std.LawfulEqOrd κ] [DecidableEq κ]

/-- A map reads back when all of its entries do. -/
theorem readsBack_map {m : SortedMap κ ν} (h : ∀ e ∈ m.entries, entryOf? (memberOf e) = some e) :
    ReadsBack m := by
  -- The written members are those of the entries, in another order.
  have hwritten : ∀ member ∈ Assoc.ofList (m.entries.map memberOf),
      ∃ e ∈ m.entries, memberOf e = member := by
    intro member hmember
    have hmem : member ∈ m.entries.map memberOf := SortedMap.mem_of_mem_ofList hmember
    exact List.mem_map.1 hmem
  obtain ⟨again, hagain, hmem⟩ := exists_map_eq hwritten
  have hread : (Assoc.ofList (m.entries.map memberOf)).mapM entryOf? = some again :=
    hagain ▸ mapM_map_eq_some fun e he => h e (hmem e he)
  have hkeys : ∀ key ∈ m.keys, key ∈ again.map Prod.fst := by
    intro key hkey
    obtain ⟨e, he, rfl⟩ := List.mem_map.1 hkey
    have htext : TextKey.text e.1 ∈ (m.entries.map memberOf).map Prod.fst :=
      List.mem_map_of_mem (List.mem_map_of_mem he)
    obtain ⟨member, hmember, hname⟩ := List.mem_map.1 (SortedMap.mem_keys_ofList htext)
    replace hmember : member ∈ Assoc.ofList (m.entries.map memberOf) := hmember
    rw [← hagain] at hmember
    obtain ⟨e', he', rfl⟩ := List.mem_map.1 hmember
    -- Two keys with one text are the same, as both are read from it.
    have hread : TextKey.ofText? (TextKey.text e.1) = some e.1 :=
      (entryOf?_eq_some_iff.1 (h e he)).1
    have hread' : TextKey.ofText? (TextKey.text e'.1) = some e'.1 :=
      (entryOf?_eq_some_iff.1 (h e' (hmem e' he'))).1
    rw [show TextKey.text e'.1 = TextKey.text e.1 from hname, hread] at hread'
    exact List.mem_map.2 ⟨e', he', (Option.some.inj hread').symm⟩
  show (Assoc.ofList (m.entries.map memberOf)).mapM entryOf? >>= _ = _
  rw [hread]
  exact congrArg some (SortedMap.ofList_eq_of_mem hmem hkeys)

instance [LawfulTextKey κ] [LawfulCodec ν] : LawfulCodec (SortedMap κ ν) where
  decode?_encode {j m} h := by
    cases j with
    | obj members =>
      obtain ⟨es, hes, hm⟩ := Option.bind_eq_some_iff.1 h
      cases hm
      refine readsBack_map fun e he => ?_
      obtain ⟨member, -, hmember⟩ :=
        exists_of_mapM_eq_some hes e (SortedMap.mem_of_mem_ofList he)
      exact entryOf?_memberOf hmember
    | _ => cases h

instance : NonNull (SortedMap κ ν) := ⟨fun _ h => nomatch h⟩

end Maps

section Sets

variable {κ : Type} [Ord κ] [Std.TransOrd κ] [Std.LawfulEqOrd κ] [Codec κ]

instance [LawfulCodec κ] : LawfulCodec (SortedSet κ) where
  decode?_encode {j s} h := by
    obtain ⟨members, hmembers, rfl⟩ := Option.map_eq_some_iff.1 h
    have hread : ReadsBack (SortedSet.ofList members).toList :=
      readsBack_list fun a ha => readsBack_of_mem hmembers a (SortedSet.mem_of_mem_ofList ha)
    show (decode? (encode (SortedSet.ofList members).toList)).map SortedSet.ofList = _
    rw [show decode? _ = some _ from hread, Option.map_some, SortedSet.ofList_toList]

end Sets

/-! ### Records -/

namespace Row

/-- The row that is found in a written record. -/
def written (members : List (String × Json)) : Row := ⟨Assoc.ofList members, false⟩

theorem cell?_written (members : List (String × Json)) (name : String) :
    (written members).cell? name = Assoc.lookup name members.reverse :=
  Json.get?_record name members

/-- One field is read, and then the others. -/
theorem field_iff {α β : Type} {x : Option α} {f : α → Option β} {b : β} :
    (x >>= f) = some b ↔ ∃ a, x = some a ∧ f a = some b :=
  Option.bind_eq_some_iff

theorem fields_done_iff {α : Type} {a b : α} : (pure a : Option α) = some b ↔ a = b :=
  Option.some_inj

variable {α : Type} [Codec α] [LawfulCodec α] {row : Row} {name : String}
variable {members : List (String × Json)}

theorem required_again {a : α} (h : row.required name = some a)
    (hcell : Assoc.lookup name members.reverse = some (encode a)) :
    (written members).required name = some a := by
  obtain ⟨j, -, hj⟩ := field_iff.1 h
  exact field_iff.2 ⟨_, (cell?_written members name).trans hcell, LawfulCodec.decode?_encode hj⟩

theorem defaulted_again {a value : α} (hvalue : ReadsBack value)
    (h : row.defaulted name value = some a)
    (hcell : Assoc.lookup name members.reverse = some (encode a)) :
    (written members).defaulted name value = some a := by
  have hback : ReadsBack a := by
    unfold defaulted at h
    split at h
    · exact LawfulCodec.decode?_encode h
    · cases h
      exact hvalue
  rw [defaulted, cell?_written, hcell]
  exact hback

theorem optional_again [NonNull α] {a : Option α} (h : row.optional name = some a)
    (hcell : Assoc.lookup name members.reverse = some (encode a)) :
    (written members).optional name = some a := by
  have hback : ReadsBack a := by
    unfold optional at h
    split at h
    · exact LawfulCodec.decode?_encode h
    · split at h
      · cases h
      · cases h
        exact readsBack_none
  rw [optional, cell?_written, hcell]
  exact hback

end Row

/-- A record is lawful when what was read from any row is read again from the written one. -/
theorem LawfulCodec.of_row {α : Type} [Codec α] {names : List String} {read : Row → Option α}
    {members : α → List (String × Json)} (hread : ∀ j, decode? j = Row.of? names j >>= read)
    (hwrite : ∀ a : α, encode a = .record (members a))
    (h : ∀ row a, read row = some a → read (.written (members a)) = some a) : LawfulCodec α where
  decode?_encode {j a} hj := by
    rw [hread] at hj
    obtain ⟨row, -, hrow⟩ := Row.field_iff.1 hj
    rw [hwrite, hread]
    exact h row a hrow

end Reconciler
