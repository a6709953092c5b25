/-
Documents read back: what was read from any JSON value is read again from what is written for it.

Main statements:
* `AttributeRefinement.decodeBound?_encodeBound`: the three kinds of bounds are kept apart;
* instances of `LawfulCodec` for every record that is read from documents;
* `lawfulCodec_documents`: all documents read back.

Design notes:
* Each instance goes through the fields of its record in their order.  What was found for a field
  matters only as far as it was read, so that missing fields, fields by position, unknown fields and
  other spellings need no care.
-/
import Reconciler.Proofs.Codec.Containers
import Reconciler.Proofs.Codec.Instants
import Reconciler.Configuration
import Reconciler.Shadow
import Reconciler.Shadow.Observation
import Reconciler.Tuning

namespace Reconciler

open Row (required_again optional_again defaulted_again)

/-! ### Names and strategies -/

instance : LawfulTextKey ItemName where
  ofText?_text {s n} h := by
    replace h : (ItemName.ofText? s).toOption = some n := h
    have hread : ItemName.ofText? s = .ok n := by
      cases hs : ItemName.ofText? s with
      | ok m =>
        rw [hs] at h
        cases h
        rfl
      | error e =>
        rw [hs] at h
        cases h
    have hback : ItemName.ofText? n.toText = .ok n := ItemName.wellFormed_iff.2 ⟨s, hread⟩
    show (ItemName.ofText? n.toText).toOption = some n
    rw [hback]
    rfl

instance : LawfulCodec ItemName where
  decode?_encode {j n} h := by
    obtain ⟨s, -, hs⟩ := Option.bind_eq_some_iff.1 h
    exact LawfulTextKey.ofText?_text hs

instance : NonNull ItemName := ⟨fun _ h => nomatch h⟩

instance : LawfulCodec CachingStrategy where
  decode?_encode {j s} h := by
    obtain ⟨text, -, rfl⟩ := Option.map_eq_some_iff.1 h
    exact congrArg some (CachingStrategy.ofText_toText text)

instance : NonNull CachingStrategy := ⟨fun _ h => nomatch h⟩

/-- The default of the tunables. -/
theorem CachingStrategy.readsBack_none : ReadsBack CachingStrategy.none := by
  show some (ofText (toText none)) = some none
  decide +kernel

instance : NonNull Instant := ⟨fun _ h => nomatch h⟩

/-! ### What connectors report -/

instance : LawfulCodec ConnectorReference :=
  .of_row (fun _ => rfl) (fun _ => rfl) fun row a h => by
    simp only [Row.field_iff, Row.fields_done_iff] at h ⊢
    obtain ⟨_, connectorType, _, version, rfl⟩ := h
    exact ⟨_, required_again connectorType rfl, _, optional_again version rfl, rfl⟩

instance : NonNull ConnectorReference := ⟨fun _ h => nomatch h⟩

instance : LawfulCodec NativeAttribute :=
  .of_row (fun _ => rfl) (fun _ => rfl) fun row a h => by
    simp only [Row.field_iff, Row.fields_done_iff] at h ⊢
    obtain ⟨_, name, _, valueType, _, minOccurs, _, maxOccurs, _, canCreate, _, canRead,
      _, canUpdate, _, matchingRule, rfl⟩ := h
    exact ⟨_, required_again name rfl, _, defaulted_again rfl valueType rfl,
      _, defaulted_again rfl minOccurs rfl, _, defaulted_again rfl maxOccurs rfl,
      _, defaulted_again rfl canCreate rfl, _, defaulted_again rfl canRead rfl,
      _, defaulted_again rfl canUpdate rfl, _, defaulted_again rfl matchingRule rfl, rfl⟩

instance : LawfulCodec NativeClass :=
  .of_row (fun _ => rfl) (fun _ => rfl) fun row a h => by
    simp only [Row.field_iff, Row.fields_done_iff] at h ⊢
    obtain ⟨_, name, _, auxiliary, _, attributes, _, primary, _, secondary, _, displayName,
      _, naming, rfl⟩ := h
    exact ⟨_, required_again name rfl, _, defaulted_again rfl auxiliary rfl,
      _, defaulted_again rfl attributes rfl, _, defaulted_again rfl primary rfl,
      _, defaulted_again rfl secondary rfl, _, defaulted_again rfl displayName rfl,
      _, defaulted_again rfl naming rfl, rfl⟩

instance : LawfulCodec NativeSchema :=
  .of_row (fun _ => rfl) (fun _ => rfl) fun row a h => by
    simp only [Row.field_iff, Row.fields_done_iff] at h ⊢
    obtain ⟨_, classes, rfl⟩ := h
    exact ⟨_, required_again classes rfl, rfl⟩

instance : NonNull NativeSchema := ⟨fun _ h => nomatch h⟩

/-! ### Attributes -/

instance : LawfulCodec LayerProperties :=
  .of_row (fun _ => rfl) (fun _ => rfl) fun row a h => by
    simp only [Row.field_iff, Row.fields_done_iff] at h ⊢
    obtain ⟨_, ignored, _, canCreate, _, canRead, _, canUpdate, _, displayName, _, displayOrder,
      _, outbound, rfl⟩ := h
    exact ⟨_, required_again ignored rfl, _, required_again canCreate rfl,
      _, required_again canRead rfl, _, required_again canUpdate rfl,
      _, optional_again displayName rfl, _, optional_again displayOrder rfl,
      _, required_again outbound rfl, rfl⟩

instance : LawfulCodec LayerOverride :=
  .of_row (fun _ => rfl) (fun _ => rfl) fun row a h => by
    simp only [Row.field_iff, Row.fields_done_iff] at h ⊢
    obtain ⟨_, ignored, _, canCreate, _, canRead, _, canUpdate, _, displayName, _, displayOrder,
      _, outbound, rfl⟩ := h
    exact ⟨_, defaulted_again rfl ignored rfl, _, defaulted_again rfl canCreate rfl,
      _, defaulted_again rfl canRead rfl, _, defaulted_again rfl canUpdate rfl,
      _, defaulted_again rfl displayName rfl, _, defaulted_again rfl displayOrder rfl,
      _, defaulted_again rfl outbound rfl, rfl⟩

instance : LawfulCodec AttributeDefinition :=
  .of_row (fun _ => rfl) (fun _ => rfl) fun row a h => by
    simp only [Row.field_iff, Row.fields_done_iff] at h ⊢
    obtain ⟨_, name, _, valueType, _, minOccurs, _, maxOccurs, _, matchingRule, _, indexOnly,
      _, cached, _, native, _, overrides, rfl⟩ := h
    exact ⟨_, required_again name rfl, _, required_again valueType rfl,
      _, required_again minOccurs rfl, _, optional_again maxOccurs rfl,
      _, optional_again matchingRule rfl, _, required_again indexOnly rfl,
      _, optional_again cached rfl, _, required_again native rfl,
      _, defaulted_again rfl overrides rfl, rfl⟩

namespace AttributeRefinement

/-- A bound that is not set, one that is lifted, and a number are told apart. -/
theorem decodeBound?_encodeBound (bound : Option (Option UInt32)) :
    decodeBound? (encodeBound bound) = some bound := by
  rcases bound with _ | _ | n
  · rfl
  · show (if unboundedWord = unboundedWord then some (some none) else none) = _
    exact if_pos rfl
  · have hread : decode? (encode n) = some n := by
      refine Option.map_eq_some_iff.2
        ⟨n.toNat, Json.intBetween?_eq_some_iff.2 ⟨rfl, by omega, ?_⟩, by simp⟩
      have := n.toNat_lt
      omega
    show (decode? (encode n)).map (fun n => some (some n)) = _
    rw [hread]
    rfl

theorem bound_again {name : String} {members : List (String × Json)}
    {bound : Option (Option UInt32)}
    (hcell : Assoc.lookup name members.reverse = some (encodeBound bound)) :
    ((Row.written members).cell? name).elim (some none) decodeBound? = some bound := by
  rw [Row.cell?_written, hcell]
  exact decodeBound?_encodeBound bound

end AttributeRefinement

instance : LawfulCodec AttributeRefinement :=
  .of_row (fun _ => rfl) (fun _ => rfl) fun row a h => by
    simp only [Row.field_iff, Row.fields_done_iff] at h ⊢
    obtain ⟨_, name, _, displayName, _, displayOrder, _, matchingRule, _, cached, _, indexOnly,
      _, minOccurs, _, -, _, outbound, _, limitations, rfl⟩ := h
    exact ⟨_, defaulted_again rfl name rfl, _, defaulted_again rfl displayName rfl,
      _, defaulted_again rfl displayOrder rfl, _, defaulted_again rfl matchingRule rfl,
      _, defaulted_again rfl cached rfl, _, defaulted_again rfl indexOnly rfl,
      _, defaulted_again rfl minOccurs rfl, _, AttributeRefinement.bound_again rfl,
      _, defaulted_again rfl outbound rfl, _, defaulted_again rfl limitations rfl, rfl⟩

/-! ### Declared types and configurations -/

instance : LawfulCodec AttributeCondition :=
  .of_row (fun _ => rfl) (fun _ => rfl) fun row a h => by
    simp only [Row.field_iff, Row.fields_done_iff] at h ⊢
    obtain ⟨_, item, _, value, rfl⟩ := h
    exact ⟨_, required_again item rfl, _, required_again value rfl, rfl⟩

instance : LawfulCodec ProtectedPattern :=
  .of_row (fun _ => rfl) (fun _ => rfl) fun row a h => by
    simp only [Row.field_iff, Row.fields_done_iff] at h ⊢
    obtain ⟨_, filter, rfl⟩ := h
    exact ⟨_, defaulted_again rfl filter rfl, rfl⟩

instance : LawfulCodec Association :=
  .of_row (fun _ => rfl) (fun _ => rfl) fun row a h => by
    simp only [Row.field_iff, Row.fields_done_iff] at h ⊢
    obtain ⟨_, name, _, targetKind, _, targetIntents, _, direction, _, associationAttribute,
      _, valueAttribute, rfl⟩ := h
    exact ⟨_, required_again name rfl, _, required_again targetKind rfl,
      _, required_again targetIntents rfl, _, required_again direction rfl,
      _, required_again associationAttribute rfl, _, required_again valueAttribute rfl, rfl⟩

instance : LawfulCodec CachingPolicy :=
  .of_row (fun _ => rfl) (fun _ => rfl) fun row a h => by
    simp only [Row.field_iff, Row.fields_done_iff] at h ⊢
    obtain ⟨_, strategy, rfl⟩ := h
    exact ⟨_, defaulted_again rfl strategy rfl, rfl⟩

instance : NonNull CachingPolicy := ⟨fun _ h => nomatch h⟩

instance : LawfulCodec TypeDeclaration :=
  .of_row (fun _ => rfl) (fun _ => rfl) fun row a h => by
    simp only [Row.field_iff, Row.fields_done_iff] at h ⊢
    obtain ⟨_, kind, _, intent, _, objectClass, _, defaultForKind, _, displayName,
      _, displayNameAttribute, _, attributes, _, associations, _, patterns, _, auxiliary,
      _, caching, _, capabilities, rfl⟩ := h
    exact ⟨_, required_again kind rfl, _, required_again intent rfl,
      _, defaulted_again rfl objectClass rfl, _, defaulted_again rfl defaultForKind rfl,
      _, defaulted_again rfl displayName rfl, _, defaulted_again rfl displayNameAttribute rfl,
      _, defaulted_again rfl attributes rfl, _, defaulted_again rfl associations rfl,
      _, defaulted_again rfl patterns rfl, _, defaulted_again rfl auxiliary rfl,
      _, defaulted_again rfl caching rfl, _, defaulted_again rfl capabilities rfl, rfl⟩

instance : LawfulCodec CapabilityConfig :=
  .of_row (fun _ => rfl) (fun _ => rfl) fun row a h => by
    simp only [Row.field_iff, Row.fields_done_iff] at h ⊢
    obtain ⟨_, enabled, _, options, rfl⟩ := h
    exact ⟨_, required_again enabled rfl, _, defaulted_again rfl options rfl, rfl⟩

instance : LawfulCodec Configuration :=
  .of_row (fun _ => rfl) (fun _ => rfl) fun row a h => by
    simp only [Row.field_iff, Row.fields_done_iff] at h ⊢
    obtain ⟨_, connector, _, settings, _, capabilities, _, declarations, _, caching, _, superRef,
      _, isTemplate, _, nativeSchema, _, nativeCapabilities, rfl⟩ := h
    exact ⟨_, defaulted_again rfl connector rfl, _, defaulted_again rfl settings rfl,
      _, defaulted_again rfl capabilities rfl, _, defaulted_again rfl declarations rfl,
      _, defaulted_again rfl caching rfl, _, defaulted_again rfl superRef rfl,
      _, defaulted_again rfl isTemplate rfl, _, defaulted_again rfl nativeSchema rfl,
      _, defaulted_again rfl nativeCapabilities rfl, rfl⟩

/-! ### Availability -/

instance : LawfulCodec AvailabilityChange :=
  .of_row (fun _ => rfl) (fun _ => rfl) fun row a h => by
    simp only [Row.field_iff, Row.fields_done_iff] at h ⊢
    obtain ⟨_, status, _, timestamp, _, reason, _, taskId, rfl⟩ := h
    exact ⟨_, required_again status rfl, _, required_again timestamp rfl,
      _, optional_again reason rfl, _, optional_again taskId rfl, rfl⟩

instance : LawfulCodec OperationalState :=
  .of_row (fun _ => rfl) (fun _ => rfl) fun row a h => by
    simp only [Row.field_iff, Row.fields_done_iff] at h ⊢
    obtain ⟨_, lastStatus, _, history, rfl⟩ := h
    exact ⟨_, defaulted_again rfl lastStatus rfl, _, defaulted_again rfl history rfl, rfl⟩

/-! ### Shadows and observed objects -/

instance : LawfulCodec Activation :=
  .of_row (fun _ => rfl) (fun _ => rfl) fun row a h => by
    simp only [Row.field_iff, Row.fields_done_iff] at h ⊢
    obtain ⟨_, administrative, _, validFrom, _, validTo, _, lockout, rfl⟩ := h
    exact ⟨_, defaulted_again rfl administrative rfl, _, defaulted_again rfl validFrom rfl,
      _, defaulted_again rfl validTo rfl, _, defaulted_again rfl lockout rfl, rfl⟩

instance : LawfulCodec CachingMetadata :=
  .of_row (fun _ => rfl) (fun _ => rfl) fun row a h => by
    simp only [Row.field_iff, Row.fields_done_iff] at h ⊢
    obtain ⟨_, retrievedAt, rfl⟩ := h
    exact ⟨_, required_again retrievedAt rfl, rfl⟩

instance : NonNull CachingMetadata := ⟨fun _ h => nomatch h⟩

instance : LawfulCodec Shadow :=
  .of_row (fun _ => rfl) (fun _ => rfl) fun row a h => by
    simp only [Row.field_iff, Row.fields_done_iff] at h ⊢
    obtain ⟨_, oid, _, resourceOid, _, objectClass, _, kind, _, intent, _, name, _, attributes,
      _, auxiliary, _, present, _, lifecycle, _, production, _, activation, _, caching, rfl⟩ := h
    exact ⟨_, required_again oid rfl, _, required_again resourceOid rfl,
      _, required_again objectClass rfl, _, optional_again kind rfl, _, optional_again intent rfl,
      _, optional_again name rfl, _, defaulted_again rfl attributes rfl,
      _, defaulted_again rfl auxiliary rfl, _, defaulted_again rfl present rfl,
      _, required_again lifecycle rfl, _, optional_again production rfl,
      _, defaulted_again rfl activation rfl, _, optional_again caching rfl, rfl⟩

instance : LawfulCodec ObservedAttribute :=
  .of_row (fun _ => rfl) (fun _ => rfl) fun row a h => by
    simp only [Row.field_iff, Row.fields_done_iff] at h ⊢
    obtain ⟨_, values, _, incomplete, rfl⟩ := h
    exact ⟨_, required_again values rfl, _, defaulted_again rfl incomplete rfl, rfl⟩

instance : LawfulCodec Observation :=
  .of_row (fun _ => rfl) (fun _ => rfl) fun row a h => by
    simp only [Row.field_iff, Row.fields_done_iff] at h ⊢
    obtain ⟨_, objectClass, _, attributes, _, auxiliary, _, activation, _, production, rfl⟩ := h
    exact ⟨_, required_again objectClass rfl, _, defaulted_again rfl attributes rfl,
      _, defaulted_again rfl auxiliary rfl, _, defaulted_again rfl activation rfl,
      _, optional_again production rfl, rfl⟩

instance : LawfulCodec Tuning :=
  .of_row (fun _ => rfl) (fun _ => rfl) fun row a h => by
    unfold Tuning.ofRow? at h ⊢
    simp only [Row.field_iff, Row.fields_done_iff] at h ⊢
    obtain ⟨_, historySize, _, strategy, _, threshold, _, cacheEnabled, rfl⟩ := h
    exact ⟨_, defaulted_again rfl historySize rfl,
      _, defaulted_again CachingStrategy.readsBack_none strategy rfl,
      _, defaulted_again rfl threshold rfl, _, defaulted_again rfl cacheEnabled rfl, rfl⟩

/-! ### All documents -/

/-- **Every document reads back**: whatever was read from a JSON value, as a name, as a native
schema, as a refined or a resolved attribute, as a declared type or a configuration, as capabilities
or an operational state, as a shadow or an observed object, or as tunables, is read again from what
is written for it. -/
theorem lawfulCodec_documents :
    LawfulCodec ItemName ∧ LawfulCodec NativeSchema ∧ LawfulCodec AttributeRefinement ∧
      LawfulCodec AttributeDefinition ∧ LawfulCodec TypeDeclaration ∧ LawfulCodec Configuration ∧
      LawfulCodec CapabilitySet ∧ LawfulCodec OperationalState ∧ LawfulCodec Shadow ∧
      LawfulCodec Observation ∧ LawfulCodec Tuning :=
  ⟨inferInstance, inferInstance, inferInstance, inferInstance, inferInstance, inferInstance,
    inferInstance, inferInstance, inferInstance, inferInstance, inferInstance⟩

end Reconciler
