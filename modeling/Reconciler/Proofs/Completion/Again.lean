/-
Completing a resource that was completed before.

A completed resource has in its configuration all that it inherits, and what the connector said.
When it is completed again, its templates are merged into that configuration once more.

* `Configuration.noting`: the configuration with what is known of the connector;
* `Inheritance.StoredAlike`: the templates of a resource are stored in another session as they are
  in this one;
* `Inheritance.OrderlyAbove`: what the template of a resource inherits is orderly;
* `Completion.configured`: what completion makes of a configuration once it is merged.

Main statements:
* `Inheritance.peek_templates_congr`: templates are looked for with the same outcome where they are
  stored alike;
* `Inheritance.orderlyAbove_of_stored`: what is inherited is orderly if all that is stored is;
* `Completion.configuration_outcome`: the configuration that a completion leaves;
* `Completion.configured_again`: noting a second time what the connector says changes nothing;
* `Completion.merged_again`: nor does merging a second time, so that a resource that was completed
  keeps its configuration.

Design notes:
* A completion that finds no templates leaves the configuration alone, and so does one of a resource
  that counts as completed.
-/
import Reconciler.Proofs.Completion.Unfetched
import Reconciler.Proofs.Merging.Again

namespace Reconciler

namespace Configuration

variable {child parent : Configuration}

/-- The configuration with what is known of the connector noted in it. -/
def noting (c : Configuration) (native : Completion.Native) : Configuration :=
  { c with
    nativeSchema := native.schema <|> c.nativeSchema
    nativeCapabilities := native.capabilities <|> c.nativeCapabilities }

theorem noting_nothing (c : Configuration) : c.noting ⟨none, none⟩ = c := rfl

theorem noting_again (c : Configuration) (native : Completion.Native) :
    (c.noting native).noting native = c.noting native := by
  simp [noting, ← Option.or_assoc]

/-- What is noted for the resource goes before what is noted for its template. -/
theorem noting_mergedOver (child parent : Configuration) (native : Completion.Native) :
    (child.noting native).mergedOver parent = (child.mergedOver parent).noting native := by
  simp [mergedOver, noting, Option.or_assoc]

end Configuration

namespace Inheritance

open Session

variable {env : Surroundings} {σ τ : Session} {c : Caller} {raw : Resource}

/-- The templates of a resource are stored in the second session as they are in the first. -/
def StoredAlike (σ τ : Session) (next : Option String) : Prop :=
  ∀ n oid, follow σ.store n next = some oid → τ.store.find? oid = σ.store.find? oid

theorem StoredAlike.superRef {oid : String} {template : Resource}
    (h : StoredAlike σ τ (some oid)) (hstored : σ.store.find? oid = some template) :
    StoredAlike σ τ template.configuration.superRef := by
  intro n oid' hn
  have hstep : (some oid).bind (superRef? σ.store) = template.configuration.superRef := by
    change (σ.store.find? oid).bind _ = _
    rw [hstored]
    rfl
  refine h (n + 1) oid' ?_
  rw [follow, hstep, hn]

/-- Looking for templates comes out the same where they are stored alike, also if it fails. -/
theorem peek_templates_congr {resource : String} {limit : Nat} {visited : List String}
    {next : Option String} (h : StoredAlike σ τ next) :
    peek env τ (templates c resource limit visited next).run =
      peek env σ (templates c resource limit visited next).run := by
  induction limit generalizing visited next with
  | zero =>
    cases next with
    | none => rfl
    | some oid =>
      rw [templates]
      split <;> rfl
  | succ limit ih =>
    cases next with
    | none => rfl
    | some oid =>
      rw [peek_templates_succ, peek_templates_succ, h 0 oid rfl]
      cases hstored : σ.store.find? oid with
      | none => rfl
      | some template =>
        dsimp only
        rw [ih (h.superRef hstored)]

theorem inherited_congr {limit : Nat} (h : StoredAlike σ τ raw.configuration.superRef) :
    inherited env τ c limit raw = inherited env σ c limit raw := by
  rw [inherited_eq, inherited_eq, peek_templates_congr h]

theorem exists_chain_of_inherited {limit : Nat} {found : Resolved}
    (h : inherited env σ c limit raw = .ok found) :
    ∃ chain, (∀ t ∈ chain, σ.store.find? t.1 = some t.2) ∧
      found = ⟨configuration raw.configuration chain, versions chain⟩ := by
  rw [inherited_eq] at h
  cases hchain : peek env σ
      (templates c raw.oid limit [raw.oid] raw.configuration.superRef).run with
  | error e =>
    rw [hchain] at h
    cases h
  | ok chain =>
    rw [hchain] at h
    cases h
    exact ⟨chain, (peek_templates hchain).1, rfl⟩

/-- If the resource has a template, what that inherits is orderly. -/
def OrderlyAbove (env : Surroundings) (σ : Session) (c : Caller) (limit : Nat) (raw : Resource) :
    Prop :=
  ∀ oid template above, raw.configuration.superRef = some oid →
    σ.store.find? oid = some template → inherited env σ c limit template = .ok above →
    above.configuration.Orderly

theorem orderly_configuration {own : Configuration} (hown : own.Orderly) {chain : List Template}
    (h : ∀ t ∈ chain, t.2.configuration.Orderly) : (configuration own chain).Orderly := by
  induction chain generalizing own with
  | nil => exact hown
  | cons t rest ih =>
    obtain ⟨ht, hrest⟩ := List.forall_mem_cons.1 h
    exact hown.mergedOver (ih ht hrest)

/-- So it is if all that is stored is orderly. -/
theorem orderlyAbove_of_stored
    (h : ∀ oid r, σ.store.find? oid = some r → r.configuration.Orderly) (limit : Nat) :
    OrderlyAbove env σ c limit raw := by
  intro oid template above _ hstored hinherits
  obtain ⟨chain, hchain, rfl⟩ := exists_chain_of_inherited hinherits
  exact orderly_configuration (h oid template hstored) fun t ht => h t.1 t.2 (hchain t ht)

theorem superRef_configuration (own : Configuration) (chain : List Template) :
    (configuration own chain).superRef = own.superRef := by
  cases chain <;> rfl

end Inheritance

namespace Completion

open Session Inheritance

variable {env : Surroundings} {σ τ : Session} {c : Caller} {mode : Mode} {raw again : Resource}
variable {limit : Nat} {chain : List Template}

/-! ### What is noted -/

/-- The configuration, with what is known of the connector noted if that is to be had and the
overrides go with it. -/
def noted : Except ProvisioningError (Native × Findings) → Configuration → Configuration
  | .error _, configuration => configuration
  | .ok (native, _), configuration =>
    match CapabilitySet.withOverrides (native.capabilities.getD .empty)
      configuration.capabilities with
    | .error _ => configuration
    | .ok _ => configuration.noting native

theorem noted_of_ok {native : Native} {capabilities : CapabilitySet} (found : Findings)
    {configuration : Configuration}
    (h : CapabilitySet.withOverrides (native.capabilities.getD .empty)
      configuration.capabilities = .ok capabilities) :
    noted (.ok (native, found)) configuration = configuration.noting native := by
  rw [noted, h]

theorem noted_cases (answer : Except ProvisioningError (Native × Findings))
    (configuration : Configuration) :
    noted answer configuration = configuration ∨
      ∃ native found capabilities, answer = .ok (native, found) ∧
        CapabilitySet.withOverrides (native.capabilities.getD .empty)
          configuration.capabilities = .ok capabilities := by
  cases answer with
  | error e => exact .inl rfl
  | ok answer =>
    obtain ⟨native, found⟩ := answer
    cases h : CapabilitySet.withOverrides (native.capabilities.getD .empty)
      configuration.capabilities with
    | error e => exact .inl (by rw [noted, h])
    | ok capabilities => exact .inr ⟨native, found, capabilities, rfl, h⟩

theorem exists_noting (answer : Except ProvisioningError (Native × Findings))
    (configuration : Configuration) :
    ∃ native, noted answer configuration = configuration.noting native := by
  rcases noted_cases answer configuration with h | ⟨native, found, _, rfl, h⟩
  · exact ⟨⟨none, none⟩, h.trans configuration.noting_nothing.symm⟩
  · exact ⟨native, noted_of_ok found h⟩

theorem noted_again (answer : Except ProvisioningError (Native × Findings))
    (configuration : Configuration) :
    noted answer (noted answer configuration) = noted answer configuration := by
  rcases noted_cases answer configuration with h | ⟨native, found, _, rfl, h⟩
  · rw [h, h]
  · have hagain : CapabilitySet.withOverrides (native.capabilities.getD .empty)
        (configuration.noting native).capabilities = .ok _ := h
    rw [noted_of_ok found h, noted_of_ok found hagain, configuration.noting_again]

/-- Building the schema and putting overrides on top leave the configuration as it is, but for what
is noted. -/
theorem configuration_assemble (definition : Resource) (native : Native) (found : Findings) :
    (assemble definition native found).definition.configuration =
      noted (.ok (native, found)) definition.configuration := by
  obtain ⟨schema, capabilities⟩ := native
  cases h : CapabilitySet.withOverrides (capabilities.getD .empty)
    definition.configuration.capabilities with
  | error e => rw [assemble_of_error h, noted, h]; rfl
  | ok able =>
    rw [noted_of_ok found h, assemble, h]
    cases schema <;> cases capabilities <;> rfl

/-- What completion makes of a configuration with all that is inherited. -/
def configured (env : Surroundings) (σ : Session) (c : Caller) (noFetch : Bool)
    (configuration : Configuration) : Configuration :=
  noted (peek env σ (native c noFetch configuration).run) configuration

theorem configured_congr (σ τ : Session) (noFetch : Bool) (configuration : Configuration) :
    configured env σ c noFetch configuration = configured env τ c noFetch configuration := by
  rw [configured, configured, peek_native σ τ c c noFetch configuration]

/-- The connector says again what it has said before, and what is stored was there already. -/
theorem configured_again (env : Surroundings) (σ : Session) (c : Caller) (noFetch : Bool)
    (configuration : Configuration) :
    configured env σ c noFetch (configured env σ c noFetch configuration) =
      configured env σ c noFetch configuration := by
  cases noFetch with
  | true =>
    have hstored : configuration.noting (stored configuration).1 = configuration := by
      simp [Configuration.noting, stored]
    have hsame : configured env σ c true configuration = configuration := by
      rcases noted_cases (.ok (stored configuration)) configuration with h | ⟨_, _, _, he, h⟩
      · exact h
      · cases he
        exact (noted_of_ok (stored configuration).2 h).trans hstored
    rw [hsame, hsame]
  | false =>
    obtain ⟨had, hnoted⟩ :=
      exists_noting (peek env σ (native c false configuration).run) configuration
    have hfetch : peek env σ (native c false (configured env σ c false configuration)).run =
        peek env σ (native c false configuration).run := by
      rw [configured, hnoted]
      rfl
    rw [configured, hfetch]
    exact noted_again _ configuration

/-! ### The configuration that is left -/

/-- A completion leaves the configuration with all that is inherited and noted, or as it was if that
is not found. -/
theorem configuration_outcome (env : Surroundings) (σ : Session) (c : Caller) (mode : Mode)
    (hraw : raw.isCompleted = false) :
    (outcome env σ c mode raw).definition.configuration =
      match inherited env σ c mode.templateLimit raw with
      | .error _ => raw.configuration
      | .ok found => configured env σ c mode.noFetch found.configuration := by
  have hinherited : inherited env σ c mode.templateLimit raw =
      peek env σ (resolve c mode.templateLimit raw).run :=
    (run_of_reading env (resolve_reads c mode.templateLimit raw) σ).1
  rw [outcome, (run_of_reading env (run_reads c mode raw) σ).1, peek_run c mode hraw, hinherited]
  cases peek env σ (resolve c mode.templateLimit raw).run with
  | error e => rfl
  | ok found =>
    dsimp only
    unfold configured
    cases peek env σ (native c mode.noFetch found.configuration).run with
    | error e => rfl
    | ok answer => exact configuration_assemble ..

/-- A completion leaves the reference to the template as it is. -/
theorem superRef_outcome (env : Surroundings) (σ : Session) (c : Caller) (mode : Mode)
    (hraw : raw.isCompleted = false) :
    (outcome env σ c mode raw).definition.configuration.superRef = raw.configuration.superRef := by
  rw [configuration_outcome env σ c mode hraw]
  cases hinherits : inherited env σ c mode.templateLimit raw with
  | error e => rfl
  | ok found =>
    obtain ⟨chain, -, rfl⟩ := exists_chain_of_inherited hinherits
    obtain ⟨native, hnoted⟩ := exists_noting
      (peek env σ (native c mode.noFetch (configuration raw.configuration chain)).run)
      (configuration raw.configuration chain)
    dsimp only [configured]
    rw [hnoted]
    exact superRef_configuration raw.configuration chain

/-- What is merged already inherits nothing new along the same way, whatever was noted since. -/
theorem inherited_again (hlimit : σ.store.objects.size < limit) {native : Native}
    (hraw : raw.configuration.Orderly) (habove : OrderlyAbove env σ c limit raw)
    (h : Passes σ.store [raw.oid] raw.configuration.superRef chain none)
    (hoid : again.oid = raw.oid)
    (hagain : again.configuration = (configuration raw.configuration chain).noting native) :
    inherited env σ c limit again = .ok ⟨again.configuration, versions chain⟩ := by
  have hsuper : again.configuration.superRef = raw.configuration.superRef := by
    rw [hagain]
    exact superRef_configuration raw.configuration chain
  have hpasses : Passes σ.store [again.oid] again.configuration.superRef chain none := by
    rwa [hoid, hsuper]
  have hmerged : configuration again.configuration chain = again.configuration := by
    have hfound := inherited_of_passes env σ c hlimit h
    have hfound' := inherited_of_passes env σ c hlimit hpasses
    rw [hsuper] at hfound'
    cases hnext : raw.configuration.superRef with
    | none =>
      rw [hnext] at hfound
      obtain rfl : chain = [] := hfound
      rfl
    | some oid =>
      -- Both have the same template, which inherits the same.
      rw [hnext] at hfound hfound'
      obtain ⟨template, above, hstored, hinherits, hmerged, -⟩ := hfound
      obtain ⟨_, _, hstored', hinherits', hmerged', -⟩ := hfound'
      obtain rfl := Option.some.inj (hstored.symm.trans hstored')
      obtain rfl := Except.ok.inj (hinherits.symm.trans hinherits')
      rw [hmerged', hagain, hmerged, Configuration.noting_mergedOver,
        Configuration.mergedOver_again hraw (habove oid template above hnext hstored hinherits)]
  have hlength : chain.length ≤ limit := Nat.le_of_lt (Nat.lt_of_le_of_lt h.length_le hlimit)
  rw [inherited_eq, peek_templates_of_passes hpasses hlength]
  exact congrArg (fun merged => Except.ok (⟨merged, versions chain⟩ : Resolved)) hmerged

/-- What a completion has left of a resource, another one inherits as it is. -/
theorem configuration_outcome_again (hlimit : σ.store.objects.size < mode.templateLimit)
    (hraw : raw.isCompleted = false) (hown : raw.configuration.Orderly)
    (habove : OrderlyAbove env σ c mode.templateLimit raw)
    (hτ : StoredAlike σ τ raw.configuration.superRef) (hoid : again.oid = raw.oid)
    (hagain : again.configuration = (outcome env σ c mode raw).definition.configuration)
    (hcompleted : again.isCompleted = false) :
    (outcome env τ c mode again).definition.configuration = again.configuration := by
  have hsuper : again.configuration.superRef = raw.configuration.superRef := by
    rw [hagain]
    exact superRef_outcome env σ c mode hraw
  rw [configuration_outcome env σ c mode hraw] at hagain
  rw [configuration_outcome env τ c mode hcompleted, inherited_congr (hsuper.symm ▸ hτ)]
  cases hinherits : inherited env σ c mode.templateLimit raw with
  | error e =>
    -- Nothing was merged, and templates are looked for in vain again.
    rw [hinherits] at hagain
    have hsame : inherited env σ c mode.templateLimit again = .error e := by
      rw [← hinherits, inherited_eq, inherited_eq, hoid, hagain]
    rw [hsame]
  | ok found =>
    rw [hinherits] at hagain
    obtain ⟨chain, hpasses, rfl⟩ : ∃ chain,
        Passes σ.store [raw.oid] raw.configuration.superRef chain none ∧
          ⟨configuration raw.configuration chain, versions chain⟩ = found := by
      rcases inherited_cases env σ c hlimit raw with
        ⟨chain, hpasses, hok, -⟩ | ⟨_, herror, -⟩ | ⟨_, herror, -⟩
      · exact ⟨chain, hpasses, Except.ok.inj (hok.symm.trans hinherits)⟩
      · cases herror.symm.trans hinherits
      · cases herror.symm.trans hinherits
    obtain ⟨native, hnoted⟩ : ∃ native,
        again.configuration = (configuration raw.configuration chain).noting native := by
      rw [hagain]
      exact exists_noting _ _
    rw [inherited_again hlimit hown habove hpasses hoid hnoted]
    dsimp only at hagain ⊢
    rw [configured_congr τ σ, hagain, configured_again]

/-- **Merging what is inherited a second time is merging it once**, if nothing is declared twice on
either side and refinements have names.  And so a resource that was completed and is completed again
keeps the configuration that it was left with, whatever has become of it otherwise, as long as its
templates are stored as they were. -/
theorem merged_again :
    (∀ child parent : Configuration, child.Orderly → parent.Orderly →
      (child.mergedOver parent).mergedOver parent = child.mergedOver parent) ∧
    ∀ (env : Surroundings) (σ τ : Session) (c : Caller) (mode : Mode) (raw again : Resource),
      σ.store.objects.size < mode.templateLimit → raw.isCompleted = false →
      raw.configuration.Orderly → OrderlyAbove env σ c mode.templateLimit raw →
      StoredAlike σ τ raw.configuration.superRef → again.oid = raw.oid →
      again.configuration = (outcome env σ c mode raw).definition.configuration →
      (outcome env τ c mode again).definition.configuration = again.configuration := by
  refine ⟨fun _ _ => Configuration.mergedOver_again, ?_⟩
  intro env σ τ c mode raw again hlimit hraw hown habove hτ hoid hagain
  cases hcompleted : again.isCompleted with
  | true =>
    rw [outcome, run_of_completed c mode hcompleted]
    rfl
  | false =>
    exact configuration_outcome_again hlimit hraw hown habove hτ hoid hagain hcompleted

/-! ### A template and a resource -/

/-- A template with settings and declarations. -/
def sampleStem : Resource where
  oid := "directory"
  name := "directory"
  configuration := {
    connector := some ⟨"ldap", none⟩
    connectorSettings := Settings.sampleBelow
    declarations := TypeDeclaration.sampleBelow
    isTemplate := true }

/-- A resource with others. -/
def sampleScion : Resource where
  oid := "heir"
  name := "heir"
  configuration := {
    connectorSettings := Settings.sampleAbove
    declarations := TypeDeclaration.sampleAbove
    superRef := some "directory" }

/-- A repository with the template. -/
def sampleGarden : Session where
  world := { store := Store.empty.put sampleStem }

theorem merged_again_sample :
    let parent := sampleStem.configuration
    let child := sampleScion.configuration
    let left := (outcome sampleUnchanged sampleGarden default ⟨false, 3⟩
      sampleScion).definition.configuration
    child.Orderly ∧ parent.Orderly ∧
      (child.mergedOver parent).mergedOver parent = child.mergedOver parent ∧
      (outcome sampleUnchanged sampleGarden default ⟨false, 3⟩
        { sampleScion with configuration := left }).definition.configuration = left := by
  intro parent child left
  have hparent : parent.Orderly := ⟨Settings.tidy_sampleBelow, by decide, by decide⟩
  have hchild : child.Orderly := ⟨Settings.tidy_sampleAbove, by decide, by decide⟩
  have hlimit : sampleGarden.store.objects.size < 3 := by decide
  have habove : OrderlyAbove sampleUnchanged sampleGarden default 3 sampleScion := by
    intro oid template above hoid hstored hinherits
    cases hoid
    obtain rfl : sampleStem = template := Option.some.inj hstored
    obtain rfl := Except.ok.inj hinherits
    exact hparent
  have hleft : left = (outcome sampleUnchanged sampleGarden default ⟨false, 3⟩
      sampleScion).definition.configuration := rfl
  clear_value left
  exact ⟨hchild, hparent, merged_again.1 child parent hchild hparent,
    merged_again.2 sampleUnchanged sampleGarden sampleGarden default ⟨false, 3⟩ sampleScion
      { sampleScion with configuration := left } hlimit rfl hchild habove (fun _ _ _ => rfl) rfl
      hleft⟩

end Completion

end Reconciler
