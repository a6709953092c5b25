/-
Types that are declared more than once.

Building a schema reports every declaration whose kind and intent were seen before.  Templates come
before that: the declarations of a resource are merged into those of its template one by one, and
one that repeats another falls together with it.

* `Configuration.Repeats`: a kind and intent is declared more than once;
* `Inheritance.root`: the configuration at the far end of the templates, onto which all others are
  merged;
* `Completion.Finds`: templates were found, and what was exchanged after that.

Main statements:
* `Schema.reports_build_iff`: a schema reports a duplicate just when there is one;
* `Inheritance.repeats_configuration_iff`: merging leaves the duplicates of the declarations
  underneath, and no others;
* `Completion.fatal_of_repeats`: a completion is fatal when the root repeats a declaration, which is
  the resource itself if it has no template, and no duplicate is reported otherwise.

Design notes:
* A declaration that could not be built is a duplicate all the same when it comes again.
-/
import Mathlib.Tactic.Tauto
import Reconciler.Proofs.Completion.Gate
import Reconciler.Proofs.Merging.Entries

namespace Reconciler

open Program

/-- Some kind and intent is declared more than once. -/
def Configuration.Repeats (c : Configuration) : Prop :=
  ¬ (c.declarations.map TypeDeclaration.id).Nodup

instance (c : Configuration) : Decidable c.Repeats :=
  inferInstanceAs (Decidable (¬ (c.declarations.map TypeDeclaration.id).Nodup))

/-! ### What a schema reports -/

/-- If it fails, then not because of a duplicate. -/
def Misconfiguration.NoDuplicate {α : Type} (x : Except Misconfiguration α) : Prop :=
  ∀ id, x ≠ .error (.duplicateType id)

namespace Misconfiguration.NoDuplicate

variable {α β : Type}

theorem ok (a : α) : NoDuplicate (.ok a) := fun _ h => nomatch h

theorem bind {x : Except Misconfiguration α} {f : α → Except Misconfiguration β}
    (hx : NoDuplicate x) (hf : ∀ a, NoDuplicate (f a)) : NoDuplicate (x >>= f) := by
  intro id h
  cases x with
  | error e =>
    cases h
    exact hx id rfl
  | ok a => exact hf a id h

theorem foldlM {f : β → α → Except Misconfiguration β} (hf : ∀ b a, NoDuplicate (f b a))
    (as : List α) (b : β) : NoDuplicate (as.foldlM f b) := by
  induction as generalizing b with
  | nil => exact ok b
  | cons a as ih => exact bind (hf b a) ih

end Misconfiguration.NoDuplicate

open Misconfiguration (NoDuplicate)

theorem AttributeRefinement.noDuplicate_applyTo (r : AttributeRefinement)
    (base : AttributeDefinition) : NoDuplicate (r.applyTo base) := by
  intro id h
  unfold applyTo at h
  split at h
  · cases h
  · dsimp only at h
    split at h <;> cases h

theorem CapabilitySet.noDuplicate_withOverrides (s : CapabilitySet) (overrides : Settings) :
    NoDuplicate (withOverrides s overrides) := by
  refine .foldlM (fun acc e => .bind ?_ fun c => .bind ?_ fun o => .ok _) _ _
  · intro id h
    unfold Capability.ofName at h
    split at h <;> cases h
  · intro id h
    unfold CapabilityOverride.ofJson at h
    split at h
    · cases h
    · dsimp only at h
      split at h <;> cases h
    · cases h

namespace Schema

theorem noDuplicate_refineAttributes (type : TypeId) (c : ObjectClass)
    (refinements : List AttributeRefinement) :
    NoDuplicate (refineAttributes type c refinements) := by
  refine .foldlM (fun acc r => ?_) _ _
  split
  · exact fun _ h => nomatch h
  · split
    · exact fun _ h => nomatch h
    · exact .bind (r.noDuplicate_applyTo _) fun _ => .ok _

/-- Whether a declaration is a duplicate is not seen from the declaration alone. -/
theorem noDuplicate_resolve (s : Schema) (resource : CapabilitySet) (d : TypeDeclaration) :
    NoDuplicate (s.resolve resource d) := by
  have hauxiliary : NoDuplicate (s.checkAuxiliary d.id d.auxiliaryClasses) := by
    intro id h
    unfold checkAuxiliary at h
    split at h <;> cases h
  have hcapabilities : NoDuplicate (typeCapabilities resource d.capabilities) := by
    unfold typeCapabilities
    split
    · exact .ok _
    · exact .bind (CapabilitySet.noDuplicate_withOverrides _ _) fun _ => .ok _
  unfold resolve
  split
  · exact fun _ h => nomatch h
  · split
    · exact fun _ h => nomatch h
    · exact .bind (noDuplicate_refineAttributes _ _ _) fun _ =>
        .bind hauxiliary fun _ => .bind hcapabilities fun _ => .ok _

/-- A declaration was reported as a duplicate. -/
def Reports (errors : List Misconfiguration) : Prop :=
  ∃ id, Misconfiguration.duplicateType id ∈ errors

theorem reports_append_iff {errors : List Misconfiguration} {e : Misconfiguration} :
    Reports (errors ++ [e]) ↔ Reports errors ∨ ∃ id, e = .duplicateType id := by
  simp only [Reports, List.mem_append, List.mem_singleton, exists_or, eq_comm]

namespace Draft

/-- A declaration counts as seen, whatever becomes of it; it is reported as a duplicate just when
its like was seen before. -/
theorem declare_seen (resource : CapabilitySet) (b : Draft) (d : TypeDeclaration) :
    (∀ id, id ∈ (b.declare resource d).seen ↔ id = d.id ∨ id ∈ b.seen) ∧
      (Reports (b.declare resource d).errors ↔ Reports b.errors ∨ d.id ∈ b.seen) := by
  by_cases hseen : d.id ∈ b.seen
  · have hdeclare : b.declare resource d = b.report (.duplicateType d.id) :=
      if_pos (List.contains_iff_mem.2 hseen)
    rw [hdeclare]
    refine ⟨fun id => ?_, ?_⟩
    · exact ⟨.inr, fun h => h.elim (· ▸ hseen) fun h => h⟩
    · exact reports_append_iff.trans ⟨fun _ => .inr hseen, fun _ => .inr ⟨_, rfl⟩⟩
  · -- What is reported from here on is something else.
    have hother : ∀ e, (∀ id, e ≠ Misconfiguration.duplicateType id) →
        (Reports (b.errors ++ [e]) ↔ Reports b.errors ∨ d.id ∈ b.seen) := by
      intro e he
      rw [reports_append_iff, or_iff_left fun ⟨id, h⟩ => he id h, or_iff_left hseen]
    unfold declare
    rw [if_neg fun h => hseen (List.contains_iff_mem.1 h)]
    split
    · exact ⟨fun id => List.mem_cons, hother _ fun _ h => nomatch h⟩
    · dsimp only
      split
      · exact ⟨fun id => List.mem_cons, (or_iff_left hseen).symm⟩
      · next e he =>
        refine ⟨fun id => List.mem_cons, hother e ?_⟩
        rintro id rfl
        exact noDuplicate_resolve _ _ _ id he

theorem reports_foldl_iff (resource : CapabilitySet) (ds : List TypeDeclaration) (b : Draft) :
    Reports (ds.foldl (declare resource) b).errors ↔
      Reports b.errors ∨ ¬ ((ds.map TypeDeclaration.id).Nodup ∧
        ∀ id ∈ ds.map TypeDeclaration.id, id ∉ b.seen) := by
  induction ds generalizing b with
  | nil => simp
  | cons d ds ih =>
    obtain ⟨hseen, hreports⟩ := declare_seen resource b d
    have hlater : (∀ id ∈ ds.map TypeDeclaration.id, id ∉ (b.declare resource d).seen) ↔
        d.id ∉ ds.map TypeDeclaration.id ∧ ∀ id ∈ ds.map TypeDeclaration.id, id ∉ b.seen := by
      simp only [hseen, not_or]
      exact ⟨fun h => ⟨fun hd => (h _ hd).1 rfl, fun id hid => (h id hid).2⟩,
        fun h id hid => ⟨fun he => h.1 (he ▸ hid), h.2 id hid⟩⟩
    rw [List.foldl_cons, ih, hreports, hlater, List.map_cons, List.nodup_cons, List.forall_mem_cons]
    -- The like of a declaration was seen before all of them, or comes later, or is among the rest.
    tauto

end Draft

/-- A schema reports a duplicate just when a kind and intent is declared more than once. -/
theorem reports_build_iff (native : NativeSchema) (declarations : List TypeDeclaration)
    (resource : CapabilitySet) :
    Reports (build native declarations resource).errors ↔
      ¬ (declarations.map TypeDeclaration.id).Nodup := by
  refine (Draft.reports_foldl_iff resource declarations _).trans ?_
  simp [Reports]

end Schema

/-! ### The far end of the templates -/

namespace Inheritance

/-- The configuration at the far end of the templates: that of the last one, or the resource's own
without templates. -/
def root (own : Configuration) : List Template → Configuration
  | [] => own
  | (_, template) :: rest => root template.configuration rest

/-- A resource with all that it inherits repeats what the far end of its templates repeats. -/
theorem repeats_configuration_iff (own : Configuration) (chain : List Template) :
    (configuration own chain).Repeats ↔ (root own chain).Repeats := by
  induction chain generalizing own with
  | nil => exact Iff.rfl
  | cons t rest ih =>
    have hmerged : (configuration own (t :: rest)).Repeats ↔
        (configuration t.2.configuration rest).Repeats :=
      not_congr (TypeDeclaration.nodup_merge_iff _ own.declarations)
    exact hmerged.trans (ih t.2.configuration)

/-- No templates are found just when none is referred to. -/
theorem eq_nil_iff_of_yields_templates {c : Caller} {resource : String} {limit : Nat}
    {visited : List String} {next : Option String} {chain : List Template}
    {trace rest : List Exchange}
    (h : (templates c resource limit visited next).run.Yields trace (.ok chain) rest) :
    chain = [] ↔ next = none := by
  cases next with
  | none =>
    have hnil : (templates c resource limit visited none).run = .done (.ok []) := by
      cases limit <;> rfl
    rw [hnil] at h
    obtain ⟨he, -⟩ := h
    cases he
    exact ⟨fun _ => rfl, fun _ => rfl⟩
  | some oid =>
    refine ⟨fun hchain => ?_, fun h => nomatch h⟩
    subst hchain
    cases limit with
    | zero =>
      rw [templates] at h
      split at h
      · obtain ⟨he, -⟩ := h
        cases he
      · obtain ⟨he, -⟩ := h
        cases he
    | succ limit =>
      rw [templates_succ] at h
      split at h
      · obtain ⟨he, -⟩ := h
        cases he
      · rcases yields_action_bind_iff.1 h with ⟨_, -, he⟩ | ⟨template, more, -, hlater⟩
        · cases he
        obtain ⟨_, _, rfl, hlater⟩ := hlater
        rcases yields_action_bind_iff.1 hlater with ⟨_, -, he⟩ | ⟨others, _, -, he, -⟩
        · cases he
        · cases he

end Inheritance

/-! ### What a completion reports -/

namespace Completion

variable {c : Caller} {mode : Mode} {raw : Resource} {trace rest : List Exchange} {o : Completion}
variable {chain : List Inheritance.Template} {native : Native} {found : Findings}

/-- These templates were found, the nearest first, after an announcement, and this followed. -/
def Finds (c : Caller) (mode : Mode) (raw : Resource) (trace : List Exchange)
    (chain : List Inheritance.Template) (rest : List Exchange) : Prop :=
  ∃ announcement more, trace = announcement :: more ∧
    (Inheritance.templates c raw.oid mode.templateLimit [raw.oid]
      raw.configuration.superRef).run.Yields more (.ok chain) rest

theorem Finds.resolves (h : Finds c mode raw trace chain rest) :
    Resolves c mode raw trace (.ok ⟨Inheritance.configuration raw.configuration chain,
      Inheritance.versions chain⟩) rest := by
  obtain ⟨announcement, more, rfl, h⟩ := h
  exact ⟨announcement, more, rfl, yields_action_bind_iff.2 (.inr ⟨chain, rest, h, rfl, rfl⟩)⟩

/-- A type was reported as declared more than once. -/
def ReportsDuplicate (o : Completion) : Prop :=
  ∃ id, ⟨.fatalError, .misconfiguration (.duplicateType id)⟩ ∈ o.problems

theorem reportsDuplicate_conclude_iff {definition : Resource} {status : StepStatus}
    {errors : List Misconfiguration} :
    (conclude definition status
      (errors.map fun e => ⟨.fatalError, .misconfiguration e⟩)).ReportsDuplicate ↔
      Schema.Reports errors := by
  simp [ReportsDuplicate, Schema.Reports, conclude, List.mem_mergeSort]

theorem status_conclude_of_mem {definition : Resource} {status : StepStatus}
    {problems : List Problem} {p : Problem} (hp : p ∈ problems) (hfatal : p.status.isFatal = true) :
    (conclude definition status problems).status = .fatalError := by
  have hworst : (worstOf status problems).isFatal = true := by
    rw [isFatal_worstOf, Bool.or_eq_true]
    exact .inr (List.any_eq_true.2 ⟨p, hp, hfatal⟩)
  exact eq_of_beq hworst

/-- What is declared more than once is fatal, and is reported unless something was wrong before the
declarations were looked at. -/
theorem assemble_repeats (definition : Resource) (schema : NativeSchema) (known : CapabilitySet) :
    (definition.configuration.Repeats →
        (assemble definition ⟨some schema, some known⟩ {}).status = .fatalError) ∧
      ((assemble definition ⟨some schema, some known⟩ {}).ReportsDuplicate ↔
        definition.configuration.Repeats ∧ ∃ capabilities,
          CapabilitySet.withOverrides known definition.configuration.capabilities =
            .ok capabilities) := by
  cases hoverrides : CapabilitySet.withOverrides known definition.configuration.capabilities with
  | error e =>
    have hassemble : assemble definition ⟨some schema, some known⟩ {} =
        conclude definition .success [⟨.fatalError, .misconfiguration e⟩] :=
      assemble_of_error hoverrides
    rw [hassemble]
    refine ⟨fun _ => status_conclude_of_mem List.mem_cons_self rfl, ?_⟩
    have hreports : Schema.Reports [e] → False := by
      rintro ⟨id, hid⟩
      rw [List.mem_singleton] at hid
      exact CapabilitySet.noDuplicate_withOverrides known _ id (hid ▸ hoverrides)
    refine ⟨fun h => (hreports ?_).elim, fun ⟨_, _, h⟩ => nomatch h⟩
    exact reportsDuplicate_conclude_iff.1 h
  | ok capabilities =>
    obtain ⟨built, -, hassemble⟩ :=
      assemble_of_ok definition ⟨some schema, some known⟩ {} hoverrides
    have hreports : Schema.Reports
        (declarationErrors definition.configuration capabilities (some schema)) ↔
          definition.configuration.Repeats :=
      Schema.reports_build_iff schema _ capabilities
    rw [hassemble, List.nil_append, reportsDuplicate_conclude_iff, hreports]
    refine ⟨fun hrepeats => ?_, ⟨fun h => ⟨h, capabilities, rfl⟩, And.left⟩⟩
    obtain ⟨id, hid⟩ := hreports.2 hrepeats
    exact status_conclude_of_mem (List.mem_map.2 ⟨_, hid, rfl⟩) rfl

/-- **What is declared more than once at the far end of the templates makes a completion fatal**, if
the templates are found and the connector answers; without a template that is the resource itself.
What is declared more than once above that is not reported: a duplicate is reported just when there
is one at the far end, and the overrides of capabilities are good. -/
theorem fatal_of_repeats (hraw : raw.isCompleted = false) (hfetch : mode.noFetch = false)
    (h : (run c mode raw).Reaches trace (.done o)) (hfinds : Finds c mode raw trace chain rest)
    (hanswers : Answers mode.noFetch (Inheritance.configuration raw.configuration chain) rest
      (.ok (native, found))) :
    (chain = [] ↔ raw.configuration.superRef = none) ∧
      ((Inheritance.root raw.configuration chain).Repeats → o.status = .fatalError) ∧
      (o.ReportsDuplicate ↔ (Inheritance.root raw.configuration chain).Repeats ∧
        ∃ capabilities, CapabilitySet.withOverrides (native.capabilities.getD .empty)
          (Inheritance.configuration raw.configuration chain).capabilities = .ok capabilities) := by
  have ho : o = continued raw ⟨Inheritance.configuration raw.configuration chain,
      Inheritance.versions chain⟩ (.ok (native, found)) :=
    (course_of_run hraw h).eq_of_ok hfinds.resolves hanswers
  obtain ⟨_, _, rfl, htemplates⟩ := hfinds
  refine ⟨Inheritance.eq_nil_iff_of_yields_templates htemplates, ?_⟩
  obtain ⟨hno, -⟩ | ⟨_, schema, known, _, -, -, -, rfl, rfl⟩ := hanswers.found_cases
  · rw [hfetch] at hno
    cases hno
  · rw [← Inheritance.repeats_configuration_iff, ho]
    exact assemble_repeats (inheriting raw ⟨_, _⟩) schema known

/-! ### One type declared twice -/

/-- The same type twice. -/
def sampleTwice : List TypeDeclaration :=
  List.replicate 2
    { kind := .account, intent := "default", objectClass := some (.unqualified "person") }

/-- A resource without a template that declares a type twice. -/
def sampleRepeating : Resource where
  oid := "repeating"
  name := "repeating"
  configuration := { connector := some ⟨"ldap", none⟩, declarations := sampleTwice }

/-- The same resource with the connector of a template. -/
def sampleRepeatingHeir : Resource where
  oid := "repeating"
  name := "repeating"
  configuration := { superRef := some "directory", declarations := sampleTwice }

/-- Connectors to resources with persons. -/
def samplePersons : Connectors
  | _, .schema => .ok { classes := [{ name := .unqualified "person" }] }
  | _, .capabilities => .ok .empty
  | _, _ => .error default

/-- How they answer, and the repository if it has the template only. -/
def samplePersonsAnswer (r : Request) : r.Reply :=
  (World.answer samplePersons { store := Store.empty.put sampleTemplate } r).1

/-- Without a template, the resource fails. -/
theorem fatal_of_repeats_sample : ∃ trace o rest native found,
    sampleRepeating.isCompleted = false ∧
    (run default ⟨false, 3⟩ sampleRepeating).Reaches trace (.done o) ∧
    Finds default ⟨false, 3⟩ sampleRepeating trace [] rest ∧
    Answers false sampleRepeating.configuration rest (.ok (native, found)) ∧
    o.status = .fatalError := by
  have hreaches := Program.reaches_transcript samplePersonsAnswer
    (run default ⟨false, 3⟩ sampleRepeating)
  have hrepeats : sampleRepeating.configuration.Repeats := by decide
  have hfinds : Finds default ⟨false, 3⟩ sampleRepeating
      ((run default ⟨false, 3⟩ sampleRepeating).transcript samplePersonsAnswer).1 []
      ((run default ⟨false, 3⟩ sampleRepeating).transcript samplePersonsAnswer).1.tail :=
    ⟨_, _, rfl, rfl, rfl⟩
  have hanswers : Answers false sampleRepeating.configuration
      ((run default ⟨false, 3⟩ sampleRepeating).transcript samplePersonsAnswer).1.tail
      (.ok (_, _)) :=
    .fetched rfl rfl rfl
  exact ⟨_, _, _, _, _, rfl, hreaches, hfinds, hanswers,
    (fatal_of_repeats rfl rfl hreaches hfinds hanswers).2.1 hrepeats⟩

/-- With a template, the same declarations are merged into one, and all goes well. -/
theorem repeating_heir_succeeds : ∃ trace o chain rest native found,
    sampleRepeatingHeir.isCompleted = false ∧ sampleRepeatingHeir.configuration.Repeats ∧
    (run default ⟨false, 3⟩ sampleRepeatingHeir).Reaches trace (.done o) ∧
    Finds default ⟨false, 3⟩ sampleRepeatingHeir trace chain rest ∧
    Answers false (Inheritance.configuration sampleRepeatingHeir.configuration chain) rest
      (.ok (native, found)) ∧
    o.status = .success := by
  have hreaches := Program.reaches_transcript samplePersonsAnswer
    (run default ⟨false, 3⟩ sampleRepeatingHeir)
  refine ⟨_, _, _, _, _, _, rfl, by decide, hreaches,
    ⟨_, _, rfl, ⟨_, _, rfl, _, _, rfl, rfl, rfl⟩⟩, .fetched rfl rfl rfl, ?_⟩
  decide +kernel

end Completion

end Reconciler
