/-
Completions that fail because something could not be reached.

* `ConnectorError.OutOfReach`: a connector could not reach its resource, or not in time;
* `Completion.OutOfReach`: what a completion was told when it could not reach something.

Main statements:
* `Inheritance.unavailable_of_yields_templates`: among the failures to find templates, only an
  unavailable repository is one of communication;
* `Completion.outOfReach_iff`: a completion fails for lack of communication just when its connector
  could not reach the resource, or the repository was unavailable when a template was read.

Design notes:
* The kind of a failure is all that is looked at to tell whether a resource could not be reached.
  It does not tell a resource that is out of reach from a repository that is.
-/
import Reconciler.Proofs.Completion.Gate

namespace Reconciler

open Program

/-! ### Failures of communication -/

/-- The connector could not reach its resource, or not in time. -/
def ConnectorError.OutOfReach : ConnectorError → Prop
  | unreachable _ | timeout _ _ => True
  | _ => False

theorem ConnectorError.kind_eq_communication_iff {e : ConnectorError} :
    e.kind = .communication ↔ e.OutOfReach := by
  cases e <;> simp [kind, OutOfReach]

theorem StoreError.kind_eq_communication_iff {e : StoreError} :
    e.kind = .communication ↔ ∃ message, e = .unavailable message := by
  cases e <;> simp [kind]

variable {c : Caller} {trace rest : List Exchange} {e : ProvisioningError}

/-- A request to the repository fails for lack of communication if the repository is unavailable. -/
theorem unavailable_of_yields_store {r : StoreRequest}
    (h : (Action.store r).run.Yields trace (.error e) rest) (hkind : e.kind = .communication) :
    ∃ message, e = .store (.unavailable message) ∧
      trace = ⟨.store r, .error (.unavailable message)⟩ :: rest := by
  obtain ⟨reply, _, rfl, hreply, rfl⟩ := h
  cases reply with
  | ok a => cases hreply
  | error cause =>
    cases hreply
    have hcause : cause.kind = .communication := ProvisioningError.kind_ofStore cause ▸ hkind
    obtain ⟨message, rfl⟩ := StoreError.kind_eq_communication_iff.1 hcause
    exact ⟨message, rfl, rfl⟩

namespace Inheritance

/-- Of what can go wrong with templates, only an unavailable repository is a failure of
communication. -/
theorem unavailable_of_yields_templates {resource : String} {limit : Nat} {visited : List String}
    {next : Option String}
    (h : (templates c resource limit visited next).run.Yields trace (.error e) rest)
    (hkind : e.kind = .communication) :
    ∃ template message, e = .store (.unavailable message) ∧
      ⟨.store (.read template), .error (.unavailable message)⟩ ∈ trace := by
  induction limit generalizing visited next trace with
  | zero =>
    cases next with
    | none =>
      obtain ⟨he, -⟩ := h
      cases he
    | some oid =>
      rw [templates] at h
      split at h
      · obtain ⟨he, -⟩ := h
        cases he
        cases hkind
      · obtain ⟨he, -⟩ := h
        cases he
        cases hkind
  | succ limit ih =>
    cases next with
    | none =>
      obtain ⟨he, -⟩ := h
      cases he
    | some oid =>
      rw [templates_succ] at h
      split at h
      · obtain ⟨he, -⟩ := h
        cases he
        cases hkind
      · -- Either this template could not be read, or it is one of those after it.
        rcases yields_action_bind_iff.1 h with ⟨e', hread, he⟩ | ⟨template, more, hread, hlater⟩
        · cases he
          obtain ⟨message, rfl, rfl⟩ := unavailable_of_yields_store hread hkind
          exact ⟨oid, message, rfl, List.mem_cons_self⟩
        obtain ⟨reply, _, rfl, -, rfl⟩ := hread
        obtain ⟨_, more, rfl, hlater⟩ := hlater
        rcases yields_action_bind_iff.1 hlater with ⟨e', hothers, he⟩ | ⟨_, _, _, he, _⟩
        · cases he
          obtain ⟨template, message, he, hmem⟩ := ih hothers
          exact ⟨template, message, he, List.mem_cons_of_mem _ (List.mem_cons_of_mem _ hmem)⟩
        · cases he

theorem unavailable_of_yields_resolve {limit : Nat} {raw : Resource}
    (h : (resolve c limit raw).run.Yields trace (.error e) rest)
    (hkind : e.kind = .communication) :
    ∃ template message, e = .store (.unavailable message) ∧
      ⟨.store (.read template), .error (.unavailable message)⟩ ∈ trace := by
  rcases yields_action_bind_iff.1 h with ⟨e', htemplates, he⟩ | ⟨_, _, _, he, _⟩
  · cases he
    exact unavailable_of_yields_templates htemplates hkind
  · cases he

end Inheritance

/-! ### Completions -/

namespace Completion

variable {mode : Mode} {raw : Resource} {o : Completion}

/-- A completion could not reach something, and was told so with this failure. -/
inductive OutOfReach (c : Caller) (mode : Mode) (raw : Resource) (trace : List Exchange) :
    ProvisioningError → Prop where
  /-- The connector of the resource could not reach it. -/
  | connector {inherited : Inheritance.Resolved} {target : Target} {request : ConnectorRequest}
      {e : ConnectorError} {rest : List Exchange}
      (resolves : Resolves c mode raw trace (.ok inherited) rest)
      (connects : inherited.configuration.target? = some target)
      (answers : Answers mode.noFetch inherited.configuration rest (.error (.ofConnector e)))
      (called : ⟨.connector target request, .error e⟩ ∈ trace)
      (out : e.OutOfReach) : OutOfReach c mode raw trace (.ofConnector e)
  /-- The repository was unavailable when a template was read. -/
  | template {template message : String} {rest : List Exchange}
      (resolves : Resolves c mode raw trace (.error (.store (.unavailable message))) rest)
      (read : ⟨.store (.read template), .error (.unavailable message)⟩ ∈ trace) :
      OutOfReach c mode raw trace (.store (.unavailable message))

theorem OutOfReach.kind (h : OutOfReach c mode raw trace e) : e.kind = .communication := by
  cases h with
  | connector _ _ _ _ out =>
    rw [ProvisioningError.kind_ofConnector]
    exact ConnectorError.kind_eq_communication_iff.2 out
  | template _ _ => rfl

theorem OutOfReach.fails (h : OutOfReach c mode raw trace e) : Fails c mode raw trace [e] := by
  cases h with
  | connector resolves _ answers _ _ => exact .connector resolves answers
  | template resolves _ => exact .templates resolves

theorem Resolves.mem_of_mem {x : Except ProvisioningError Inheritance.Resolved}
    (h : Resolves c mode raw trace x rest) {y : Exchange} (hy : y ∈ rest) : y ∈ trace := by
  obtain ⟨announcement, more, rfl, h⟩ := h
  exact List.mem_cons_of_mem _ (h.suffix.subset hy)

/-- The first fatal problem of a completion is one of communication if it could not reach
something. -/
theorem Fails.outOfReach {errors : List ProvisioningError}
    (h : Fails c mode raw trace (e :: errors)) (hkind : e.kind = .communication) :
    OutOfReach c mode raw trace e := by
  generalize hall : e :: errors = all at h
  cases h with
  | templates resolves =>
    cases hall
    obtain ⟨_, more, rfl, hresolve⟩ := resolves
    obtain ⟨template, message, rfl, hmem⟩ :=
      Inheritance.unavailable_of_yields_resolve hresolve hkind
    exact .template ⟨_, more, rfl, hresolve⟩ (List.mem_cons_of_mem _ hmem)
  | connector resolves answers =>
    cases hall
    have hout : ∀ {cause : ConnectorError}, (ProvisioningError.ofConnector cause).kind =
        .communication → cause.OutOfReach := by
      intro cause hcause
      rw [ProvisioningError.kind_ofConnector] at hcause
      exact ConnectorError.kind_eq_communication_iff.1 hcause
    cases answers with
    | missing _ _ => cases hkind
    | @noSchema target _ _ hfetch connects fetches =>
      have hcall : (⟨.connector target .schema, .error _⟩ : Exchange) ∈ trace :=
        resolves.mem_of_mem (fetches ▸ List.mem_cons_self)
      exact .connector resolves connects (.noSchema hfetch connects fetches) hcall (hout hkind)
    | @noCapabilities target _ _ _ hfetch connects fetches =>
      have hcall : (⟨.connector target .capabilities, .error _⟩ : Exchange) ∈ trace :=
        resolves.mem_of_mem (fetches ▸ List.mem_cons_of_mem _ List.mem_cons_self)
      exact .connector resolves connects (.noCapabilities hfetch connects fetches) hcall
        (hout hkind)
  | overrides _ _ _ =>
    cases hall
    cases hkind
  | declarations _ _ _ _ =>
    -- All of these are misconfigurations.
    obtain ⟨cause, -, rfl⟩ := List.mem_map.1 (hall ▸ List.mem_cons_self : e ∈ List.map _ _)
    cases hkind

/-- A resource that is completed already is left as it is. -/
theorem eq_of_isCompleted (hraw : raw.isCompleted = true)
    (h : (run c mode raw).Reaches trace (.done o)) : o = ⟨raw, .success, []⟩ := by
  unfold run at h
  rw [if_pos hraw] at h
  cases h
  rfl

/-- How far completion got goes by its status. -/
theorem Course.completionStatus (h : Course c mode raw trace o) :
    o.definition.completionStatus = o.status.completionStatus := by
  cases h with
  | templates _ => rfl
  | @continued inherited _ y _ _ =>
    cases y with
    | error e => rfl
    | ok known =>
      obtain ⟨native, found⟩ := known
      rw [Completion.continued]
      cases hoverrides : CapabilitySet.withOverrides (native.capabilities.getD .empty)
          (inheriting raw inherited).configuration.capabilities with
      | error e =>
        rw [assemble_of_error hoverrides]
        rfl
      | ok capabilities =>
        obtain ⟨built, -, hassemble⟩ :=
          assemble_of_ok (inheriting raw inherited) native found hoverrides
        rw [hassemble]
        rfl

theorem isFatal_of_result (hresult : o.result = .error e) : o.status.isFatal = true := by
  cases hfatal : o.status.isFatal with
  | true => rfl
  | false =>
    rw [result_eq_ok_iff.2 ⟨hfatal, rfl⟩] at hresult
    cases hresult

/-- A completion that fails has a first fatal problem, and tells it. -/
theorem exists_fails_of_result (hraw : raw.isCompleted = false)
    (h : (run c mode raw).Reaches trace (.done o)) (hresult : o.result = .error e) :
    ∃ cause errors, Fails c mode raw trace (cause :: errors) ∧
      e = .completionFailed raw.oid cause (some o.definition) := by
  have hcourse : Course c mode raw trace o := course_of_run hraw h
  have hfatal : o.status = .fatalError := eq_of_beq (isFatal_of_result hresult)
  rcases hcourse.cases_outcome with hgoes | ⟨-, hstatus⟩ | ⟨errors, hfails⟩
  · rw [(hcourse.of_goesThrough hgoes).1] at hfatal
    cases hfatal
  · rw [hcourse.completionStatus, hfatal] at hstatus
    cases hstatus
  · obtain ⟨cause, others, rfl⟩ := List.exists_cons_of_ne_nil hfails.ne_nil
    rw [(hcourse.of_fails hfails).2] at hresult
    exact ⟨cause, others, hfails, (Except.error.inj hresult).symm⟩

/-- What could not be reached, if a completion failed for lack of communication. -/
theorem outOfReach_of_result (h : (run c mode raw).Reaches trace (.done o))
    (hresult : o.result = .error e) (hkind : e.kind = .communication) :
    ∃ cause, e = .completionFailed raw.oid cause (some o.definition) ∧
      OutOfReach c mode raw trace cause := by
  cases hraw : raw.isCompleted with
  | true =>
    rw [eq_of_isCompleted hraw h] at hresult
    cases hresult
  | false =>
    obtain ⟨cause, errors, hfails, rfl⟩ := exists_fails_of_result hraw h hresult
    exact ⟨cause, rfl, hfails.outOfReach hkind⟩

/-- **A completion fails for lack of communication just when it could not reach something**: a
resource by its connector, or a template in the repository. -/
theorem outOfReach_iff (hraw : raw.isCompleted = false)
    (h : (run c mode raw).Reaches trace (.done o)) :
    (∃ e, o.result = .error e ∧ e.kind = .communication) ↔
      ∃ cause, OutOfReach c mode raw trace cause := by
  constructor
  · rintro ⟨e, hresult, hkind⟩
    obtain ⟨cause, -, hout⟩ := outOfReach_of_result h hresult hkind
    exact ⟨cause, hout⟩
  · rintro ⟨cause, hout⟩
    exact ⟨_, ((course_of_run hraw h).of_fails hout.fails).2, hout.kind⟩

end Completion

end Reconciler
