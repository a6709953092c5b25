/-
What operations offer to the cache, and where they have it from.

* `Exchange.Proper`: the repository showed nothing completed, and the cache what was put there;
* `Backed`: an offer goes by a ticket that was taken, and by versions that the repository showed;
* `Request.ChecksVersions`, `Request.Abstains`: a request asks for a version at most, or leaves
  single entries of the cache alone;
* `Operation.brought?`: what an operation is given to complete;
* `Operation.MayFill`: the operations that may change single entries of the cache.

Main statements:
* `Inheritance.read_of_yields_resolve`: templates are noted as they were read;
* `Definitions.exists_checks_of_yields`: what the cache hands out was checked version by version;
* `Service.get_meets`: what is got has a version that the repository told in the meantime;
* `Operation.meets`: every offer of an operation is backed.

Design notes:
* That versions were shown does not tell when, and least of all that they were shown together.
-/
import Reconciler.Proofs.Completion.Gate
import Reconciler.Proofs.History
import Reconciler.Proofs.Observing

namespace Reconciler

open Program

/-! ### Proper answers -/

/-- An entry is what becomes of a resource that is put into the cache. -/
structure CacheEntry.Tagged (oid : String) (e : CacheEntry) : Prop where
  oid_eq : e.definition.oid = oid
  version_eq : e.definition.version = e.sourceVersion
  ancestors_eq : e.definition.ancestorVersions = e.ancestorVersions

/-- The repository showed nothing completed, and the cache what was put there. -/
structure Exchange.Proper (x : Exchange) : Prop where
  raw : ∀ r ∈ x.shown, r.isCompleted = false
  keyed : ∀ oid r, x = ⟨.store (.read oid), .ok r⟩ → r.oid = oid
  tagged : ∀ oid e, x = ⟨.cache (.find oid), some e⟩ → e.Tagged oid

/-! ### Templates as they were read -/

variable {c : Caller} {trace rest : List Exchange}

namespace Inheritance

theorem read_of_yields_templates {resource : String} {limit : Nat} {visited : List String}
    {next : Option String} {chain : List Template}
    (h : (templates c resource limit visited next).run.Yields trace (.ok chain) rest) :
    ∀ t ∈ chain, ⟨.store (.read t.1), .ok t.2⟩ ∈ trace := by
  induction limit generalizing visited next chain trace with
  | zero =>
    cases next with
    | none =>
      obtain ⟨he, -⟩ := h
      cases he
      exact List.forall_mem_nil _
    | some oid =>
      rw [templates] at h
      split at h
      · obtain ⟨he, -⟩ := h
        cases he
      · obtain ⟨he, -⟩ := h
        cases he
  | succ limit ih =>
    cases next with
    | none =>
      obtain ⟨he, -⟩ := h
      cases he
      exact List.forall_mem_nil _
    | some oid =>
      rw [templates_succ] at h
      split at h
      · obtain ⟨he, -⟩ := h
        cases he
      · -- One template is read and remarked on, and the rest by induction.
        rcases yields_action_bind_iff.1 h with ⟨_, -, he⟩ | ⟨template, more, hread, hlater⟩
        · cases he
        obtain ⟨reply, _, rfl, hreply, rfl⟩ := hread
        cases reply with
        | error e => cases hreply
        | ok r =>
          cases hreply
          obtain ⟨_, more, rfl, hlater⟩ := hlater
          rcases yields_action_bind_iff.1 hlater with ⟨_, -, he⟩ | ⟨others, _, hothers, hend⟩
          · cases he
          obtain ⟨he, rfl⟩ := hend
          cases he
          refine List.forall_mem_cons.2 ⟨List.mem_cons_self, fun t ht => ?_⟩
          exact List.mem_cons_of_mem _ (List.mem_cons_of_mem _ (ih hothers t ht))

/-- The versions that are noted of templates are those at which they were read. -/
theorem read_of_yields_resolve {limit : Nat} {raw : Resource} {inherited : Resolved}
    (h : (resolve c limit raw).run.Yields trace (.ok inherited) rest) :
    ∀ p ∈ inherited.ancestorVersions.entries,
      ∃ r, ⟨.store (.read p.1), .ok r⟩ ∈ trace ∧ r.version = p.2 := by
  rcases yields_action_bind_iff.1 h with ⟨_, -, he⟩ | ⟨chain, more, hchain, hend⟩
  · cases he
  obtain ⟨he, -⟩ := hend
  cases he
  intro p hp
  obtain ⟨t, ht, rfl⟩ := List.mem_map.1 (SortedMap.mem_of_mem_ofList hp)
  exact ⟨t.2, read_of_yields_templates hchain t ht, rfl⟩

end Inheritance

/-- A completion that is no failure keeps the version of its resource, and notes its templates as
they were read. -/
theorem Completion.read_of_reaches_run {mode : Mode} {raw : Resource} {o : Completion}
    (hraw : raw.isCompleted = false) (h : (run c mode raw).Reaches trace (.done o))
    (hfatal : o.status.isFatal = false) :
    o.definition.oid = raw.oid ∧ o.definition.version = raw.version ∧
      ∀ p ∈ o.definition.ancestorVersions.entries,
        ∃ r, ⟨.store (.read p.1), .ok r⟩ ∈ trace ∧ r.version = p.2 := by
  have hcourse : Course c mode raw trace o := course_of_run hraw h
  cases hcourse with
  | templates _ => cases hfatal
  | @continued inherited _ y resolves _ =>
    cases y with
    | error e => cases hfatal
    | ok known =>
      obtain ⟨native, found⟩ := known
      obtain ⟨hoid, hversion, hancestors⟩ := assemble_keeps (inheriting raw inherited) native found
      obtain ⟨_, more, rfl, hresolve⟩ := resolves
      refine ⟨hoid, hversion, fun p hp => ?_⟩
      have hp : p ∈ inherited.ancestorVersions.entries := by
        rw [continued, hancestors] at hp
        exact hp
      obtain ⟨r, hr, hv⟩ := Inheritance.read_of_yields_resolve hresolve p hp
      exact ⟨r, List.mem_cons_of_mem _ hr, hv⟩

/-! ### What the cache hands out -/

namespace Definitions

theorem yields_currentVersion? {oid : String} {v : Version}
    (h : (currentVersion? oid).run.Yields trace (.ok (some v)) rest) :
    trace = ⟨.store (.version oid), .ok v⟩ :: rest := by
  obtain ⟨reply, more, rfl, h⟩ := h
  cases reply with
  | ok v' =>
    obtain ⟨he, rfl⟩ := h
    cases he
    rfl
  | error e =>
    cases e <;> obtain ⟨he, -⟩ := h <;> cases he

/-- Templates count as current when all of their versions were told, one after another. -/
theorem yields_templatesAreCurrent {oid : String} {used : List (String × Version)}
    (h : (templatesAreCurrent c oid used).run.Yields trace (.ok true) rest) :
    ∃ checks, trace = checks ++ rest ∧
      ∀ p ∈ used, ⟨.store (.version p.1), .ok p.2⟩ ∈ checks := by
  induction used generalizing trace with
  | nil =>
    obtain ⟨-, rfl⟩ := h
    exact ⟨[], rfl, List.forall_mem_nil _⟩
  | cons p used ih =>
    obtain ⟨template, v⟩ := p
    rcases yields_action_bind_iff.1 h with ⟨_, -, he⟩ | ⟨current, more, hcurrent, h⟩
    · cases he
    split at h
    · next hv =>
      rw [hv] at hcurrent
      obtain ⟨checks, rfl, hchecks⟩ := ih h
      refine ⟨_ :: checks, yields_currentVersion? hcurrent, ?_⟩
      refine List.forall_mem_cons.2 ⟨List.mem_cons_self, fun q hq => ?_⟩
      exact List.mem_cons_of_mem _ (hchecks q hq)
    · obtain ⟨_, _, _, he, _⟩ := h
      cases he

/-- What is handed out was found first; then its own version was told, and after that those of its
templates. -/
theorem exists_checks_of_yields {oid : String} {d : Resource}
    (h : (latest? c oid).run.Yields trace (.ok (some d)) rest) :
    ∃ e checks, e.definition = d ∧
      trace = ⟨.cache (.find oid), some e⟩ :: ⟨.store (.version oid), .ok e.sourceVersion⟩ ::
        (checks ++ rest) ∧
      ∀ p ∈ e.ancestorVersions.entries, ⟨.store (.version p.1), .ok p.2⟩ ∈ checks := by
  obtain ⟨_, _, ⟨found, _, rfl, rfl, rfl⟩, hchecked⟩ := yields_lift_bind_iff.1 h
  cases found with
  | none =>
    obtain ⟨_, _, _, he, _⟩ := hchecked
    cases he
  | some e =>
    rcases yields_action_bind_iff.1 hchecked with ⟨_, -, he⟩ | ⟨current, last, hcurrent, hend⟩
    · cases he
    cases current with
    | false =>
      obtain ⟨_, _, _, _, _, _, he, _⟩ := hend
      cases he
    | true =>
      obtain ⟨_, _, rfl, he, rfl⟩ := hend
      cases he
      rcases yields_action_bind_iff.1 hcurrent with ⟨_, -, he⟩ | ⟨own, later, hown, htemplates⟩
      · cases he
      split at htemplates
      · next hv =>
        rw [hv] at hown
        obtain ⟨checks, rfl, hchecks⟩ := yields_templatesAreCurrent htemplates
        have hmore := yields_currentVersion? hown
        rw [List.append_cons] at hmore
        refine ⟨e, _, rfl, congrArg (_ :: ·) hmore, fun p hp => ?_⟩
        exact List.mem_append_left _ (hchecks p hp)
      · obtain ⟨he, -⟩ := htemplates
        cases he

end Definitions

/-! ### Offers -/

/-- What an operation has from its caller, or was shown by the repository. -/
def Had (brought : Resource → Prop) (past : List Exchange) (r : Resource) : Prop :=
  brought r ∨ ∃ x ∈ past, r ∈ x.shown

/-- An offer goes by a ticket that was taken, by a version that was had and by those of templates
that were shown. -/
structure Backed (brought : Resource → Prop) (past : List Exchange) (d : Resource)
    (since : Option Ticket) : Prop where
  ticket : ∃ t, since = some t ∧ ⟨.cache .ticket, t⟩ ∈ past
  own : ∃ r, Had brought past r ∧ r.oid = d.oid ∧ r.version = d.version
  templates : ∀ p ∈ d.ancestorVersions.entries,
    ∃ x ∈ past, ∃ r ∈ x.shown, r.oid = p.1 ∧ r.version = p.2

/-- The request is no offer. -/
def Request.OffersNothing : Request → Prop
  | .cache (.put _ _) => False
  | _ => True

/-- The request asks for a version, or is a remark. -/
def Request.ChecksVersions : Request → Prop
  | .store (.version _) | .remark _ => True
  | _ => False

/-- The request neither puts anything into the cache nor evicts anything there. -/
def Request.Abstains : Request → Prop
  | .cache (.put _ _) | .cache (.evict _ _) => False
  | _ => True

/-- The request is no offer, or a backed one. -/
def Offers (brought : Resource → Prop) (past : List Exchange) (r : Request) : Prop :=
  ∀ d since, r = .cache (.put d since) → Backed brought past d since

theorem Request.OffersNothing.offers {r : Request} (h : r.OffersNothing)
    (brought : Resource → Prop) (past : List Exchange) : Offers brought past r := by
  rintro d since rfl
  exact h.elim

theorem Request.Abstains.offersNothing {r : Request} (h : r.Abstains) : r.OffersNothing := by
  cases r with
  | cache r =>
    cases r with
    | put _ _ => exact h.elim
    | _ => trivial
  | _ => trivial

theorem Request.Reads.abstains {r : Request} (h : r.Reads) : r.Abstains := by
  cases r with
  | cache r => exact h.elim
  | _ => trivial

theorem Request.Observes.abstains {oid : String} {limit : Nat} {r : Request}
    (h : r.Observes oid limit) : r.Abstains := by
  cases r with
  | cache r =>
    cases r with
    | find _ => trivial
    | _ => exact h.elim
  | _ => trivial

theorem Request.ChecksVersions.looks {r : Request} (h : r.ChecksVersions) : r.Looks := by
  cases r with
  | store r =>
    cases r with
    | version _ => trivial
    | _ => exact h.elim
  | remark _ => trivial
  | _ => exact h.elim

theorem Request.Looks.offersNothing {r : Request} (h : r.Looks) : r.OffersNothing := by
  cases r with
  | cache r =>
    cases r with
    | put _ _ => exact h.elim
    | _ => trivial
  | _ => trivial

variable {brought : Resource → Prop} {past : List Exchange}

theorem Had.append {r : Resource} (h : Had brought past r) (later : List Exchange) :
    Had brought (past ++ later) r :=
  h.imp_right fun ⟨x, hx, hr⟩ => ⟨x, List.mem_append_left _ hx, hr⟩

/-- A program without offers gives what its exchanges show. -/
theorem Program.Meets.of_offersNothing {α : Type} {gives : List Exchange → α → Prop}
    {p : Program α} (hp : p.Asks Request.OffersNothing)
    (hgives : ∀ trace a, p.Reaches trace (done a) → (∀ x ∈ trace, x.Proper) →
      gives (past ++ trace) a) : p.Meets Exchange.Proper (Offers brought) gives past :=
  .of_asks hp (fun past _ hr => hr.offers brought past) hgives

theorem meets_of_offersNothing {α : Type} {p : Program α} (hp : p.Asks Request.OffersNothing) :
    p.Meets Exchange.Proper (Offers brought) (fun _ _ => True) past :=
  .of_offersNothing hp fun _ _ _ _ => trivial

theorem meets_of_abstains {α : Type} {p : Program α} (hp : p.Asks Request.Abstains) :
    p.Meets Exchange.Proper (Offers brought) (fun _ _ => True) past :=
  meets_of_offersNothing (hp.mono fun _ => Request.Abstains.offersNothing)

namespace Definitions

theorem checksVersions_currentVersion? (oid : String) :
    (currentVersion? oid).run.Asks Request.ChecksVersions := by
  refine ⟨trivial, fun reply => ?_⟩
  cases reply with
  | ok v => trivial
  | error e => cases e <;> trivial

theorem checksVersions_templatesAreCurrent (c : Caller) (oid : String)
    (used : List (String × Version)) :
    (templatesAreCurrent c oid used).run.Asks Request.ChecksVersions := by
  induction used with
  | nil => trivial
  | cons p used ih =>
    obtain ⟨template, v⟩ := p
    refine .action_bind (checksVersions_currentVersion? template) fun current => ?_
    split
    · exact ih
    · exact .lift_bind ⟨trivial, fun _ => trivial⟩ fun _ => trivial

/-- Whether an entry is the latest is only a matter of versions. -/
theorem checksVersions_isCurrent (c : Caller) (oid : String) (e : CacheEntry) :
    (isCurrent c oid e).run.Asks Request.ChecksVersions := by
  refine .action_bind (checksVersions_currentVersion? oid) fun own => ?_
  split
  · exact checksVersions_templatesAreCurrent c oid _
  · trivial

theorem looks_latest? (c : Caller) (oid : String) : (latest? c oid).run.Asks Request.Looks := by
  refine .lift_bind ⟨trivial, fun _ => trivial⟩ fun found => ?_
  split
  · exact .lift_bind ⟨trivial, fun _ => trivial⟩ fun _ => trivial
  · next e =>
    have hcurrent : (isCurrent c oid e).run.Asks Request.Looks :=
      (checksVersions_isCurrent c oid e).mono fun _ => Request.ChecksVersions.looks
    refine .action_bind hcurrent fun current => ?_
    split
    · exact .lift_bind ⟨trivial, fun _ => trivial⟩ fun _ => trivial
    · refine .lift_bind ⟨trivial, fun _ => trivial⟩ fun _ => ?_
      exact .lift_bind ⟨trivial, fun _ => trivial⟩ fun _ => trivial

/-- The version of what was found, if anything, was told. -/
def Told (oid : String) (past : List Exchange)
    (outcome : Except ProvisioningError (Option Resource)) : Prop :=
  ∀ d, outcome = .ok (some d) → ∃ x ∈ past, x.Sees oid d.version

theorem latest?_meets (c : Caller) (oid : String) :
    (latest? c oid).run.Meets Exchange.Proper (Offers brought) (Told oid) past := by
  refine .of_offersNothing ((looks_latest? c oid).mono fun _ => Request.Looks.offersNothing)
    fun trace outcome h hproper d hd => ?_
  subst hd
  obtain ⟨e, checks, rfl, rfl, -⟩ := exists_checks_of_yields (yields_nil_iff.2 h)
  have htagged : e.Tagged oid := (hproper _ List.mem_cons_self).tagged oid e rfl
  refine ⟨_, List.mem_append_right _ (List.mem_cons_of_mem _ List.mem_cons_self), .inr ?_⟩
  rw [htagged.version_eq]

end Definitions

/-! ### The service -/

namespace Service

variable {sv : Service} {noFetch : Bool} {raw : Resource} {ticket : Ticket}

/-- What a completion that is no failure goes by was shown. -/
def Completed (raw : Resource) (past : List Exchange) (o : Completion) : Prop :=
  o.status.isFatal = false → o.definition.oid = raw.oid ∧ o.definition.version = raw.version ∧
    ∀ p ∈ o.definition.ancestorVersions.entries,
      ∃ x ∈ past, ∃ r ∈ x.shown, r.oid = p.1 ∧ r.version = p.2

theorem run_meets (c : Caller) (mode : Completion.Mode) (hraw : raw.isCompleted = false) :
    (Completion.run c mode raw).Meets Exchange.Proper (Offers brought) (Completed raw) past := by
  have hoffers : (Completion.run c mode raw).Asks Request.OffersNothing :=
    (Completion.run_reads c mode raw).mono fun _ h => h.abstains.offersNothing
  refine .of_offersNothing hoffers fun trace o h hproper hfatal => ?_
  obtain ⟨hoid, hversion, hread⟩ := Completion.read_of_reaches_run hraw h hfatal
  refine ⟨hoid, hversion, fun p hp => ?_⟩
  obtain ⟨r, hr, hv⟩ := hread p hp
  exact ⟨_, List.mem_append_right _ hr, r, List.mem_singleton.2 rfl,
    (hproper _ hr).keyed p.1 r rfl, hv⟩

theorem offer_meets {d : Resource} {since : Option Ticket} (h : Backed brought past d since) :
    (Definitions.offer d since).Meets Exchange.Proper (Offers brought) (fun _ _ => True) past := by
  refine ⟨fun d' since' he => ?_, fun reply _ => ⟨fun d' since' he => ?_, fun _ _ => trivial⟩⟩
  · cases he
    exact h
  · cases he

theorem abstains_markDown (sv : Service) (c : Caller) (oid : String)
    (previous : Option Availability) (status : Availability) (reason : Option String) :
    (markDown c oid (sv.recordAvailability c oid previous status reason)).Asks Request.Abstains :=
  (observes_markDown (observes_recordAvailability ..) c oid).mono fun _ h => h.abstains

/-- What is settled has the version of its resource, and any offer goes by what was read. -/
theorem settle_meets {o : Completion} (hticket : ⟨.cache .ticket, ticket⟩ ∈ past)
    (hhad : Had brought past raw) (ho : Completed raw past o) :
    (sv.settle c noFetch raw ticket o).run.Meets Exchange.Proper (Offers brought)
      (fun _ outcome => ∀ d, outcome = .ok d → d.version = raw.version) past := by
  unfold settle
  split
  · next d hresult =>
    obtain ⟨hfatal, rfl⟩ := Completion.result_eq_ok_iff.1 hresult
    obtain ⟨hoid, hversion, htemplates⟩ := ho hfatal
    have hgives : ∀ d, (.ok o.definition : Except ProvisioningError Resource) = .ok d →
        d.version = raw.version := by
      intro d he
      cases he
      exact hversion
    split
    · have hbacked : Backed brought past o.definition (some ticket) :=
        ⟨⟨ticket, rfl, hticket⟩, ⟨raw, hhad, hoid.symm, hversion.symm⟩, htemplates⟩
      exact .lift_bind (offer_meets hbacked) fun _ _ _ => hgives
    · exact hgives
  · next e hresult =>
    have hgives : ∀ d, (.error e : Except ProvisioningError Resource) = .ok d →
        d.version = raw.version := by
      intro d he
      cases he
    split
    · have hmark : (markDown c raw.oid (sv.recordAvailability c raw.oid raw.availability .down
          (some e.message))).Asks Request.Abstains :=
        abstains_markDown ..
      exact .lift_bind (meets_of_abstains hmark) fun _ _ _ => hgives
    · exact hgives

theorem cached?_meets (sv : Service) (c : Caller) (oid : String) :
    (sv.cached? c oid).run.Meets Exchange.Proper (Offers brought) (Definitions.Told oid) past := by
  unfold cached?
  split
  · exact Definitions.latest?_meets c oid
  · intro d he
    cases he

/-- What was read under a ticket is completed at the version at which it was read. -/
theorem completeSince_meets (hticket : ⟨.cache .ticket, ticket⟩ ∈ past)
    (hhad : Had brought past raw) (hraw : raw.isCompleted = false) :
    (sv.completeSince c noFetch ticket raw).run.Meets Exchange.Proper (Offers brought)
      (fun _ outcome => ∀ d, outcome = .ok d → d.version = raw.version) past := by
  refine .action_bind (cached?_meets sv c raw.oid) (fun later cached _ => ?_) fun _ _ _ => ?_
  · split
    · next hit hcached =>
      intro d he
      cases he
      exact eq_of_beq (Option.filter_eq_some_iff.1 hcached).2
    · refine .lift_bind (run_meets c _ hraw) fun more o ho => ?_
      refine settle_meets ?_ ?_ ho
      · exact List.mem_append_left _ (List.mem_append_left _ hticket)
      · exact (hhad.append later).append more
  · intro d he
    cases he

theorem ticket_meets :
    (Action.cache .ticket).Meets Exchange.Proper (Offers brought)
      (fun past t => ⟨.cache .ticket, t⟩ ∈ past) past := by
  refine ⟨fun d since he => ?_, fun t _ => List.mem_append_right _ List.mem_cons_self⟩
  cases he

theorem complete_meets (sv : Service) (c : Caller) (noFetch : Bool) (hhad : Had brought past raw)
    (hraw : raw.isCompleted = false) :
    (sv.complete c noFetch raw).run.Meets Exchange.Proper (Offers brought) (fun _ _ => True)
      past := by
  refine .lift_bind ticket_meets fun later ticket hticket => ?_
  exact (completeSince_meets hticket (hhad.append later) hraw).mono fun _ _ _ => trivial

/-- What a request to the repository shows is proper, and was shown. -/
theorem store_meets (r : StoreRequest) :
    (Action.store r).run.Meets Exchange.Proper (Offers brought)
      (fun past outcome => ∀ a, outcome = .ok a →
        (⟨.store r, .ok a⟩ : Exchange) ∈ past ∧ (⟨.store r, .ok a⟩ : Exchange).Proper) past := by
  refine ⟨fun d since he => ?_, fun reply hproper a he => ?_⟩
  · cases he
  · cases reply with
    | error e => cases he
    | ok b =>
      cases he
      exact ⟨List.mem_append_right _ List.mem_cons_self, hproper⟩

theorem remark_meets (c : Caller) (level : LogLevel) (text : String) :
    (c.remark level text).Meets Exchange.Proper (Offers brought) (fun _ _ => True) past := by
  refine ⟨fun d since he => ?_, fun _ _ => trivial⟩
  cases he

/-- What is got has a version that the repository told in the meantime. -/
theorem get_meets (sv : Service) (c : Caller) (oid : String) (noFetch : Bool) :
    (sv.get c oid noFetch).run.Meets Exchange.Proper (Offers brought)
      (fun past outcome => ∀ d, outcome = .ok d → ∃ x ∈ past, x.Sees oid d.version) past := by
  refine .lift_bind (remark_meets c _ _) fun announced _ _ => ?_
  refine .lift_bind ticket_meets fun taken ticket hticket => ?_
  refine .action_bind (cached?_meets sv c oid) (fun looked cached hcached => ?_) fun _ _ _ => ?_
  · split
    · next hit =>
      intro d he
      cases he
      exact hcached hit rfl
    · refine .action_bind (store_meets (.read oid)) (fun read raw hread => ?_) fun _ _ _ => ?_
      · obtain ⟨hmem, hproper⟩ := hread raw rfl
        have hshown : raw ∈ (⟨.store (.read oid), .ok raw⟩ : Exchange).shown :=
          List.mem_singleton.2 rfl
        have htaken := List.mem_append_left read (List.mem_append_left looked hticket)
        refine (completeSince_meets htaken (.inr ⟨_, hmem, hshown⟩) (hproper.raw _ hshown)).mono ?_
        intro later outcome hversion d hd
        refine ⟨_, List.mem_append_left _ hmem, ?_⟩
        rw [hversion d hd, ← hproper.keyed oid raw rfl]
        exact Exchange.sees_of_mem_shown hshown
      · intro d he
        cases he
  · intro d he
    cases he

theorem completeHit_meets (sv : Service) (c : Caller) (noFetch : Bool) (hhad : Had brought past raw)
    (hraw : raw.isCompleted = false) :
    (sv.completeHit c noFetch raw).run.Meets Exchange.Proper (Offers brought) (fun _ _ => True)
      past := by
  refine .bind (complete_meets sv c noFetch hhad hraw) fun later outcome _ => ?_
  split
  · trivial
  · exact .bind (remark_meets c _ _) fun _ _ _ => trivial
  · trivial

/-- What was had stays had while one resource after another is completed. -/
theorem completeHits_meets (sv : Service) (c : Caller) (noFetch : Bool) {found : List Resource}
    (hfound : ∀ raw ∈ found, Had brought past raw ∧ raw.isCompleted = false) :
    (found.mapM (sv.completeHit c noFetch)).run.Meets Exchange.Proper (Offers brought)
      (fun _ _ => True) past := by
  induction found generalizing past with
  | nil => trivial
  | cons raw rest ih =>
    obtain ⟨⟨hhad, hraw⟩, hrest⟩ := List.forall_mem_cons.1 hfound
    rw [List.mapM_cons]
    refine .action_bind (completeHit_meets sv c noFetch hhad hraw) (fun later _ _ => ?_)
      fun _ _ _ => trivial
    have hrest : ∀ raw ∈ rest, Had brought (past ++ later) raw ∧ raw.isCompleted = false :=
      fun raw h => (hrest raw h).imp_left (·.append later)
    exact .action_bind (ih hrest) (fun _ _ _ => trivial) fun _ _ _ => trivial

theorem search_meets (sv : Service) (c : Caller) (q : Query) (noFetch : Bool) :
    (sv.search c q noFetch).run.Meets Exchange.Proper (Offers brought) (fun _ _ => True) past := by
  refine .action_bind (store_meets (.search q)) (fun later found hfound => ?_)
    fun _ _ _ => trivial
  obtain ⟨hmem, hproper⟩ := hfound found rfl
  refine .lift_bind (remark_meets c _ _) fun more _ _ => ?_
  refine completeHits_meets sv c noFetch fun raw hraw => ⟨?_, hproper.raw raw hraw⟩
  exact Had.append (.inr ⟨_, hmem, hraw⟩) more

theorem runScript_meets (sv : Service) (c : Caller) (oid : String) (script : ScriptRequest) :
    (sv.runScript c oid script).run.Meets Exchange.Proper (Offers brought) (fun _ _ => True)
      past := by
  obtain ⟨rest, heq, hrest⟩ := exists_runScript_eq sv c oid script
  rw [heq]
  refine .action_bind (get_meets sv c oid false) (fun later r _ => ?_) fun _ _ _ => trivial
  exact meets_of_abstains ((hrest r).mono fun _ h => h.abstains)

theorem abstains_delete (c : Caller) (oid : String) :
    (delete c oid).run.Asks Request.Abstains := by
  have hinvalidate : (Definitions.invalidate oid).Asks Request.Abstains := by
    refine .bind ⟨trivial, fun _ => trivial⟩ fun dropped => ?_
    split
    · exact ⟨trivial, fun _ => trivial⟩
    · trivial
  refine .lift_bind ⟨trivial, fun _ => trivial⟩ fun _ => ?_
  exact .lift_bind hinvalidate fun _ => ⟨trivial, fun _ => trivial⟩

end Service

namespace Operation

/-- What an operation is given to complete. -/
def brought? : Operation → Option Resource
  | complete raw _ => some raw
  | _ => none

/-- The operation may put something into the cache, or evict something there. -/
def MayFill : Operation → Prop
  | get _ _ | complete _ _ | search _ _ | runScript _ _ | cachedLatest _ => True
  | atCache (.put _ _) | atCache (.evict _ _) => True
  | _ => False

theorem abstains (sv : Service) (c : Caller) {op : Operation} (h : ¬ op.MayFill) :
    (op.action sv c).run.Asks Request.Abstains := by
  cases op with
  | count q => exact ⟨trivial, fun _ => trivial⟩
  | delete oid => exact Service.abstains_delete c oid
  | setAvailability oid status reason skipFetch =>
    exact (Service.observes_setAvailability ..).mono fun _ h => h.abstains
  | testConnection oid => exact (Service.observes_testConnection ..).mono fun _ h => h.abstains
  | testPartial r =>
    refine .lift_bind ⟨trivial, fun _ => trivial⟩ fun _ => ?_
    refine .action_bind ((Service.configuredTarget_reads c r).mono fun _ h => h.abstains)
      fun target => ?_
    exact ⟨trivial, fun _ => trivial⟩
  | discover r =>
    refine .lift_bind ⟨trivial, fun _ => trivial⟩ fun _ => ?_
    refine .action_bind ((Service.configuredTarget_reads c r).mono fun _ h => h.abstains)
      fun target => ?_
    exact ⟨trivial, fun _ => trivial⟩
  | cachedAt oid expected =>
    refine .bind (.bind ⟨trivial, fun _ => trivial⟩ fun found => ?_) fun _ => trivial
    split
    · exact .bind ⟨trivial, fun _ => trivial⟩ fun _ => trivial
    · split
      · exact .bind ⟨trivial, fun _ => trivial⟩ fun _ => trivial
      · exact .bind ⟨trivial, fun _ => trivial⟩ fun _ => trivial
  | atStore r => exact ⟨trivial, fun _ => trivial⟩
  | atCache r =>
    refine ⟨?_, fun _ => trivial⟩
    cases r with
    | put _ _ => exact h trivial
    | evict _ _ => exact h trivial
    | _ => trivial
  | _ => exact absurd trivial h

/-- Every offer of an operation is backed by what it was given and what it was shown. -/
theorem meets (sv : Service) (c : Caller) {op : Operation}
    (hdirect : ∀ d since, op ≠ .atCache (.put d since))
    (hraw : ∀ r, op.brought? = some r → r.isCompleted = false) :
    (op.action sv c).run.Meets Exchange.Proper (Offers (op.brought? = some ·)) (fun _ _ => True)
      [] := by
  cases op with
  | get oid noFetch => exact (Service.get_meets sv c oid noFetch).mono fun _ _ _ => trivial
  | complete raw noFetch => exact Service.complete_meets sv c noFetch (.inl rfl) (hraw raw rfl)
  | search q noFetch => exact Service.search_meets sv c q noFetch
  | runScript oid script => exact Service.runScript_meets sv c oid script
  | cachedLatest oid =>
    exact meets_of_offersNothing
      ((Definitions.looks_latest? c oid).mono fun _ => Request.Looks.offersNothing)
  | atCache r =>
    refine meets_of_offersNothing ⟨?_, fun _ => trivial⟩
    cases r with
    | put d since => exact hdirect d since rfl
    | _ => trivial
  | _ => exact meets_of_abstains (abstains sv c id)

end Operation

end Reconciler
