/-
What a search makes of the resources that it finds.

A search completes one hit after another, and what is left of a completion that fails takes the
place of its resource.  Between any two requests others may write, delete and invalidate.

* `Exchange.Regular`: an answer of repository or cache with which a search can go on;
* `Service.StandsFor`: a completed resource, or what is left of one, stands for a resource;
* `Hit`, `Hit.Answered`: a resource that was found, and what the search gives for it;
* `Service.AnswersAll`: the search gives something for each resource that was found.

Main statements:
* `Completion.oid_of_reaches_run`: whatever comes of a completion, it is of the same OID;
* `Service.complete_standsFor`: a completion fails only with something left;
* `Service.search_answers`: a search that is answered regularly answers for every hit;
* `Interleaving.search_answers_every_hit`: so does every search in a history, from its start on.

Design notes:
* An entry of the cache may be that of another resource only if it was put under a wrong OID, which
  no request does.
-/
import Reconciler.Proofs.Cache.Reads
import Reconciler.Proofs.Cache.Representation
import Reconciler.Proofs.Completion.Reach
import Reconciler.Proofs.Paging

namespace Reconciler

open Program

/-! ### Completions -/

/-- Whatever comes of a completion, it is of the same OID. -/
theorem Completion.oid_of_reaches_run {c : Caller} {mode : Mode} {raw : Resource} {o : Completion}
    {trace : List Exchange} (h : (run c mode raw).Reaches trace (.done o)) :
    o.definition.oid = raw.oid := by
  cases hraw : raw.isCompleted with
  | true => rw [eq_of_isCompleted hraw h]
  | false =>
    cases course_of_run hraw h with
    | templates _ => rfl
    | @continued inherited _ y _ _ =>
      cases y with
      | error e => rfl
      | ok known =>
        obtain ⟨native, found⟩ := known
        exact (assemble_keeps (inheriting raw inherited) native found).1

/-! ### Regular answers -/

/-- A search can go on with this answer: the search request does not fail, the version of a resource
is told unless it is not there, and the cache has nothing under another OID. -/
structure Exchange.Regular (q : Query) (x : Exchange) : Prop where
  searched : ∀ e, x ≠ ⟨.store (.search q), .error e⟩
  told : ∀ oid e, x = ⟨.store (.version oid), .error e⟩ → ∃ type key, e = .notFound type key
  tagged : ∀ oid e, x = ⟨.cache (.find oid), some e⟩ → e.Tagged oid

variable {q : Query} {c : Caller} {oid : String} {past : List Exchange}

namespace Definitions

/-- The version of a resource is told, or that there is none. -/
theorem currentVersion?_answers :
    (currentVersion? oid).run.Meets (Exchange.Regular q) (fun _ _ => True)
      (Succeeds fun _ _ => True) past := by
  refine ⟨trivial, fun reply hregular => ?_⟩
  cases reply with
  | ok v => exact ⟨some v, rfl, trivial⟩
  | error e =>
    obtain ⟨type, key, rfl⟩ := hregular.told oid e rfl
    exact ⟨none, rfl, trivial⟩

theorem templatesAreCurrent_answers {used : List (String × Version)} :
    (templatesAreCurrent c oid used).run.Meets (Exchange.Regular q) (fun _ _ => True)
      (Succeeds fun _ _ => True) past := by
  induction used generalizing past with
  | nil => exact ⟨true, rfl, trivial⟩
  | cons p used ih =>
    refine .ok_bind currentVersion?_answers fun later v _ => ?_
    split
    · exact ih
    · exact .lift_bind (meets_true _ _) fun _ _ _ => ⟨false, rfl, trivial⟩

theorem isCurrent_answers {e : CacheEntry} :
    (isCurrent c oid e).run.Meets (Exchange.Regular q) (fun _ _ => True)
      (Succeeds fun _ _ => True) past := by
  refine .ok_bind currentVersion?_answers fun later v _ => ?_
  split
  · exact templatesAreCurrent_answers
  · exact ⟨false, rfl, trivial⟩

/-- Whoever looks for the latest of a resource finds nothing of another. -/
theorem latest?_answers :
    (latest? c oid).run.Meets (Exchange.Regular q) (fun _ _ => True)
      (Succeeds fun _ found => ∀ d, found = some d → d.oid = oid) past := by
  have hfind : (Action.cache (.find oid)).Meets (Exchange.Regular q) (fun _ _ => True)
      (fun _ found => ∀ e, found = some e → e.Tagged oid) past := by
    refine ⟨trivial, fun found hregular e he => hregular.tagged oid e ?_⟩
    rw [he]
  refine .lift_bind hfind fun later found hfound => ?_
  split
  · exact .lift_bind (meets_true _ _) fun _ _ _ => ⟨none, rfl, fun d hd => by cases hd⟩
  · next e =>
    refine .ok_bind isCurrent_answers fun later current _ => ?_
    split
    · refine .lift_bind (meets_true _ _) fun _ _ _ => ⟨_, rfl, fun d hd => ?_⟩
      cases hd
      exact (hfound e rfl).oid_eq
    · refine .lift_bind (meets_true _ _) fun _ _ _ => ?_
      exact .lift_bind (meets_true _ _) fun _ _ _ => ⟨none, rfl, fun d hd => by cases hd⟩

end Definitions

/-! ### Hits -/

namespace Service

variable {sv : Service} {noFetch : Bool} {raw : Resource} {ticket : Ticket}

/-- A completed resource stands for a resource, or what is left of it when its completion failed. -/
inductive StandsFor (raw : Resource) : Except ProvisioningError Resource → Prop where
  | completed {d : Resource} (hoid : d.oid = raw.oid) : StandsFor raw (.ok d)
  | left {cause : ProvisioningError} {d : Resource} (hoid : d.oid = raw.oid) :
      StandsFor raw (.error (.completionFailed raw.oid cause (some d)))

theorem cached?_answers :
    (sv.cached? c oid).run.Meets (Exchange.Regular q) (fun _ _ => True)
      (Succeeds fun _ found => ∀ d, found = some d → d.oid = oid) past := by
  unfold cached?
  split
  · exact Definitions.latest?_answers
  · exact ⟨none, rfl, fun d hd => by cases hd⟩

theorem settle_standsFor {o : Completion} (ho : o.definition.oid = raw.oid) :
    (sv.settle c noFetch raw ticket o).run.Meets (Exchange.Regular q) (fun _ _ => True)
      (fun _ => StandsFor raw) past := by
  unfold settle
  split
  · next d hresult =>
    obtain ⟨-, rfl⟩ := Completion.result_eq_ok_iff.1 hresult
    split
    · exact .lift_bind (meets_true _ _) fun _ _ _ => .completed ho
    · exact .completed ho
  · next e hresult =>
    have he : e = .completionFailed raw.oid o.cause (some o.definition) := by
      rw [Completion.result, if_pos (Completion.isFatal_of_result hresult), ho] at hresult
      exact (Except.error.inj hresult).symm
    subst he
    split
    · exact .lift_bind (meets_true _ _) fun _ _ _ => .left ho
    · exact .left ho

/-- A completion, also one that the cache stands in for, fails only with something left. -/
theorem complete_standsFor (sv : Service) (c : Caller) (noFetch : Bool) (raw : Resource) :
    (sv.complete c noFetch raw).run.Meets (Exchange.Regular q) (fun _ _ => True)
      (fun _ => StandsFor raw) past := by
  refine .lift_bind (meets_true _ _) fun taken ticket _ => ?_
  refine .ok_bind cached?_answers fun looked cached hcached => ?_
  split
  · next d hd => exact .completed (hcached d (Option.filter_eq_some_iff.1 hd).1)
  · refine .lift_bind (meets_true _ _).tracing fun completing o ho => ?_
    obtain ⟨trace, -, hreaches, -⟩ := ho
    exact settle_standsFor (Completion.oid_of_reaches_run hreaches)

end Service

/-- A resource that was found, what was exchanged to complete it, and what is given for it. -/
structure Hit where
  raw : Resource
  exchanges : List Exchange
  answer : Resource

/-- What is given for a resource is what its completion gave; or, when that failed, what was left of
the resource, on which there is a remark. -/
inductive Hit.Answered (sv : Service) (c : Caller) (noFetch : Bool) (hit : Hit) : Prop where
  | completed (h : (sv.complete c noFetch hit.raw).run.Reaches hit.exchanges
      (.done (.ok hit.answer)))
  | left {completing : List Exchange} {cause : ProvisioningError} {record : LogRecord}
      (h : (sv.complete c noFetch hit.raw).run.Reaches completing
        (.done (.error (.completionFailed hit.raw.oid cause (some hit.answer)))))
      (hremarked : hit.exchanges = completing ++ [⟨.remark record, ()⟩])

namespace Service

variable {sv : Service} {noFetch : Bool} {raw : Resource}

theorem completeHit_answers (sv : Service) (c : Caller) (noFetch : Bool) (raw : Resource) :
    (sv.completeHit c noFetch raw).run.Meets (Exchange.Regular q) (fun _ _ => True)
      (Succeeds fun later d => ∃ hit : Hit, hit.raw = raw ∧ d = hit.answer ∧
        later = past ++ hit.exchanges ∧ hit.Answered sv c noFetch ∧ hit.answer.oid = raw.oid)
      past := by
  refine .bind (complete_standsFor sv c noFetch raw).tracing fun later outcome h => ?_
  obtain ⟨trace, heq, hreaches, hstands⟩ := h
  rw [heq]
  cases hstands with
  | @completed d hoid =>
    exact ⟨d, rfl, ⟨raw, trace, d⟩, rfl, rfl, rfl, .completed hreaches, hoid⟩
  | @left cause d hoid =>
    refine ⟨trivial, fun reply _ => ⟨d, rfl, ⟨raw, trace ++ [⟨_, reply⟩], d⟩, rfl, rfl, ?_⟩⟩
    exact ⟨List.append_assoc .., .left hreaches rfl, hoid⟩

theorem completeHits_answers (sv : Service) (c : Caller) (noFetch : Bool)
    (found : List Resource) :
    (found.mapM (sv.completeHit c noFetch)).run.Meets (Exchange.Regular q) (fun _ _ => True)
      (Succeeds fun later ds => ∃ hits : List Hit, hits.map Hit.raw = found ∧
        ds = hits.map Hit.answer ∧ later = past ++ hits.flatMap Hit.exchanges ∧
        ∀ hit ∈ hits, hit.Answered sv c noFetch ∧ hit.answer.oid = hit.raw.oid) past := by
  induction found generalizing past with
  | nil => exact ⟨[], rfl, [], rfl, rfl, (List.append_nil past).symm, List.forall_mem_nil _⟩
  | cons raw rest ih =>
    rw [List.mapM_cons]
    refine .ok_bind (completeHit_answers sv c noFetch raw) fun later d h => ?_
    obtain ⟨hit, rfl, rfl, heq, hanswered⟩ := h
    rw [heq]
    refine .ok_bind ih fun more ds h => ?_
    obtain ⟨hits, rfl, rfl, hmore, hall⟩ := h
    refine ⟨_, rfl, hit :: hits, rfl, rfl, ?_, List.forall_mem_cons.2 ⟨hanswered, hall⟩⟩
    rw [hmore, List.flatMap_cons, List.append_assoc]

/-- A search gives something for each resource that it found, in their order: what its completion
gave, or what that left. -/
structure AnswersAll (sv : Service) (c : Caller) (q : Query) (noFetch : Bool)
    (exchanges : List Exchange) (outcome : Except ProvisioningError (List Resource))
    (hits : List Hit) : Prop where
  exchanged : ∃ record, exchanges = ⟨.store (.search q), .ok (hits.map Hit.raw)⟩ ::
    ⟨.remark record, ()⟩ :: hits.flatMap Hit.exchanges
  outcome_eq : outcome = .ok (hits.map Hit.answer)
  answered : ∀ hit ∈ hits, hit.Answered sv c noFetch
  oid_eq : ∀ hit ∈ hits, hit.answer.oid = hit.raw.oid

/-- What is given comes in the order of what was found. -/
theorem AnswersAll.pairwise {exchanges : List Exchange}
    {outcome : Except ProvisioningError (List Resource)} {hits : List Hit}
    (h : sv.AnswersAll c q noFetch exchanges outcome hits)
    (hfound : (hits.map Hit.raw).Pairwise fun a b => a.oid < b.oid) :
    (hits.map Hit.answer).Pairwise fun a b => a.oid < b.oid := by
  refine List.pairwise_map.2 ((List.pairwise_map.1 hfound).imp_of_mem fun {a b} ha hb hlt => ?_)
  rw [h.oid_eq a ha, h.oid_eq b hb]
  exact hlt

/-- A search that is answered regularly answers for every hit. -/
theorem search_answers (sv : Service) (c : Caller) (q : Query) (noFetch : Bool) :
    (sv.search c q noFetch).run.Meets (Exchange.Regular q) (fun _ _ => True)
      (fun later outcome => ∃ hits, sv.AnswersAll c q noFetch later outcome hits) [] := by
  have hsearch : (Action.store (.search q)).run.Meets (Exchange.Regular q) (fun _ _ => True)
      (Succeeds fun later found => later = [⟨.store (.search q), .ok found⟩]) [] := by
    refine ⟨trivial, fun reply hregular => ?_⟩
    cases reply with
    | ok found => exact ⟨found, rfl, rfl⟩
    | error e => exact absurd rfl (hregular.searched e)
  refine .ok_bind hsearch fun later found heq => ?_
  rw [heq]
  refine .lift_bind (meets_true (c.remark .debug _) _).tracing fun more _ h => ?_
  obtain ⟨remarked, hmore, hreaches, -⟩ := h
  obtain ⟨record, rfl⟩ : ∃ record, remarked = [⟨.remark record, ()⟩] := by
    cases hreaches with
    | step h =>
      cases h
      exact ⟨_, rfl⟩
  rw [hmore]
  refine (completeHits_answers sv c noFetch found).mono fun last outcome h => ?_
  obtain ⟨_, houtcome, hits, rfl, rfl, hlast, hall⟩ := h
  exact ⟨hits, ⟨record, hlast⟩, houtcome, fun hit h => (hall hit h).1, fun hit h => (hall hit h).2⟩

end Service

/-! ### Histories -/

theorem World.properCache_answer {w : World} (h : w.cache.Proper) (connectors : Connectors)
    (r : Request) : (w.answer connectors r).2.cache.Proper := by
  cases r with
  | cache r => exact h.answer w.clock r
  | _ => exact h

namespace Interleaving

variable {sv : Service} {outages : Outages} {s t : State} {since : List Event} {id : Nat}
variable {x : Exchange} {noFetch : Bool}

/-- What is found is found in the order of the OIDs. -/
theorem Step.pairwise_of_search {found : List Resource}
    (h : Step sv outages s (.asked id ⟨.store (.search q), .ok found⟩) t) :
    found.Pairwise fun a b => a.oid < b.oid := by
  rcases h.answer_store with ⟨e, he⟩ | ⟨fresh, hsearch⟩
  · cases he
  · cases hsearch
    exact (s.world.store.pairwise_selected q).sublist (q.page_sublist _)

/-- The cache has nothing under another OID. -/
theorem Run.tagged (h : Run sv outages s since t) (hproper : s.world.cache.Proper)
    (hx : .asked id x ∈ since) {entry : CacheEntry} (he : x = ⟨.cache (.find oid), some entry⟩) :
    entry.Tagged oid := by
  subst he
  obtain ⟨before, after, rfl⟩ := List.append_of_mem hx
  obtain ⟨m, _, hbefore, step, -⟩ := h.exists_step
  exact (hbefore.properCache hproper oid entry step.find?_eq).toTagged

/-- A world without failures answers regularly if its cache is proper. -/
theorem regular_answer {w : World} (hproper : w.cache.Proper) (connectors : Connectors)
    (q : Query) (r : Request) : Exchange.Regular q ⟨r, (w.answer connectors r).1⟩ where
  searched e he := by
    cases r with
    | store r => cases r <;> cases he
    | _ => cases he
  told oid e he := by
    cases r with
    | store r =>
      cases r with
      | version key =>
        generalize hreply : (w.answer connectors (.store (.version key))).1 = reply at he
        cases he
        have hversion : w.store.version oid = .error e := hreply
        rw [Store.version, Store.read_eq] at hversion
        cases hr : w.store.find? oid with
        | none =>
          rw [hr] at hversion
          cases hversion
          exact ⟨_, _, rfl⟩
        | some r =>
          rw [hr] at hversion
          cases hversion
      | _ => cases he
    | _ => cases he
  tagged oid entry he := by
    cases r with
    | cache r =>
      cases r with
      | find key =>
        generalize hreply : (w.answer connectors (.cache (.find key))).1 = found at he
        cases he
        exact (hproper oid entry hreply).toTagged
      | _ => cases he
    | _ => cases he

/-- **A search answers for every hit.**  While others write, delete and invalidate, and connectors
answer anything, a search is under way; its own request is answered, and so is it which version a
resource has, unless the resource is not there.  When the search comes to its end, it has not
failed: it gives one resource for each that was found, of the same OID and in their order, which is
what the completion of that gave or, when it failed, what was left.  And it does come to its end, if
only the others let it. -/
theorem search_answers_every_hit
    (hrun : Run sv outages s (.started id c (.search q noFetch) :: since) t)
    (hproper : s.world.cache.Proper) (hunfinished : ∀ e ∈ since, ¬ e.Finishes id)
    (hsearched : ∀ e, .asked id ⟨.store (.search q), .error e⟩ ∉ since)
    (htold : ∀ oid e, .asked id ⟨.store (.version oid), .error e⟩ ∈ since →
      ∃ type key, e = .notFound type key) :
    ∃ rest, t.underWay id = some ⟨.search q noFetch, rest⟩ ∧
      (∀ outcome, rest = .done outcome →
        ∃ hits, sv.AnswersAll c q noFetch (Event.exchangesOf id since) outcome hits ∧
          (hits.map Hit.answer).Pairwise fun a b => a.oid < b.oid) ∧
      ∀ connectors, ∃ later hits, sv.AnswersAll c q noFetch (Event.exchangesOf id since ++ later)
        (World.run connectors rest t.world).1 hits := by
  cases hrun with
  | @cons _ m _ _ _ start hrest =>
    have hm : m.underWay id = some ⟨.search q noFetch, (sv.search c q noFetch).run⟩ ∧
        m.world.cache.Proper := by
      cases start
      exact ⟨if_pos rfl, hproper⟩
    obtain ⟨rest, hunder, hreaches⟩ := hrest.reaches hm.1 hunfinished
    have hregular : ∀ x ∈ Event.exchangesOf id since, x.Regular q := by
      intro x hx
      have hx : .asked id x ∈ since := Event.mem_exchangesOf.1 hx
      exact {
        searched := fun e he => hsearched e (he ▸ hx)
        told := fun oid e he => htold oid e (he ▸ hx)
        tagged := fun oid entry he => hrest.tagged hm.2 hx he }
    have hmeets := (Service.search_answers sv c q noFetch).of_reaches hreaches hregular
    refine ⟨rest, hunder, ?_, fun connectors => ?_⟩
    · rintro outcome rfl
      obtain ⟨hits, hanswers⟩ := hmeets
      refine ⟨hits, hanswers, hanswers.pairwise ?_⟩
      obtain ⟨record, hexchanged⟩ := hanswers.exchanged
      have hmem : .asked id ⟨.store (.search q), .ok (hits.map Hit.raw)⟩ ∈ since := by
        refine Event.mem_exchangesOf.1 ?_
        rw [List.nil_append] at hexchanged
        rw [hexchanged]
        exact List.mem_cons_self
      obtain ⟨before, after, rfl⟩ := List.append_of_mem hmem
      obtain ⟨_, _, -, step, -⟩ := hrest.exists_step
      exact step.pairwise_of_search
    · exact hmeets.of_run (fun w r hw => regular_answer hw connectors q r)
        (fun w r hw => World.properCache_answer hw connectors r) (hrest.properCache hm.2)

/-- An heir is cached.  A search has found it and its template, when the template is deleted without
the service; then the search is led to its end. -/
def sampleBereft : List Event × State :=
  sampleCached.2.play { templateLimit := 3 } Completion.sampleConnectors
    (.start 0 default (.search {} false) :: .go 0 ::
      .start 1 default (.atStore (.delete "directory")) :: List.replicate 2 (.go 1) ++
      List.replicate 23 (.go 0))

/-- Whether an event is no failure, or one only to tell the version of what is not there. -/
def goesOn : Event → Bool
  | .asked _ ⟨.store (.search _), .error _⟩ => false
  | .asked _ ⟨.store (.version _), .error (.notFound _ _)⟩ => true
  | .asked _ ⟨.store (.version _), .error _⟩ => false
  | _ => true

/-- What a search gives when it is over. -/
def searched? : UnderWay → Option (List Resource)
  | ⟨.search _ _, .done (.ok found)⟩ => some found
  | _ => none

/-- The template is given as it was completed, and of the heir what is left without it. -/
theorem search_answers_every_hit_sample : ∃ results hits,
    sampleBereft.2.underWay 0 = some ⟨.search {} false, .done (.ok results)⟩ ∧
    results.map (fun r => (r.oid, r.isCompleted)) = [("directory", true), ("heir", false)] ∧
    Service.AnswersAll { templateLimit := 3 } default {} false
      (Event.exchangesOf 0 sampleBereft.1.tail) (.ok results) hits := by
  have hplayed : Run { templateLimit := 3 } (fun _ _ => False) sampleCached.2 sampleBereft.1
      sampleBereft.2 := run_play _ _ _ _ _
  have hrun : Run { templateLimit := 3 } (fun _ _ => False) sampleCached.2
      (.started 0 default (.search {} false) :: sampleBereft.1.tail) sampleBereft.2 := hplayed
  have hcached : Run { templateLimit := 3 } (fun _ _ => False) sampleStart sampleCached.1
      sampleCached.2 := run_play _ _ _ _ _
  have hproper : sampleCached.2.world.cache.Proper :=
    hcached.properCache (DefinitionCache.proper_of_empty fun _ => rfl)
  have hgoes : ∀ e ∈ sampleBereft.1.tail, goesOn e = true := by decide +kernel
  obtain ⟨rest, hunder, hover, -⟩ := search_answers_every_hit hrun hproper (by decide +kernel)
    (fun e he => absurd (hgoes _ he) (by simp [goesOn])) fun oid e he => by
      have hgoes := hgoes _ he
      cases e with
      | notFound type key => exact ⟨type, key, rfl⟩
      | _ => cases hgoes
  have hgiven : ((sampleBereft.2.underWay 0).bind searched?).map
      (·.map fun r => (r.oid, r.isCompleted)) = some [("directory", true), ("heir", false)] := by
    decide +kernel
  rw [hunder] at hgiven
  cases rest with
  | ask r next => cases hgiven
  | done outcome =>
    cases outcome with
    | error e => cases hgiven
    | ok results =>
      obtain ⟨hits, hanswers, -⟩ := hover _ rfl
      exact ⟨results, hits, hunder, Option.some.inj hgiven, hanswers⟩

end Interleaving

end Reconciler
