/-
What was reported of attributes that were observed in part.

A connector that lists only some values of an attribute may report what changed of it.  Such reports
are modifications like any others, in the order in which they happened.

* `Delta.ofAgreeing`: the modifications of all attributes that a name may stand for;
* `ReconcileContext.reported`: the reports on one attribute, with their values in normal form.

Main statements:
* `ReconcileContext.incompleteDelta_eq_reported`: the first report on an attribute is passed on, and
  no other;
* `ReconcileContext.valuesAt_appliedTo_of_reported`: so the attribute holds what the first report
  makes of the stored values, which is what all of them make only if the others change nothing;
* `ReconcileContext.report_lost`: a later report is lost although the copy counts as full.

Design notes:
* Reports are taken for those of an attribute if their names agree with the name of its definition,
  whatever name it is stored under.
-/
import Reconciler.Proofs.Shadow.Stamp

namespace Reconciler

namespace Delta

/-- The modifications of attributes whose names agree with this one, in their order. -/
def ofAgreeing (d : Delta) (name : ItemName) : Delta :=
  d.filter fun m => match m.path with | .attributeValues n => n.agrees name | _ => false

theorem mem_ofAgreeing_iff {d : Delta} {name : ItemName} {m : ItemDelta} :
    m ∈ d.ofAgreeing name ↔ m ∈ d ∧ ∃ n, m.path = .attributeValues n ∧ n.agrees name = true := by
  rw [ofAgreeing, List.mem_filter]
  refine and_congr_right fun _ => ?_
  cases m.path <;> simp

theorem findAgreeing?_eq_head? (d : Delta) (name : ItemName) :
    d.findAgreeing? name = (d.ofAgreeing name).head? :=
  (List.head?_filter ..).symm

theorem modified_append (d e : Delta) (values : List Json) :
    Delta.modified (d ++ e) values = Delta.modified e (Delta.modified d values) :=
  List.foldl_append ..

end Delta

namespace ReconcileContext

variable {ctx : ReconcileContext} {retention : Retention} {s : Shadow} {changes reports : Delta}
variable {o : Observation} {lifecycle : LifecycleState} {d : Delta} {a : AttributeDefinition}
variable {name : ItemName} {p : AttributeDefinition × ObservedAttribute}

/-- All that was reported of an attribute, in its order, with the values in normal form and for the
name under which the attribute is stored. -/
def reported (ctx : ReconcileContext) (changes : Delta) (a : AttributeDefinition)
    (name : ItemName) : Except SchemaViolation Delta :=
  (changes.ofAgreeing a.name).mapM fun m =>
    (ctx.ruleOf a).map fun rule => normalizedDelta rule name m

theorem reported_of_ruleOf {rule : MatchingRule} (hr : ctx.ruleOf a = .ok rule)
    (changes : Delta) (name : ItemName) :
    ctx.reported changes a name =
      .ok ((changes.ofAgreeing a.name).map (normalizedDelta rule name)) := by
  rw [reported, hr]
  exact List.mapM_pure ..

theorem incompleteDelta_of_unreported (hreports : changes.ofAgreeing a.name = []) :
    ctx.incompleteDelta (some changes) a name = .ok [] := by
  rw [incompleteDelta, Option.bind_eq_bind, Option.bind_some, Delta.findAgreeing?_eq_head?,
    hreports]
  rfl

theorem incompleteDelta_of_reported {m : ItemDelta} {later : Delta}
    (hreports : changes.ofAgreeing a.name = m :: later) :
    ctx.incompleteDelta (some changes) a name =
      (ctx.ruleOf a).map fun rule => Delta.push [] (normalizedDelta rule name m) := by
  rw [incompleteDelta, Option.bind_eq_bind, Option.bind_some, Delta.findAgreeing?_eq_head?,
    hreports]
  cases ctx.ruleOf a <;> rfl

/-- Of what was reported of an attribute only the first modification is passed on. -/
theorem incompleteDelta_eq_reported (ctx : ReconcileContext) (changes : Delta)
    (a : AttributeDefinition) (name : ItemName) :
    ctx.incompleteDelta (some changes) a name =
      (ctx.reported changes a name).map fun reports => (reports.take 1).foldl Delta.push [] := by
  cases hreports : changes.ofAgreeing a.name with
  | nil =>
    rw [incompleteDelta_of_unreported hreports, reported, hreports]
    rfl
  | cons m later =>
    rw [incompleteDelta_of_reported hreports]
    cases hr : ctx.ruleOf a with
    | error e =>
      rw [reported, hreports, List.mapM_cons, hr]
      rfl
    | ok rule =>
      rw [reported_of_ruleOf hr, hreports]
      rfl

theorem modified_foldl_push_take_one (reports : Delta) (values : List Json) :
    Delta.modified ((reports.take 1).foldl Delta.push []) values =
      Delta.modified (reports.take 1) values := by
  cases reports with
  | nil => rfl
  | cons m later =>
    rw [List.take_succ_cons, List.take_zero]
    exact Delta.modified_push_nil m values

/-- **An attribute that was observed in part holds what the first report on it makes of the stored
values.**  This is what all reports make of them, one after another, just when the later ones would
change nothing any more. -/
theorem valuesAt_appliedTo_of_reported (h : Unambiguous ctx.definition s o)
    (hr : ctx.strategy.retention = .ok retention)
    (hd : ctx.delta s o (some changes) lifecycle = .ok d) (hp : p ∈ ctx.persisted retention o)
    (hincomplete : p.2.incomplete = true) :
    ∃ reports, ctx.reported changes p.1 (s.storedName p.1.name) = .ok reports ∧
      (d.appliedTo s).valuesAt (s.storedName p.1.name) =
        Delta.modified (reports.take 1) (s.valuesAt (s.storedName p.1.name)) ∧
      ((d.appliedTo s).valuesAt (s.storedName p.1.name) =
          Delta.modified reports (s.valuesAt (s.storedName p.1.name)) ↔
        Delta.modified (reports.drop 1) ((d.appliedTo s).valuesAt (s.storedName p.1.name)) =
          (d.appliedTo s).valuesAt (s.storedName p.1.name)) := by
  have hown := attributeDelta_eq_ofItem h hr hd hp
  rw [attributeDelta_of_incomplete hincomplete, incompleteDelta_eq_reported] at hown
  cases hreports : ctx.reported changes p.1 (s.storedName p.1.name) with
  | error e =>
    rw [hreports] at hown
    cases hown
  | ok reports =>
    rw [hreports] at hown
    have hfirst : (d.appliedTo s).valuesAt (s.storedName p.1.name) =
        Delta.modified (reports.take 1) (s.valuesAt (s.storedName p.1.name)) := by
      rw [Delta.valuesAt_appliedTo, ← Except.ok.inj hown, modified_foldl_push_take_one]
    have hall : Delta.modified reports (s.valuesAt (s.storedName p.1.name)) =
        Delta.modified (reports.drop 1) ((d.appliedTo s).valuesAt (s.storedName p.1.name)) := by
      rw [hfirst, ← Delta.modified_append, List.take_append_drop]
    refine ⟨reports, rfl, hfirst, ?_⟩
    rw [hall]
    exact eq_comm

/-- A group was added under one name and another one deleted under another name. -/
def sampleReports : Delta :=
  [{ path := .attributeValues (.qualified "ri" "groups"), add := [.str "d "] },
   { path := .attributeValues (.unqualified "groups"), delete := [.str "b"] }]

/-- The groups are as the first report says. -/
theorem valuesAt_appliedTo_of_reported_sample : ∃ d,
    sampleContext.delta stampedShadow partialObservation (some sampleReports) .live = .ok d ∧
      ∃ a reports, sampleContext.definition.findAttribute? (.qualified "ri" "groups") = some a ∧
        sampleContext.reported sampleReports a (.unqualified "groups") = .ok reports ∧
        (d.appliedTo stampedShadow).valuesAt (.unqualified "groups") =
          Delta.modified (reports.take 1) (stampedShadow.valuesAt (.unqualified "groups")) := by
  obtain ⟨d, hd⟩ : ∃ d,
      sampleContext.delta stampedShadow partialObservation (some sampleReports) .live = .ok d :=
    ⟨_, rfl⟩
  have hgroups : ∃ p ∈ sampleContext.persisted .readable partialObservation,
      p.2.incomplete = true ∧ stampedShadow.storedName p.1.name = .unqualified "groups" ∧
        sampleContext.definition.findAttribute? (.qualified "ri" "groups") = some p.1 := by
    decide +kernel
  obtain ⟨p, hp, hincomplete, hname, hfound⟩ := hgroups
  obtain ⟨reports, hreports, hfirst, -⟩ :=
    valuesAt_appliedTo_of_reported partial_unambiguous rfl hd hp hincomplete
  rw [hname] at hreports hfirst
  exact ⟨d, hd, p.1, reports, hfound, hreports, hfirst⟩

/-- **A later report is lost.**  The deleted group stays, although no name can be mistaken for
another and the copy is stamped as a full one. -/
theorem report_lost : ∃ d p reports,
    Unambiguous sampleContext.definition stampedShadow partialObservation ∧
      sampleContext.delta stampedShadow partialObservation (some sampleReports) .live = .ok d ∧
      p ∈ sampleContext.persisted .readable partialObservation ∧ p.2.incomplete = true ∧
      sampleContext.reported sampleReports p.1 (stampedShadow.storedName p.1.name) = .ok reports ∧
      Delta.modified reports (stampedShadow.valuesAt (stampedShadow.storedName p.1.name)) =
        [.str " a ", .str "a", .str "d"] ∧
      (d.appliedTo stampedShadow).valuesAt (stampedShadow.storedName p.1.name) =
        [.str " a ", .str "b", .str "a", .str "d"] ∧
      sampleContext.stamp ∈ d := by
  obtain ⟨d, hd⟩ : ∃ d,
      sampleContext.delta stampedShadow partialObservation (some sampleReports) .live = .ok d :=
    ⟨_, rfl⟩
  let groups : AttributeDefinition :=
    { AttributeDefinition.new (.qualified "ri" "groups") with
      maxOccurs := none, matchingRule := some "trimmed" }
  refine ⟨d, (groups, { values := [.str "c"], incomplete := true }), _, partial_unambiguous, hd,
    by decide +kernel, rfl, rfl, by decide +kernel, ?_, ?_⟩
  · cases hd
    decide +kernel
  · exact ((stamped_iff rfl hd).2 ⟨rfl, .inl rfl⟩).1

end ReconcileContext

end Reconciler
