/-
Availability of resources: the last status observed, and how it came about.

* `AvailabilityChange`: one observed change;
* `OperationalState`: the last status and the history, oldest first;
* `OperationalState.record`: one more change, keeping a bounded history.

Main statements:
* `OperationalState.history_record`: the history is the end of what was recorded;
* `OperationalState.status_record`: the last status is that of the change.
-/
import Reconciler.Instant

namespace Reconciler

/-- Whether a resource can be used. -/
inductive Availability where
  | up
  | down
  | broken
deriving DecidableEq, Repr, Inhabited

namespace Availability

/-- The name of a status. -/
def name : Availability → String
  | up => "up"
  | down => "down"
  | broken => "broken"

/-- The name of a status in messages. -/
def label : Availability → String
  | up => "UP"
  | down => "DOWN"
  | broken => "BROKEN"

instance : Named Availability where
  all := [up, down, broken]
  name := name
  ofName?_name a := by cases a <;> decide

instance : Codec Availability := Named.codec

end Availability

/-- One recorded change. -/
structure AvailabilityChange where
  status : Availability
  timestamp : Instant
  reason : Option String
  taskId : Option String
deriving DecidableEq, Inhabited

instance : Codec AvailabilityChange where
  encode c := .record [
    ("status", encode c.status), ("timestamp", encode c.timestamp), ("reason", encode c.reason),
    ("taskId", encode c.taskId)]
  decode? j := do
    let row ← Row.of? ["status", "timestamp", "reason", "taskId"] j
    return {
      status := ← row.required "status"
      timestamp := ← row.required "timestamp"
      reason := ← row.optional "reason"
      taskId := ← row.optional "taskId" }

/-- The last status and the changes that led to it, oldest first. -/
structure OperationalState where
  lastStatus : Option Availability := none
  history : List AvailabilityChange := []
deriving DecidableEq, Inhabited

namespace OperationalState

instance : Codec OperationalState where
  encode s := .record [
    ("lastAvailabilityStatus", encode s.lastStatus), ("history", encode s.history)]
  decode? j := do
    let row ← Row.of? ["lastAvailabilityStatus", "history"] j
    return {
      lastStatus := ← row.defaulted "lastAvailabilityStatus" none
      history := ← row.defaulted "history" [] }

/-- The last entries of a list, at most `limit`. -/
def lastEntries {α : Type} (limit : Nat) (xs : List α) : List α := xs.drop (xs.length - limit)

/-- The state after one more change; at most `limit` changes are kept. -/
def record (s : OperationalState) (limit : Nat) (change : AvailabilityChange) :
    OperationalState where
  lastStatus := some change.status
  history := lastEntries limit (s.history ++ [change])

@[simp] theorem status_record (s : OperationalState) (limit : Nat) (change : AvailabilityChange) :
    (s.record limit change).lastStatus = some change.status := rfl

theorem lastEntries_lastEntries_append {α : Type} (limit : Nat) (xs ys : List α) :
    lastEntries limit (lastEntries limit xs ++ ys) = lastEntries limit (xs ++ ys) := by
  unfold lastEntries
  by_cases h : xs.length ≤ limit
  · rw [Nat.sub_eq_zero_of_le h, List.drop_zero]
  · have h1 : (xs.drop (xs.length - limit)).length = limit := by simp; omega
    rw [List.length_append, h1, List.length_append,
      show limit + ys.length - limit = ys.length by omega,
      List.drop_append, List.drop_append, List.drop_drop, h1]
    congr 1
    · congr 1
      omega
    · congr 1
      omega

/-- The history is the end of what was recorded. -/
theorem history_record (limit : Nat) (changes : List AvailabilityChange)
    (change : AvailabilityChange)
    (s : OperationalState) (h : s.history = lastEntries limit changes) :
    (s.record limit change).history = lastEntries limit (changes ++ [change]) := by
  simp only [record, h, lastEntries_lastEntries_append]

end OperationalState

end Reconciler
