import Runyard.Store.Operations

/-!
# Queries

The reading transactions of `telemetry.cpp` and `artifacts.cpp`. A query sees the database at
one instant. Joins run along primary keys, so that each row joins at most one other row.
-/

namespace Runyard

/-- `COALESCE(NULLIF(attempt,''),r.active_attempt)` names the attempt `id` of the run. -/
def selects (run attempt id : String) (db : Db) : Bool :=
  db.attempts.any fun a => a.id = id && db.runs.any fun r =>
    r.id = a.runId && r.id = run &&
      (if attempt = "" then r.activeAttempt else some attempt) = some a.id

/-- The filter on kind and name. -/
def shown (kind name : String) (t : Telemetry) : Bool :=
  ((kind = "logs" && t.kind ≠ "metric") || (kind = "metric" && t.kind = "metric")) &&
    (name = "" || t.name = name)

def telemetry (run attempt : String) (after limit : Int) (kind name : String) (db : Db) :
    List Telemetry :=
  let rows := db.telemetry.filter fun t =>
    selects run attempt t.attemptId db && after < t.record.sequence && shown kind name t.record
  let ordered := (rows.map (·.record)).insertionSort fun r s => r.sequence ≤ s.sequence
  ordered.take (max 1 (min limit 1000)).toNat

def getArtifact (id : String) (db : Db) : Result Artifact :=
  match Table.lookup (·.id) id db.artifacts with
  | none => fault .notFound "artifact not found"
  | some artifact => .ok artifact

end Runyard
