import Runyard.Store.Ownership

/-!
# Telemetry and artifacts

The writing halves of `telemetry.cpp` and `artifacts.cpp`. `report` stores the part of a
batch that continues the acknowledged sequence and returns the new acknowledgment.
-/

namespace Runyard

/-- The loop of `report`: skip what is stored already, stop at the first gap. -/
def insertRecords (id : String) : List Telemetry → Int → Db → Result (Db × Int)
  | [], sequence, db => .ok (db, sequence)
  | r :: rest, sequence, db =>
    if r.sequence ≤ sequence then insertRecords id rest sequence db
    else if r.sequence ≠ sequence + 1 then .ok (db, sequence)
    else do
      let db ← db.insertTelemetry ⟨id, r⟩
      insertRecords id rest r.sequence db

@[simps] def AttemptRow.acknowledge (a : AttemptRow) (sequence : Int) : AttemptRow :=
  { a with ackSequence := sequence }

def report (now : Int) (id : String) (generation : Int) (caller : String)
    (records : List Telemetry) (db : Db) : Result (Db × Int) := do
  throwIf (256 < records.length) .invalid "telemetry batch exceeds 256 records"
  records.forM Telemetry.validate
  let a ← owned now id generation caller db
  let (db, sequence) ← insertRecords id records a.attempt.ackSequence db
  return (db.updateAttempt id fun row => row.acknowledge sequence, sequence)

def publishArtifact (now : Int) (value : Artifact) (generation : Int) (caller : String)
    (db : Db) : Result (Db × Artifact) := do
  let a ← owned now value.attemptId generation caller db
  throwIf (a.run.status ≠ .finalizing) .conflict "artifacts require finalization"
  let stored := db.artifacts.filter fun f => f.attemptId = value.attemptId
  match stored.find? fun f => f.path = value.path with
  | some old => do
    throwIf (old.sha256 ≠ value.sha256 || old.size ≠ value.size) .conflict
      "artifact path already contains different data"
    return (db, old)
  | none => do
    let total := (stored.map (·.size)).sum
    throwIf (1024 * 1024 * 1024 < (total + value.size) % 2 ^ 64 || 1000 ≤ stored.length)
      .exhausted "attempt artifact quota exceeded"
    let db ← db.insertArtifact value
    return (db, value)

end Runyard
