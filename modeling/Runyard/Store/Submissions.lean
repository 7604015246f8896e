import Runyard.Store.Schema

/-!
# Submissions, sweeps and reruns

`runs.cpp` and `sweeps.cpp`. Each function is one transaction: it reads and writes a
database at one instant, and an error discards what it wrote. Advisory locks only
serialize transactions, which the model already runs one at a time.
-/

namespace Runyard

@[simps] def RunRow.count (r : RunRow) (now : Int) : RunRow :=
  { r with eventSequence := r.eventSequence + 1, updatedAt := now }

/-- `pg::event`: number the event under the run row. -/
def event (now : Int) (id : String) (kind : EventKind) (detail : String) (db : Db) : Result Db :=
  let db := db.updateRun id fun r => r.count now
  match db.run? id with
  | none => .error .outOfRange
  | some r => db.insertEvent ⟨id, r.eventSequence, kind, detail, now⟩

/-- The row that `INSERT INTO runs` creates from a specification and the column defaults. -/
@[simps] def newRun (now : Int) (id : RandomId) (spec : RunSpec) : RunRow where
  id := id.text
  spec := spec
  priority := spec.priority
  cpuMillis := spec.resources.cpuMillis
  memoryMib := spec.resources.memoryMib
  gpuCount := spec.resources.gpuCount
  availableAt := now
  createdAt := now
  updatedAt := now

def submit (now : Int) (randomId : RandomId) (spec : RunSpec) (key fingerprint : String)
    (db : Db) : Result (Db × RunRow) := do
  validateSubmission spec
  match Table.lookup (·.key) key db.submissions with
  | some old => do
    throwIf (old.fingerprint ≠ fingerprint) .conflict
      "idempotency key already identifies another request"
    match db.run? old.runId with
    | none => .error .outOfRange
    | some run => return (db, run)
  | none => do
    let row := newRun now randomId spec
    let db ← db.insertRun row
    let db ← db.insertSubmission ⟨key, fingerprint, row.id⟩
    let db ← event now row.id .submitted "run accepted" db
    return (db, row)

structure Sweep where
  id : String
  spec : SweepSpec
  runIds : List String
  createdAt : Int
  deriving DecidableEq

/-- `ORDER BY created_at, id`. -/
def createdBefore (r s : RunRow) : Prop :=
  r.createdAt < s.createdAt ∨ r.createdAt = s.createdAt ∧ r.id ≤ s.id

instance : DecidableRel createdBefore := fun _ _ => inferInstanceAs (Decidable (_ ∨ _ ∧ _))

def loadSweep (id : String) (db : Db) : Result Sweep :=
  match Table.lookup (·.id) id db.sweeps with
  | none => fault .notFound "sweep not found"
  | some row =>
    let runs := (db.runs.filter fun r => r.sweepId = some id).insertionSort createdBefore
    .ok ⟨row.id, row.spec, runs.map (·.id), row.createdAt⟩

/-- The loop of `submit_sweep`; `randomId` is the stream of identifiers it draws. -/
def insertSweepRuns (now : Int) (sweep : String) (randomId : Nat → RandomId) :
    Nat → List RunSpec → Db → Result Db
  | _, [], db => .ok db
  | i, run :: rest, db => do
    validateSubmission run
    let row := { newRun now (randomId i) run with sweepId := some sweep }
    let db ← db.insertRun row
    let db ← event now row.id .submitted ("sweep " ++ sweep) db
    insertSweepRuns now sweep randomId (i + 1) rest db

def submitSweep (now : Int) (randomId : Nat → RandomId) (spec : SweepSpec)
    (runs : List RunSpec) (key fingerprint : String) (db : Db) : Result (Db × Sweep) := do
  match Table.lookup (·.key) key db.sweeps with
  | some existing => do
    throwIf (existing.fingerprint ≠ fingerprint) .conflict
      "sweep key already identifies another request"
    let result ← loadSweep existing.id db
    return (db, result)
  | none => do
    let id := (randomId 0).text
    let db ← db.insertSweep ⟨id, spec, key, fingerprint, now⟩
    let db ← insertSweepRuns now id randomId 1 runs db
    let result ← loadSweep id db
    return (db, result)

def rerun (now : Int) (randomId : RandomId) (sha256 : String → String) (id key : String)
    (db : Db) : Result (Db × RunRow) := do
  let fingerprint := sha256 ("rerun:" ++ id)
  match Table.lookup (·.key) key db.submissions with
  | some existing => do
    throwIf (existing.fingerprint ≠ fingerprint) .conflict "key already identifies another request"
    match db.run? existing.runId with
    | none => .error .outOfRange
    | some run => return (db, run)
  | none =>
    match db.run? id with
    | none => fault .notFound "run not found"
    | some old => do
      throwIf (!old.status.terminal) .conflict "only terminal runs can be rerun"
      validateSubmission old.spec
      let row := { newRun now randomId old.spec with parentRunId := some id }
      let db ← db.insertRun row
      let db ← db.insertSubmission ⟨key, fingerprint, row.id⟩
      let db ← event now row.id .submitted ("rerun of " ++ id) db
      return (db, row)

end Runyard
