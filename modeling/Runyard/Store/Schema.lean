import Runyard.Table
import Runyard.Domain
import Mathlib.Tactic.Simps.Basic

/-!
# Database schema

The tables of migrations 001 to 006. A nullable column is an `Option`, and `text` reads it as
`pg::text` does. Foreign keys and `CHECK` constraints are not modelled: the operations
only insert rows that meet them. Unique constraints are, and an insert that violates one fails.
The `spec` column holds the specification whose document was written; `Serialization.Storage`
says what decoding the document returns.
-/

namespace Runyard

/-- `pg::text`: SQL `NULL` reads as the empty string. -/
def text (field : Option String) : String := field.getD ""

@[simp] theorem text_none : text none = "" := rfl

@[simp] theorem text_some (value : String) : text (some value) = value := rfl

theorem text_eq {field : Option String} {value : String} (h : text field = value)
    (nonempty : value ≠ "") : field = some value := by
  cases field with
  | none => exact absurd h.symm nonempty
  | some v => rw [← h, text_some]

/-- The result of `random_id`: 16 random bytes in hexadecimal. -/
structure RandomId where
  text : String
  digits : text.toList.length = 32 ∧ text.toList.all lowerHex
  deriving DecidableEq

theorem RandomId.ne_empty (id : RandomId) : id.text ≠ "" := by
  intro h
  have := id.digits.1
  simp [h] at this

structure RunRow where
  id : String
  spec : RunSpec
  status : RunStatus := .queued
  generation : Int := 0
  activeAttempt : Option String := none
  priority : Int
  cpuMillis : Int
  memoryMib : Int
  gpuCount : Int := 0
  sweepId : Option String := none
  parentRunId : Option String := none
  eventSequence : Int := 0
  availableAt : Int
  createdAt : Int
  updatedAt : Int
  deriving DecidableEq

structure AttemptRow where
  id : String
  runId : String
  generation : Int
  workerId : String
  instanceId : Option String := none
  status : AttemptStatus := .starting
  reason : Option String := none
  exitCode : Option Int := none
  runtimeId : Option String := none
  cleanupStatus : CleanupStatus := .pending
  ackSequence : Int := 0
  launchDeadline : Int
  leaseUntil : Option Int := none
  executionDeadline : Option Int := none
  finalizationDeadline : Option Int := none
  createdAt : Int
  startedAt : Option Int := none
  finishedAt : Option Int := none
  gpuCount : Int := 0
  nodeName : String := ""
  deriving DecidableEq

/-- The values of `events.kind`. -/
inductive EventKind where
  | submitted | requeued | assigned | started | finalizing | retryScheduled | completed
  | failed | cancelled
  deriving DecidableEq, Repr

structure EventRow where
  runId : String
  sequence : Int
  kind : EventKind
  detail : String
  createdAt : Int
  deriving DecidableEq

structure SubmissionRow where
  key : String
  fingerprint : String
  runId : String
  deriving DecidableEq

structure SweepRow where
  id : String
  spec : SweepSpec
  key : String
  fingerprint : String
  createdAt : Int
  deriving DecidableEq

structure WorkerRow where
  id : String
  session : String
  cpuMillis : Int
  memoryMib : Int
  drained : Bool := false
  heartbeatAt : Int
  engineId : String := ""
  gpuCapable : Bool := false
  gpuReady : Bool := false
  gpuSequence : Int := 0
  gpuObservedAt : Option Int := none
  deriving DecidableEq

structure TelemetryRow where
  attemptId : String
  record : Telemetry
  deriving DecidableEq

structure Artifact where
  id : String
  attemptId : String
  path : String
  storageKey : String
  sha256 : String
  size : Nat
  deriving DecidableEq

structure GpuDeviceRow where
  uuid : String
  workerId : String
  name : String
  memoryMib : Nat
  eligible : Bool
  present : Bool := true
  reason : String := ""
  observedAt : Int
  deriving DecidableEq

structure AttemptGpuRow where
  attemptId : String
  uuid : String
  name : String
  memoryMib : Nat
  allocatedAt : Int
  releasedAt : Option Int := none
  deriving DecidableEq

/-- The tables that record the lives of runs. -/
structure Journal where
  runs : List RunRow := []
  attempts : List AttemptRow := []
  events : List EventRow := []
  deriving DecidableEq

/-- The journal with the tables that say where attempts run. -/
structure Ledger extends Journal where
  workers : List WorkerRow := []
  gpuDevices : List GpuDeviceRow := []
  attemptGpus : List AttemptGpuRow := []
  deriving DecidableEq

structure Db extends Ledger where
  submissions : List SubmissionRow := []
  sweeps : List SweepRow := []
  telemetry : List TelemetryRow := []
  artifacts : List Artifact := []
  deriving DecidableEq

namespace Journal

def run? (j : Journal) (id : String) : Option RunRow := Table.lookup (·.id) id j.runs

def attempt? (j : Journal) (id : String) : Option AttemptRow := Table.lookup (·.id) id j.attempts

def attemptsOf (j : Journal) (run : String) : List AttemptRow :=
  j.attempts.filter fun a => a.runId = run

def eventsOf (j : Journal) (run : String) : List EventRow :=
  j.events.filter fun e => e.runId = run

end Journal

def Ledger.worker? (l : Ledger) (id : String) : Option WorkerRow :=
  Table.lookup (·.id) id l.workers

namespace Db

def updateRun (id : String) (f : RunRow → RunRow) (db : Db) : Db :=
  { db with runs := Table.update (fun r => r.id = id) f db.runs }

def updateAttempt (id : String) (f : AttemptRow → AttemptRow) (db : Db) : Db :=
  { db with attempts := Table.update (fun a => a.id = id) f db.attempts }

def updateWorker (id : String) (f : WorkerRow → WorkerRow) (db : Db) : Db :=
  { db with workers := Table.update (fun w => w.id = id) f db.workers }

/-- `INSERT INTO runs`. -/
def insertRun (row : RunRow) (db : Db) : Result Db :=
  if db.runs.any fun r => r.id = row.id then .error (.uniqueViolation "runs_pkey")
  else .ok { db with runs := db.runs ++ [row] }

/-- `INSERT INTO attempts`. -/
def insertAttempt (row : AttemptRow) (db : Db) : Result Db :=
  if db.attempts.any fun a => a.id = row.id then .error (.uniqueViolation "attempts_pkey")
  else if db.attempts.any fun a => a.runId = row.runId && a.generation = row.generation then
    .error (.uniqueViolation "attempts_run_id_generation_key")
  else .ok { db with attempts := db.attempts ++ [row] }

/-- `INSERT INTO events`. -/
def insertEvent (row : EventRow) (db : Db) : Result Db :=
  if db.events.any fun e => e.runId = row.runId && e.sequence = row.sequence then
    .error (.uniqueViolation "events_pkey")
  else .ok { db with events := db.events ++ [row] }

def insertSubmission (row : SubmissionRow) (db : Db) : Result Db :=
  if db.submissions.any fun s => s.key = row.key then .error (.uniqueViolation "submissions_pkey")
  else .ok { db with submissions := db.submissions ++ [row] }

def insertSweep (row : SweepRow) (db : Db) : Result Db :=
  if db.sweeps.any fun s => s.id = row.id then .error (.uniqueViolation "sweeps_pkey")
  else if db.sweeps.any fun s => s.key = row.key then .error (.uniqueViolation "sweeps_key_key")
  else .ok { db with sweeps := db.sweeps ++ [row] }

def insertTelemetry (row : TelemetryRow) (db : Db) : Result Db :=
  if db.telemetry.any fun t => t.attemptId = row.attemptId &&
      t.record.sequence = row.record.sequence then
    .error (.uniqueViolation "telemetry_pkey")
  else .ok { db with telemetry := db.telemetry ++ [row] }

def insertArtifact (row : Artifact) (db : Db) : Result Db :=
  if db.artifacts.any fun a => a.id = row.id then .error (.uniqueViolation "artifacts_pkey")
  else if db.artifacts.any fun a => a.attemptId = row.attemptId && a.path = row.path then
    .error (.uniqueViolation "artifacts_attempt_id_path_key")
  else .ok { db with artifacts := db.artifacts ++ [row] }

/-- `INSERT INTO attempt_gpus`, with the partial unique index on unreleased devices. -/
def insertAttemptGpu (row : AttemptGpuRow) (db : Db) : Result Db :=
  if db.attemptGpus.any fun g => g.attemptId = row.attemptId && g.uuid = row.uuid then
    .error (.uniqueViolation "attempt_gpus_pkey")
  else if row.releasedAt.isNone &&
      db.attemptGpus.any fun g => g.uuid = row.uuid && g.releasedAt.isNone then
    .error (.uniqueViolation "gpu_exclusive_allocation")
  else .ok { db with attemptGpus := db.attemptGpus ++ [row] }

end Db

end Runyard
