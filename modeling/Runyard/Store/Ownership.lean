import Runyard.Store.Submissions

/-!
# Attempt ownership, recovery and cancellation

`ownership.cpp`, `recovery.cpp` and `control.cpp`. `lockAttempt` reads a run with one of its
attempts and compares the attempt's deadlines with the clock; `owned` is the fence
that a runner's calls have to pass.
-/

namespace Runyard

/-- `COALESCE(lease_until > clock_timestamp(), false)`. -/
def AttemptRow.leaseValid (a : AttemptRow) (now : Int) : Bool :=
  match a.leaseUntil with
  | none => false
  | some lease => now < lease

/-- The deadline column that the `CASE` selects. -/
def AttemptRow.phaseDeadline (a : AttemptRow) : Option Int :=
  if a.status = .finalizing then a.finalizationDeadline else a.executionDeadline

/-- A missing deadline counts as valid. -/
def AttemptRow.deadlineValid (a : AttemptRow) (now : Int) : Bool :=
  match a.phaseDeadline with
  | none => true
  | some deadline => now < deadline

structure LockedAttempt where
  run : RunRow
  attempt : AttemptRow
  leaseValid : Bool
  launchValid : Bool
  deadlineValid : Bool
  deriving DecidableEq

def lockAttempt (now : Int) (id : String) (db : Db) : Result LockedAttempt :=
  match db.attempt? id with
  | none => fault .notFound "attempt not found"
  | some a => match db.run? a.runId with
    | none => .error .outOfRange
    | some r => .ok ⟨r, a, a.leaseValid now, now < a.launchDeadline, a.deadlineValid now⟩

def owned (now : Int) (id : String) (generation : Int) (caller : String) (db : Db) :
    Result LockedAttempt := do
  let a ← lockAttempt now id db
  throwIf (text a.run.activeAttempt ≠ id || a.run.generation ≠ generation ||
      text a.attempt.instanceId ≠ caller || caller = "" || !a.leaseValid ||
      !a.deadlineValid || (a.run.status ≠ .running && a.run.status ≠ .finalizing))
    .stale "attempt ownership expired or was replaced"
  return a

/-! ## The rows that the statements write -/

@[simps] def RunRow.enter (r : RunRow) (status : RunStatus) : RunRow :=
  { r with status := status }

@[simps] def RunRow.delay (r : RunRow) (status : RunStatus) (availableAt : Int) : RunRow :=
  { r with status := status, availableAt := availableAt }

@[simps] def AttemptRow.claim (a : AttemptRow) (now : Int) (caller nodeName : String)
    (lease timeout : Int) : AttemptRow :=
  { a with
    nodeName := nodeName
    instanceId := some caller
    status := .running
    startedAt := some now
    leaseUntil := some (now + lease)
    executionDeadline := some (now + timeout) }

@[simps] def AttemptRow.renew (a : AttemptRow) (lease : Int) : AttemptRow :=
  { a with leaseUntil := some lease }

@[simps] def AttemptRow.finalize (a : AttemptRow) (deadline : Int) : AttemptRow :=
  { a with status := .finalizing, finalizationDeadline := some deadline }

@[simps] def AttemptRow.succeed (a : AttemptRow) (now : Int) (reason : String) : AttemptRow :=
  { a with status := .succeeded, exitCode := some 0, reason := some reason, finishedAt := some now }

@[simps] def AttemptRow.fail (a : AttemptRow) (now : Int) (reason : String)
    (exitCode : Option Int) : AttemptRow :=
  { a with
    status := .failed
    reason := some reason
    exitCode := exitCode
    finishedAt := some now }

@[simps] def AttemptRow.cancel (a : AttemptRow) (now : Int) : AttemptRow :=
  { a with
    status := .cancelled
    reason := some "USER_CANCELLED"
    leaseUntil := some now
    finishedAt := some now }

/-! ## The calls of a runner -/

structure Assignment where
  attempt : AttemptRow
  gpuAllocations : List AttemptGpuRow
  spec : RunSpec
  deriving DecidableEq

def nodeNameChar (c : Char) : Bool := ('a' ≤ c && c ≤ 'z') || c.isDigit || c = '.' || c = '-'

def start (timing : Timing) (now : Int) (id : String) (generation : Int)
    (caller nodeName : String) (db : Db) : Result (Db × Assignment) := do
  throwIf (253 < nodeName.utf8ByteSize || !nodeName.toList.all nodeNameChar) .invalid
    "invalid node name"
  throwIf (caller = "" || 200 < caller.utf8ByteSize) .invalid "invalid runner instance identity"
  let a ← lockAttempt now id db
  throwIf (text a.run.activeAttempt ≠ id || a.run.generation ≠ generation || a.run.status.terminal)
    .stale "attempt is no longer current"
  throwIf (a.run.status ≠ .starting && a.run.status ≠ .running && a.run.status ≠ .finalizing)
    .stale "attempt is no longer executing"
  throwIf (nodeName ≠ "" && a.attempt.workerId ≠ "@kubernetes") .invalid
    "node placement only applies to Kubernetes"
  if text a.attempt.instanceId ≠ "" then do
    throwIf (text a.attempt.instanceId ≠ caller || a.attempt.nodeName ≠ nodeName ||
        !a.leaseValid || !a.deadlineValid)
      .stale "attempt already claimed or expired"
    return (db, ⟨a.attempt, [], a.run.spec⟩)
  else do
    throwIf (a.run.status ≠ .starting || !a.launchValid) .stale "launch deadline expired"
    let claim := fun (row : AttemptRow) =>
      row.claim now caller nodeName (seconds timing.leaseSeconds)
        (seconds a.run.spec.timeoutSeconds)
    let db := db.updateAttempt id claim
    let db := db.updateRun a.run.id fun r => r.enter .running
    let db ← event now a.run.id .started "runner claimed execution" db
    return (db, ⟨claim a.attempt, [], a.run.spec⟩)

def heartbeat (timing : Timing) (now : Int) (id : String) (generation : Int)
    (caller : String) (db : Db) : Result Db := do
  let _ ← owned now id generation caller db
  return db.updateAttempt id fun row => row.renew (now + seconds timing.leaseSeconds)

def beginFinalization (timing : Timing) (now : Int) (id : String) (generation : Int)
    (caller : String) (db : Db) : Result Db := do
  let a ← owned now id generation caller db
  if a.run.status = .running then
    let db := db.updateAttempt id fun row =>
      row.finalize (now + seconds timing.finalizationSeconds)
    let db := db.updateRun a.run.id fun r => r.enter .finalizing
    event now a.run.id .finalizing "collecting execution outputs" db
  else return db

/-- `pg::fail`: fail the attempt and, by the retry policy, schedule another or fail the run. -/
def fail (timing : Timing) (now : Int) (a : LockedAttempt) (failure : Failure) (reason : String)
    (exitCode : Option Int) (db : Db) : Result Db :=
  let retry := shouldRetry a.run.spec.retry a.attempt.generation failure
  let db := db.updateAttempt a.attempt.id fun row => row.fail now reason exitCode
  let delay := retryDelay a.attempt.generation timing.retryBaseSeconds timing.retryMaxSeconds
  let db := db.updateRun a.run.id fun r =>
    r.delay (if retry then .retryWait else .failed) (now + seconds delay)
  event now a.run.id (if retry then .retryScheduled else .failed) reason db

/-- How `finish` classifies a nonzero exit that a runner reports. -/
def reportedFailure (reason : String) : Failure :=
  if reason = "TIMEOUT" then .timeout
  else if reason = "STOP_REQUESTED" || reason = "LEASE_LOST" then .infrastructure
  else .exitError

def finish (timing : Timing) (now : Int) (id : String) (generation : Int) (caller : String)
    (exitCode : Int) (reason : String) (finalSequence : Int) (db : Db) : Result Db := do
  let a ← lockAttempt now id db
  if text a.run.activeAttempt = id && text a.attempt.instanceId = caller &&
      a.attempt.generation = generation && a.attempt.exitCode = some exitCode &&
      (a.attempt.status = .succeeded || a.attempt.status = .failed) then
    return db
  else do
    let a ← owned now id generation caller db
    throwIf (a.attempt.ackSequence ≠ finalSequence) .conflict
      "telemetry must be acknowledged before completion"
    throwIf (exitCode = 0 && a.run.status ≠ .finalizing) .conflict
      "successful completion requires finalization"
    if exitCode = 0 then
      let db := db.updateAttempt id fun row => row.succeed now reason
      let db := db.updateRun a.run.id fun r => r.enter .succeeded
      event now a.run.id .completed "SUCCEEDED" db
    else
      fail timing now a (reportedFailure reason) (if reason = "" then "EXIT_ERROR" else reason)
        (some exitCode) db

def verifyOwner (now : Int) (id : String) (generation : Int) (caller : String) (db : Db) :
    Result Db := do
  let _ ← owned now id generation caller db
  return db

/-! ## Recovery -/

/-- The event of each requeued run, in the order that the update returned them. -/
def requeueEvents (now : Int) : List RunRow → Db → Result Db
  | [], db => .ok db
  | row :: rest, db => do
    let db ← event now row.id .requeued "retry delay elapsed" db
    requeueEvents now rest db

def retryDue (now : Int) (r : RunRow) : Bool := r.status = .retryWait && r.availableAt ≤ now

/-- The first transaction of `recover`. -/
def recoverRequeue (now : Int) (db : Db) : Result Db :=
  let rows := db.runs.filter (retryDue now)
  let runs := Table.update (retryDue now) (fun r => r.enter .queued) db.runs
  requeueEvents now rows { db with runs := runs }

def lapsed (deadline : Option Int) (now : Int) : Bool :=
  match deadline with
  | none => false
  | some t => t ≤ now

/-- The `WHERE` clause of the scan. -/
def expired (now : Int) (a : AttemptRow) : Bool :=
  (a.status = .starting && a.launchDeadline ≤ now) ||
  ((a.status = .running || a.status = .finalizing) && lapsed a.leaseUntil now) ||
  (a.status = .running && lapsed a.executionDeadline now) ||
  (a.status = .finalizing && lapsed a.finalizationDeadline now)

/-- The second transaction of `recover`: the oldest hundred candidates. -/
def recoverScan (now : Int) (db : Db) : List String :=
  (((db.attempts.filter (expired now)).insertionSort fun a b => a.createdAt ≤ b.createdAt).take
    100).map (·.id)

/-- The transaction that `recover` runs for each candidate. -/
def recoverAttempt (timing : Timing) (now : Int) (id : String) (db : Db) : Result Db := do
  let a ← lockAttempt now id db
  if text a.run.activeAttempt ≠ id || a.run.status.terminal || a.attempt.status = .failed then
    return db
  else if a.run.status = .starting && !a.launchValid then
    fail timing now a .infrastructure "LAUNCH_TIMEOUT" none db
  else if a.run.status = .running && !a.deadlineValid then
    fail timing now a .timeout "TIMEOUT" none db
  else if a.run.status = .finalizing && !a.deadlineValid then
    fail timing now a .infrastructure "FINALIZATION_TIMEOUT" none db
  else if (a.run.status = .running || a.run.status = .finalizing) && !a.leaseValid then
    fail timing now a .infrastructure "LEASE_EXPIRED" none db
  else return db

/-! ## Cancellation -/

def cancel (now : Int) (id : String) (db : Db) : Result (Db × RunRow) :=
  match db.run? id with
  | none => fault .notFound "run not found"
  | some run =>
    if run.status.terminal then return (db, run)
    else do
      let attempts := Table.update (fun a => a.runId = id && a.status.live)
        (fun a => a.cancel now) db.attempts
      let db := { db with attempts := attempts }
      let db := db.updateRun id fun r => r.enter .cancelled
      let db ← event now id .cancelled "results fenced; remote cleanup may still be pending" db
      return (db, run.enter .cancelled)

end Runyard
