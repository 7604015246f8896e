import Runyard.Store.Ownership

/-!
# Workers, GPU devices and assignment

`workers.cpp` and `gpus.cpp`: the registration of Docker workers, GPU discovery, and the
scheduler `assign` that reserves CPU, memory and GPU devices for an attempt until
`runtimeReport` says that its container is gone.
-/

namespace Runyard

def requireWorker (id session : String) (db : Db) : Result WorkerRow :=
  match db.worker? id with
  | none => fault .stale "worker session is no longer current"
  | some w => do
    throwIf (w.session ≠ session) .stale "worker session is no longer current"
    return w

@[simps] def WorkerRow.beat (w : WorkerRow) (now : Int) : WorkerRow :=
  { w with heartbeatAt := now }

def workerHeartbeat (now : Int) (id session : String) (db : Db) : Result Db := do
  let _ ← requireWorker id session db
  return db.updateWorker id fun w => w.beat now

structure Capacity where
  cpuMillis : Int
  memoryMib : Int
  deriving DecidableEq, Repr

structure GpuRegistration where
  engineId : String := ""
  capable : Bool := false
  deriving DecidableEq, Repr

@[simps] def newWorker (now : Int) (id session : String) (capacity : Capacity)
    (gpu : GpuRegistration) : WorkerRow where
  id := id
  session := session
  cpuMillis := capacity.cpuMillis
  memoryMib := capacity.memoryMib
  heartbeatAt := now
  engineId := gpu.engineId
  gpuCapable := gpu.capable

@[simps] def WorkerRow.reregister (w : WorkerRow) (now : Int) (session : String)
    (capacity : Capacity) (gpu : GpuRegistration) : WorkerRow :=
  { w with
    session := session
    cpuMillis := capacity.cpuMillis
    memoryMib := capacity.memoryMib
    engineId := gpu.engineId
    gpuCapable := gpu.capable
    gpuReady := false
    gpuSequence := 0
    gpuObservedAt := none
    heartbeatAt := now }

def registerWorker (now : Int) (id session : String) (capacity : Capacity)
    (gpu : GpuRegistration) (db : Db) : Result Db := do
  throwIf (id = "" || startsWith id "@" || 100 < id.utf8ByteSize || session = "" ||
      200 < session.utf8ByteSize || capacity.cpuMillis ≤ 0 || capacity.memoryMib ≤ 0 ||
      200 < gpu.engineId.utf8ByteSize || (gpu.capable && gpu.engineId = ""))
    .invalid "invalid worker registration"
  match db.worker? id with
  | none => return { db with workers := db.workers ++ [newWorker now id session capacity gpu] }
  | some old => do
    throwIf (old.engineId ≠ "" && old.engineId ≠ gpu.engineId &&
        db.attempts.any (fun a => a.workerId = id && a.cleanupStatus = .pending))
      .conflict "worker engine changed with unresolved attempts"
    return db.updateWorker id fun w => w.reregister now session capacity gpu

@[simps] def WorkerRow.drain (w : WorkerRow) (drained : Bool) : WorkerRow :=
  { w with drained := drained }

def drainWorker (id : String) (drained : Bool) (db : Db) : Result Db :=
  match db.worker? id with
  | none => fault .notFound "worker not found"
  | some _ => .ok (db.updateWorker id fun w => w.drain drained)

/-! ## GPU discovery -/

structure GpuDevice where
  uuid : String
  name : String
  memoryMib : Nat
  eligible : Bool
  reason : String
  deriving DecidableEq, Repr

structure GpuSnapshot where
  sequence : Int
  ready : Bool
  devices : List GpuDevice
  deriving DecidableEq, Repr

/-- The loop that checks the descriptors; `unique` holds the UUIDs seen so far. -/
def checkDevices : List GpuDevice → List String → Result Unit
  | [], _ => .ok ()
  | device :: rest, unique =>
    if !startsWith device.uuid "GPU-" || 100 < device.uuid.utf8ByteSize ||
        !safeString device.uuid || 200 < device.name.utf8ByteSize ||
        500 < device.reason.utf8ByteSize || 1048576 < device.memoryMib ||
        unique.contains device.uuid then
      fault .invalid "invalid or duplicate GPU descriptor"
    else checkDevices rest (device.uuid :: unique)

@[simps] def newDevice (now : Int) (worker : String) (device : GpuDevice) : GpuDeviceRow where
  uuid := device.uuid
  workerId := worker
  name := device.name
  memoryMib := device.memoryMib
  eligible := device.eligible
  reason := device.reason
  observedAt := now

@[simps] def GpuDeviceRow.observe (d : GpuDeviceRow) (now : Int) (device : GpuDevice) :
    GpuDeviceRow :=
  { d with
    name := device.name
    memoryMib := device.memoryMib
    eligible := device.eligible
    reason := device.reason
    present := true
    observedAt := now }

@[simps] def GpuDeviceRow.hide (d : GpuDeviceRow) : GpuDeviceRow := { d with present := false }

def GpuDeviceRow.device (d : GpuDeviceRow) : GpuDevice :=
  ⟨d.uuid, d.name, d.memoryMib, d.eligible, d.reason⟩

/-- `INSERT ... ON CONFLICT(uuid) DO UPDATE ... WHERE gpu_devices.worker_id=$2`. -/
def upsertDevice (now : Int) (worker : String) (device : GpuDevice) (db : Db) : Result Db :=
  match Table.lookup (·.uuid) device.uuid db.gpuDevices with
  | none => .ok { db with gpuDevices := db.gpuDevices ++ [newDevice now worker device] }
  | some old => do
    throwIf (old.workerId ≠ worker) .conflict "GPU UUID belongs to another worker"
    let devices :=
      Table.update (fun d => d.uuid = device.uuid) (fun d => d.observe now device) db.gpuDevices
    return { db with gpuDevices := devices }

def upsertDevices (now : Int) (worker : String) : List GpuDevice → Db → Result Db
  | [], db => .ok db
  | device :: rest, db => do
    let db ← upsertDevice now worker device db
    upsertDevices now worker rest db

@[simps] def WorkerRow.observe (w : WorkerRow) (now : Int) (snapshot : GpuSnapshot) : WorkerRow :=
  { w with
    gpuSequence := snapshot.sequence
    gpuReady := snapshot.ready
    gpuObservedAt := if snapshot.ready then some now else w.gpuObservedAt }

def reportGpuInventory (now : Int) (worker session : String) (snapshot : GpuSnapshot)
    (db : Db) : Result Db := do
  throwIf (snapshot.sequence ≤ 0 || 64 < snapshot.devices.length) .invalid
    "invalid GPU inventory size or sequence"
  checkDevices snapshot.devices []
  let row ← requireWorker worker session db
  throwIf (!row.gpuCapable) .conflict "worker has not enabled GPU execution"
  if snapshot.sequence ≤ row.gpuSequence then return db
  else if snapshot.ready then do
    let hidden := Table.update (fun d => d.workerId = worker) (fun d => d.hide) db.gpuDevices
    let devices := snapshot.devices.insertionSort fun d e => d.uuid ≤ e.uuid
    let db ← upsertDevices now worker devices { db with gpuDevices := hidden }
    return db.updateWorker worker fun w => w.observe now snapshot
  else return db.updateWorker worker fun w => w.observe now snapshot

/-! ## Reservation -/

def loadGpuAllocations (attempt : String) (db : Db) : List AttemptGpuRow :=
  (db.attemptGpus.filter fun g => g.attemptId = attempt).insertionSort fun g h => g.uuid ≤ h.uuid

/-- The device has an unreleased allocation. -/
def Ledger.allocated (l : Ledger) (uuid : String) : Bool :=
  l.attemptGpus.any fun g => g.uuid = uuid && g.releasedAt.isNone

def freeGpus (worker : String) (db : Db) : List GpuDeviceRow :=
  (db.gpuDevices.filter fun d =>
    d.workerId = worker && d.present && d.eligible && !db.allocated d.uuid).insertionSort
      fun d e => d.uuid ≤ e.uuid

/-- The loop of `reserve_gpus`; taking from an exhausted list is `devices.at` out of range. -/
def reserveGpus (now : Int) (attempt : String) : Nat → List GpuDeviceRow → Db → Result Db
  | 0, _, db => .ok db
  | _ + 1, [], _ => .error .outOfRange
  | count + 1, device :: rest, db => do
    let db ← db.insertAttemptGpu ⟨attempt, device.uuid, device.name, device.memoryMib, now, none⟩
    reserveGpus now attempt count rest db

/-- `priority DESC,created_at,id`. -/
def queueBefore (r s : RunRow) : Bool :=
  s.priority < r.priority || (r.priority = s.priority && createdBefore r s)

/-- A column summed over the attempts of a worker whose cleanup is pending. -/
def Journal.reserved (j : Journal) (worker : String) (column : RunRow → Int) : Int :=
  ((j.attempts.filter fun a => a.workerId = worker && a.cleanupStatus = .pending).map
    fun a => ((j.run? a.runId).map column).getD 0).sum

/-- The first queued run in queue order that meets the condition and is not locked. -/
def nextQueued (now : Int) (locked : List String) (fits : RunRow → Bool) (db : Db) :
    Option RunRow :=
  Table.best queueBefore (db.runs.filter fun r =>
    r.status = .queued && r.availableAt ≤ now && fits r && !locked.contains r.id)

/-- The run asks for no more than what is left of a worker. -/
def fitsWorker (devices : Nat) (cpu memory : Int) (r : RunRow) : Bool :=
  r.gpuCount ≤ devices && r.cpuMillis ≤ cpu && r.memoryMib ≤ memory

/-- The row that `INSERT INTO attempts` creates for the next attempt of a run. -/
@[simps] def newAttempt (timing : Timing) (now : Int) (attempt : RandomId) (worker : String)
    (run : RunRow) : AttemptRow where
  id := attempt.text
  runId := run.id
  generation := run.generation + 1
  workerId := worker
  launchDeadline := now + seconds timing.launchSeconds
  createdAt := now
  gpuCount := run.spec.resources.gpuCount

def WorkerRow.available (w : WorkerRow) (timing : Timing) (now : Int) : Bool :=
  now - seconds timing.workerSeconds < w.heartbeatAt

def WorkerRow.gpuFresh (w : WorkerRow) (now : Int) : Bool :=
  match w.gpuObservedAt with
  | none => false
  | some observed => now - seconds 30 < observed

def WorkerRow.gpuAvailable (w : WorkerRow) (now : Int) : Bool :=
  w.gpuCapable && w.gpuReady && w.gpuFresh now

/-- The devices that `assign` may reserve: none while discovery is stale. -/
def offeredGpus (now : Int) (w : WorkerRow) (db : Db) : List GpuDeviceRow :=
  if w.gpuAvailable now then freeGpus w.id db else []

/-- The launches of a worker that were not acknowledged yet, oldest first. -/
def pendingLaunches (now : Int) (worker : String) (gpuAvailable : Bool) (db : Db) :
    List AttemptRow :=
  (db.attempts.filter fun a =>
    db.runs.any (fun r => r.activeAttempt = some a.id) && a.workerId = worker &&
      a.status = .starting && a.runtimeId.isNone && now < a.launchDeadline &&
      (a.gpuCount = 0 || gpuAvailable)).insertionSort fun a b => a.createdAt ≤ b.createdAt

@[simps] def RunRow.activate (r : RunRow) (attempt : AttemptRow) : RunRow :=
  { r with
    status := .starting
    activeAttempt := some attempt.id
    generation := attempt.generation }

/-- What both schedulers write when they give `run` its next attempt. -/
def activate (timing : Timing) (now : Int) (attempt : RandomId) (worker : String)
    (run : RunRow) (detail : String) (db : Db) : Result Db := do
  let row := newAttempt timing now attempt worker run
  let db ← db.insertAttempt row
  let db := db.updateRun run.id fun r => r.activate row
  event now run.id .assigned detail db

def assign (timing : Timing) (now : Int) (attempt : RandomId) (locked : List String)
    (id session : String) (db : Db) : Result (Db × Option Assignment) := do
  let worker ← requireWorker id session db
  if !worker.available timing now then return (db, none)
  else match pendingLaunches now id (worker.gpuAvailable now) db with
  | a :: _ =>
    match db.run? a.runId with
    | none => .error .outOfRange
    | some r => return (db, some ⟨a, loadGpuAllocations a.id db, r.spec⟩)
  | [] =>
    if worker.drained then return (db, none)
    else
      let cpu := worker.cpuMillis - db.reserved id (·.cpuMillis)
      let memory := worker.memoryMib - db.reserved id (·.memoryMib)
      let devices := offeredGpus now worker db
      match nextQueued now locked (fitsWorker devices.length cpu memory) db with
      | none => return (db, none)
      | some run => do
        let detail := "attempt " ++ toString (run.generation + 1) ++ " assigned to " ++ id
        let db ← activate timing now attempt id run detail db
        let db ← reserveGpus now attempt.text run.spec.resources.gpuCount.toNat devices db
        return (db, some ⟨newAttempt timing now attempt id run,
          loadGpuAllocations attempt.text db, run.spec⟩)

/-! ## Runtime reports, cleanup and reconciliation -/

@[simps] def AttemptRow.launch (a : AttemptRow) (runtime : String) : AttemptRow :=
  { a with runtimeId := some runtime }

@[simps] def AttemptRow.clean (a : AttemptRow) : AttemptRow := { a with cleanupStatus := .done }

@[simps] def AttemptGpuRow.release (g : AttemptGpuRow) (now : Int) : AttemptGpuRow :=
  { g with releasedAt := some now }

def releaseGpus (now : Int) (attempt : String) (rows : List AttemptGpuRow) : List AttemptGpuRow :=
  Table.update (fun g => g.attemptId = attempt && g.releasedAt.isNone) (fun g => g.release now) rows

def runtimeReport (now : Int) (worker session id runtime : String) (stopped : Bool)
    (db : Db) : Result Db := do
  let _ ← requireWorker worker session db
  let a ← lockAttempt now id db
  throwIf (a.attempt.workerId ≠ worker) .unauthorized "attempt belongs to another worker"
  if stopped then do
    throwIf a.attempt.status.live .conflict "attempt is still active"
    let db := db.updateAttempt id fun row => row.clean
    return { db with attemptGpus := releaseGpus now id db.attemptGpus }
  else return db.updateAttempt id fun row => row.launch runtime

/-- A finished attempt of the worker whose container may still exist. -/
def AttemptRow.cleanable (a : AttemptRow) (worker : String) : Bool :=
  a.workerId = worker && a.cleanupStatus = .pending && !a.status.live

def cleanup (worker session : String) (db : Db) : Result (List AttemptRow) := do
  let _ ← requireWorker worker session db
  return db.attempts.filter fun a => a.cleanable worker

/-- What `reconcile` decides about one observed container. -/
def reconcileOne (worker id : String) (db : Db) : Result Bool :=
  match db.attempt? id with
  | none => .ok true
  | some a =>
    match db.run? a.runId with
    | none => .ok true
    | some r => do
      throwIf (a.workerId ≠ worker) .unauthorized "inventory contains another worker's attempt"
      return text r.activeAttempt ≠ id || !a.status.live

def reconcileAll (worker : String) : List String → Db → Result (List String)
  | [], _ => .ok []
  | id :: rest, db => do
    let stop ← reconcileOne worker id db
    let others ← reconcileAll worker rest db
    return if stop then id :: others else others

def reconcile (worker session : String) (observed : List String) (db : Db) :
    Result (List String) := do
  throwIf (1000 < observed.length) .invalid "inventory exceeds 1000 containers"
  let _ ← requireWorker worker session db
  reconcileAll worker observed db

end Runyard
