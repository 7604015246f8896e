import Runyard.Cursor
import Runyard.Store.Workers
import Mathlib.Data.String.Basic

/-!
# Capacity views

The reading transactions of `workers.cpp`, `gpus.cpp` and `capacity.cpp` behind the capacity
pages. A transaction sees the database at one instant and reads the clock once.
-/

namespace Runyard

structure Worker where
  id : String
  session : String
  capacity : Resources
  reserved : Resources
  drained : Bool
  available : Bool
  heartbeatAt : Int
  engineId : String
  gpuReady : Bool
  gpuFresh : Bool
  gpuObservedAt : Option Int
  gpuDevices : List GpuDevice := []
  gpuCapable : Bool
  availableGpus : Int := 0

/-- Pages after the empty text begin with the first row. -/
theorem empty_lt {id : String} (named : id ≠ "") : "" < id := by
  rw [String.lt_iff_toList_lt]
  obtain ⟨c, rest, hid⟩ := List.exists_cons_of_ne_nil (mt String.toList_eq_nil_iff.mp named)
  rw [hid]
  exact List.nil_lt_cons c rest

/-- The columns of the query in `workers`. -/
def WorkerRow.worker (w : WorkerRow) (timing : Timing) (now : Int) (db : Db) : Worker where
  id := w.id
  session := w.session
  capacity := ⟨w.cpuMillis, w.memoryMib, 0⟩
  reserved := ⟨db.reserved w.id (·.cpuMillis), db.reserved w.id (·.memoryMib), 0⟩
  drained := w.drained
  available := w.available timing now
  heartbeatAt := w.heartbeatAt
  engineId := w.engineId
  gpuReady := w.gpuReady && w.gpuCapable
  gpuFresh := w.gpuFresh now
  gpuObservedAt := w.gpuObservedAt
  gpuCapable := w.gpuCapable

/-- The unreleased allocations that join an attempt of the worker. -/
def Ledger.heldBy (l : Ledger) (worker : String) (g : AttemptGpuRow) : Bool :=
  (l.attempts.any fun a => a.id = g.attemptId && a.workerId = worker) && g.releasedAt.isNone

def loadWorkerGpus (worker : Worker) (db : Db) : Worker :=
  let rows := (db.gpuDevices.filter fun d => d.workerId = worker.id && d.present).insertionSort
    fun d e => d.uuid ≤ e.uuid
  let capacity := rows.countP (·.eligible)
  let free := db.gpuDevices.countP fun d =>
    d.workerId = worker.id && d.present && d.eligible && !db.allocated d.uuid
  let reserved := db.attemptGpus.countP fun g => db.heldBy worker.id g
  { worker with
    gpuDevices := rows.map (·.device)
    capacity := { worker.capacity with gpuCount := worker.capacity.gpuCount + capacity }
    availableGpus := if worker.gpuReady && worker.gpuFresh && worker.available && !worker.drained
      then free else worker.availableGpus
    reserved := { worker.reserved with gpuCount := reserved } }

/-- `WHERE w.id>$2 ORDER BY w.id LIMIT $3`. -/
def workers (timing : Timing) (now limit : Int) (after : String) (db : Db) : List Worker :=
  let rows := db.workers.insertionSort fun v w => v.id ≤ w.id
  (Cursor.page (·.id) after (max 1 (min limit 200)).toNat rows).map fun w =>
    loadWorkerGpus (w.worker timing now db) db

structure GpuCapacityTotals where
  capacity : Int := 0
  allocatable : Int := 0
  reserved : Int := 0
  available : Int := 0
  pending : Int := 0
  fresh : Bool := false
  observedAt : Option Int := none
  ageSeconds : Option Int := none
  deriving DecidableEq

def gpuCapacity (timing : Timing) (now : Int) (db : Db) : GpuCapacityTotals :=
  let capable := db.workers.filter (·.gpuCapable)
  let capacity := db.gpuDevices.countP fun d => d.present && d.eligible
  let observed := (capable.filterMap (·.gpuObservedAt)).min?
  { capacity := capacity
    allocatable := capacity
    reserved := db.attemptGpus.countP (·.releasedAt.isNone)
    available := db.gpuDevices.countP fun d =>
      (db.workers.any fun w => w.id = d.workerId && (w.gpuCapable && w.gpuReady && !w.drained &&
        w.available timing now && w.gpuFresh now)) &&
      d.present && d.eligible && !db.allocated d.uuid
    pending := ((db.runs.filter fun r => r.status = .queued || r.status = .retryWait).map
      (·.gpuCount)).sum
    fresh := capable.all fun w => w.gpuReady && w.gpuFresh now
    observedAt := observed
    ageSeconds := observed.map fun t => (now - t) / seconds 1 }

end Runyard
