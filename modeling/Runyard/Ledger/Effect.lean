import Runyard.Store.Operations

/-!
# The effects of transactions

`Effect p now l op l'` lists everything that a committed transaction `op` can do to the
ledger: the guards it passed and the rows it wrote. `Move` does this for the transactions that
act on one attempt and its run, and `Cause` for those that fail it. Invariants are derived from
these relations; the functions of the store are unfolded only where they are shown to
have these effects.
-/

namespace Runyard

namespace Journal

/-- Keys are unique, references resolve, and no stored identity is the empty string. -/
structure WellFormed (j : Journal) : Prop where
  runs : Table.Keyed (·.id) j.runs
  attempts : Table.Keyed (·.id) j.attempts
  attemptRun : ∀ a ∈ j.attempts, ∃ r ∈ j.runs, r.id = a.runId
  eventRun : ∀ e ∈ j.events, ∃ r ∈ j.runs, r.id = e.runId
  named : ∀ a ∈ j.attempts, a.id ≠ ""
  claimed : ∀ a ∈ j.attempts, a.instanceId ≠ some ""

/-- Rewrite one run and one of its attempts and append events. -/
def put (j : Journal) (run : RunRow) (attempt : AttemptRow) (events : List EventRow) : Journal where
  runs := Table.replace (·.id) run j.runs
  attempts := Table.replace (·.id) attempt j.attempts
  events := j.events ++ events

/-- The run gets a next attempt. -/
def place (j : Journal) (run : RunRow) (attempt : AttemptRow) (event : EventRow) : Journal where
  runs := Table.replace (·.id) run j.runs
  attempts := j.attempts ++ [attempt]
  events := j.events ++ [event]

end Journal

def RunRow.eventRow (r : RunRow) (now : Int) (kind : EventKind) (detail : String) : EventRow :=
  ⟨r.id, r.eventSequence + 1, kind, detail, now⟩

/-- The caller owns the attempt, and its lease and the deadline of its phase are unexpired. -/
structure Owned (now : Int) (caller : String) (r : RunRow) (a : AttemptRow) : Prop where
  active : r.activeAttempt = some a.id
  instanceId : a.instanceId = some caller
  lease : a.leaseValid now
  deadline : a.deadlineValid now
  status : r.status = .running ∨ r.status = .finalizing

/-- Why a transaction fails the active attempt, with the reason and exit code it records. -/
inductive Cause (now : Int) (r : RunRow) (a : AttemptRow) :
    Op → Failure → String → Option Int → Prop where
  | reported {caller reason : String} {exitCode finalSequence : Int} (owned : Owned now caller r a)
      (synced : a.ackSequence = finalSequence) (nonzero : exitCode ≠ 0) :
      Cause now r a (.finish a.id r.generation caller exitCode reason finalSequence)
        (reportedFailure reason) (if reason = "" then "EXIT_ERROR" else reason) (some exitCode)
  | launchTimeout (starting : r.status = .starting) (late : a.launchDeadline ≤ now) :
      Cause now r a (.recoverAttempt a.id) .infrastructure "LAUNCH_TIMEOUT" none
  | timeout (running : r.status = .running) (late : ¬ a.deadlineValid now) :
      Cause now r a (.recoverAttempt a.id) .timeout "TIMEOUT" none
  | finalizationTimeout (finalizing : r.status = .finalizing) (late : ¬ a.deadlineValid now) :
      Cause now r a (.recoverAttempt a.id) .infrastructure "FINALIZATION_TIMEOUT" none
  | leaseExpired (status : r.status = .running ∨ r.status = .finalizing)
      (late : ¬ a.leaseValid now) :
      Cause now r a (.recoverAttempt a.id) .infrastructure "LEASE_EXPIRED" none
  | stoppedLate (live : a.status.live) (running : r.status = .running)
      (late : ¬ a.deadlineValid now) :
      Cause now r a (.kubernetesStopped a.id) .timeout "TIMEOUT" none
  | stopped (live : a.status.live) :
      Cause now r a (.kubernetesStopped a.id) .infrastructure "RUNTIME_STOPPED" none

/-- What a transaction writes that acts on one attempt `a` of the run `r`. -/
inductive Move (timing : Timing) (now : Int) (r : RunRow) (a : AttemptRow) :
    Op → RunRow → AttemptRow → List EventRow → Prop where
  | claimed {caller nodeName : String} (active : r.activeAttempt = some a.id)
      (starting : r.status = .starting) (unclaimed : a.instanceId = none)
      (nonempty : caller ≠ "") (inTime : now < a.launchDeadline) :
      Move timing now r a (.start a.id r.generation caller nodeName)
        ((r.enter .running).count now)
        (a.claim now caller nodeName (seconds timing.leaseSeconds) (seconds r.spec.timeoutSeconds))
        [r.eventRow now .started "runner claimed execution"]
  | renewed {caller : String} (owned : Owned now caller r a) :
      Move timing now r a (.heartbeat a.id r.generation caller) r
        (a.renew (now + seconds timing.leaseSeconds)) []
  | acknowledged {caller : String} {records : List Telemetry} {sequence : Int}
      (owned : Owned now caller r a) :
      Move timing now r a (.report a.id r.generation caller records) r (a.acknowledge sequence) []
  | finalizing {caller : String} (owned : Owned now caller r a) (running : r.status = .running) :
      Move timing now r a (.beginFinalization a.id r.generation caller)
        ((r.enter .finalizing).count now) (a.finalize (now + seconds timing.finalizationSeconds))
        [r.eventRow now .finalizing "collecting execution outputs"]
  | completed {caller reason : String} {finalSequence : Int} (owned : Owned now caller r a)
      (synced : a.ackSequence = finalSequence) (finalizing : r.status = .finalizing) :
      Move timing now r a (.finish a.id r.generation caller 0 reason finalSequence)
        ((r.enter .succeeded).count now) (a.succeed now reason)
        [r.eventRow now .completed "SUCCEEDED"]
  | failed {op : Op} {failure : Failure} {reason : String} {exitCode : Option Int} {retry : Bool}
      {delay : Int} (active : r.activeAttempt = some a.id)
      (cause : Cause now r a op failure reason exitCode)
      (decision : retry = shouldRetry r.spec.retry a.generation failure)
      (waits : delay = retryDelay a.generation timing.retryBaseSeconds timing.retryMaxSeconds) :
      Move timing now r a op
        ((r.delay (if retry then .retryWait else .failed) (now + seconds delay)).count now)
        (a.fail now reason exitCode)
        [r.eventRow now (if retry then .retryScheduled else .failed) reason]
  | launched {session runtime : String} :
      Move timing now r a (.runtimeReport a.workerId session a.id runtime false) r
        (a.launch runtime) []
  | jobLaunched {runtime : String} (kubernetes : a.workerId = kubernetesWorker) :
      Move timing now r a (.kubernetesRuntime a.id runtime false) r (a.launch runtime) []

/-- A run that was just submitted, with its first event counted. -/
structure RunRow.Fresh (now : Int) (r : RunRow) : Prop where
  valid : validateSubmission r.spec = .ok ()
  status : r.status = .queued
  generation : r.generation = 0
  activeAttempt : r.activeAttempt = none
  eventSequence : r.eventSequence = 1
  cpuMillis : r.cpuMillis = r.spec.resources.cpuMillis
  memoryMib : r.memoryMib = r.spec.resources.memoryMib
  gpuCount : r.gpuCount = r.spec.resources.gpuCount

/-- A scheduler's candidate. -/
structure Chosen (now : Int) (l : Ledger) (r : RunRow) (attempt : RandomId) : Prop where
  run : l.run? r.id = some r
  queued : r.status = .queued
  available : r.availableAt ≤ now
  fresh : ∀ a ∈ l.attempts, a.id ≠ attempt.text

/-- What `upsertDevices` keeps and adds. -/
structure Discovered (before after : List GpuDeviceRow) : Prop where
  keyed : Table.Keyed (·.uuid) before → Table.Keyed (·.uuid) after
  kept : ∀ d ∈ before, ∃ d' ∈ after, d'.uuid = d.uuid ∧ d'.workerId = d.workerId

namespace Ledger

structure WellFormed (l : Ledger) : Prop extends Journal.WellFormed l.toJournal where
  workers : Table.Keyed (·.id) l.workers
  devices : Table.Keyed (·.uuid) l.gpuDevices

def placed (l : Ledger) (timing : Timing) (now : Int) (attempt : RandomId) (worker : String)
    (r : RunRow) (detail : String) : Ledger :=
  let row := newAttempt timing now attempt worker r
  { l with toJournal :=
      l.place ((r.activate row).count now) row (r.eventRow now .assigned detail) }

end Ledger

/-- The reservations that `reserveGpus` writes. -/
def reservations (now : Int) (attempt : String) (devices : List GpuDeviceRow) :
    List AttemptGpuRow :=
  devices.map fun d => ⟨attempt, d.uuid, d.name, d.memoryMib, now, none⟩

def requeuedRuns (now : Int) (runs : List RunRow) : List RunRow :=
  Table.update (retryDue now) (fun r => (r.enter .queued).count now) runs

def requeuedEvents (now : Int) (runs : List RunRow) : List EventRow :=
  (runs.filter (retryDue now)).map fun r => r.eventRow now .requeued "retry delay elapsed"

/-- What a committed transaction does to the ledger. -/
inductive Effect (p : PostgresStore) (now : Int) (l : Ledger) : Op → Ledger → Prop where
  | same {op : Op} : Effect p now l op l
  | submitted {op : Op} {rows : List RunRow} {detail : String}
      (fresh : ∀ r ∈ rows, r.Fresh now) (keyed : Table.Keyed (·.id) (l.runs ++ rows)) :
      Effect p now l op { l with
        runs := l.runs ++ rows
        events := l.events ++ rows.map fun r => ⟨r.id, 1, .submitted, detail, now⟩ }
  | moved {op : Op} {r r' : RunRow} {a a' : AttemptRow} {events : List EventRow}
      (attempt : l.attempt? a.id = some a) (run : l.run? a.runId = some r)
      (move : Move p.timing now r a op r' a' events) :
      Effect p now l op { l with toJournal := l.put r' a' events }
  | assigned {attempt : RandomId} {locked : List String} {session detail : String}
      {w : WorkerRow} {r : RunRow} {devices : List GpuDeviceRow}
      (worker : l.worker? w.id = some w) (undrained : ¬ w.drained)
      (chosen : Chosen now l r attempt)
      (cpu : r.cpuMillis ≤ w.cpuMillis - l.reserved w.id (·.cpuMillis))
      (memory : r.memoryMib ≤ w.memoryMib - l.reserved w.id (·.memoryMib))
      (count : devices.length = r.spec.resources.gpuCount.toNat)
      (distinct : (devices.map (·.uuid)).Nodup)
      (free : ∀ d ∈ devices, d ∈ l.gpuDevices ∧ d.workerId = w.id ∧ ¬ l.allocated d.uuid) :
      Effect p now l (.assign attempt locked w.id session)
        { l.placed p.timing now attempt w.id r detail with
          attemptGpus := l.attemptGpus ++ reservations now attempt.text devices }
  | admitted {attempt : RandomId} {locked : List String} {maxActive : Nat} {detail : String}
      {r : RunRow} (room : l.admitted.length < maxActive) (chosen : Chosen now l r attempt) :
      Effect p now l (.admitKubernetes attempt locked maxActive)
        (l.placed p.timing now attempt kubernetesWorker r detail)
  | stopped {worker session runtime : String} {a : AttemptRow}
      (registered : ∃ w, l.worker? worker = some w)
      (attempt : l.attempt? a.id = some a) (owner : a.workerId = worker)
      (finished : ¬ a.status.live) :
      Effect p now l (.runtimeReport worker session a.id runtime true) { l with
        attempts := Table.replace (·.id) a.clean l.attempts
        attemptGpus := releaseGpus now a.id l.attemptGpus }
  | removed {runtime : String} {a : AttemptRow} (attempt : l.attempt? a.id = some a)
      (owner : a.workerId = kubernetesWorker) (finished : ¬ a.status.live) :
      Effect p now l (.kubernetesRuntime a.id runtime true) { l with
        attempts := Table.replace (·.id) a.clean l.attempts }
  | cancelled {r : RunRow} (run : l.run? r.id = some r) (unfinished : ¬ r.status.terminal) :
      Effect p now l (.cancel r.id) { l with
        runs := Table.replace (·.id) ((r.enter .cancelled).count now) l.runs
        attempts := Table.update (fun a => a.runId = r.id && a.status.live)
          (fun a => a.cancel now) l.attempts
        events := l.events ++
          [r.eventRow now .cancelled "results fenced; remote cleanup may still be pending"] }
  | requeued :
      Effect p now l .recoverRequeue { l with
        runs := requeuedRuns now l.runs
        events := l.events ++ requeuedEvents now l.runs }
  | registered {id session : String} {capacity : Capacity} {gpu : GpuRegistration}
      (docker : ¬ startsWith id "@")
      (positive : 0 < capacity.cpuMillis ∧ 0 < capacity.memoryMib)
      (unknown : l.worker? id = none) :
      Effect p now l (.registerWorker id session capacity gpu) { l with
        workers := l.workers ++ [newWorker now id session capacity gpu] }
  | reregistered {session : String} {capacity : Capacity} {gpu : GpuRegistration} {w : WorkerRow}
      (known : l.worker? w.id = some w) :
      Effect p now l (.registerWorker w.id session capacity gpu) { l with
        workers := Table.replace (·.id) (w.reregister now session capacity gpu) l.workers }
  | marked {op : Op} {w w' : WorkerRow} (known : l.worker? w.id = some w) (id : w'.id = w.id)
      (cpu : w'.cpuMillis = w.cpuMillis) (memory : w'.memoryMib = w.memoryMib) :
      Effect p now l op { l with workers := Table.replace (·.id) w' l.workers }
  | discovered {op : Op} {w w' : WorkerRow} {devices : List GpuDeviceRow}
      (known : l.worker? w.id = some w) (id : w'.id = w.id)
      (cpu : w'.cpuMillis = w.cpuMillis) (memory : w'.memoryMib = w.memoryMib)
      (found : Discovered l.gpuDevices devices) :
      Effect p now l op { l with
        workers := Table.replace (·.id) w' l.workers
        gpuDevices := devices }

end Runyard
