import Runyard.System
import Runyard.Store.Outputs
import Runyard.Store.Kubernetes

/-!
# The store as a transition system

Every writing transaction of `PostgresStore` is an `Op`. The identifiers that a transaction
draws and the runs that other transactions hold locked are part of it. `recover` is the
transaction that requeues and one transaction for each candidate; any attempt may be a
candidate, which covers every result of its scan. A transaction reads the clock once, and one
that throws is rolled back.
-/

namespace Runyard

inductive Op where
  | submit (randomId : RandomId) (spec : RunSpec) (key fingerprint : String)
  | submitSweep (randomId : Nat → RandomId) (spec : SweepSpec) (runs : List RunSpec)
      (key fingerprint : String)
  | rerun (randomId : RandomId) (id key : String)
  | registerWorker (id session : String) (capacity : Capacity) (gpu : GpuRegistration)
  | workerHeartbeat (id session : String)
  | drainWorker (id : String) (drained : Bool)
  | reportGpuInventory (worker session : String) (snapshot : GpuSnapshot)
  | assign (attempt : RandomId) (locked : List String) (id session : String)
  | runtimeReport (worker session id runtime : String) (stopped : Bool)
  | admitKubernetes (attempt : RandomId) (locked : List String) (maxActive : Nat)
  | kubernetesStopped (id : String)
  | kubernetesRuntime (id runtime : String) (removed : Bool)
  | start (id : String) (generation : Int) (caller nodeName : String)
  | heartbeat (id : String) (generation : Int) (caller : String)
  | report (id : String) (generation : Int) (caller : String) (records : List Telemetry)
  | beginFinalization (id : String) (generation : Int) (caller : String)
  | verifyOwner (id : String) (generation : Int) (caller : String)
  | publishArtifact (value : Artifact) (generation : Int) (caller : String)
  | finish (id : String) (generation : Int) (caller : String) (exitCode : Int) (reason : String)
      (finalSequence : Int)
  | cancel (id : String)
  | recoverRequeue
  | recoverAttempt (id : String)

/-- The attempt whose telemetry the transaction reports. -/
def Op.reports? : Op → Option String
  | .report id _ _ _ => some id
  | _ => none

def Op.publishes : Op → Bool
  | .publishArtifact .. => true
  | _ => false

structure PostgresStore where
  timing : Timing
  sha256 : String → String
  /-- The reading of the clock when the empty database was created. -/
  created : Int

namespace PostgresStore

variable (p : PostgresStore)

def apply (now : Int) : Op → Db → Result Db
  | .submit randomId spec key fingerprint, db =>
    (submit now randomId spec key fingerprint db).map (·.1)
  | .submitSweep randomId spec runs key fingerprint, db =>
    (submitSweep now randomId spec runs key fingerprint db).map (·.1)
  | .rerun randomId id key, db => (rerun now randomId p.sha256 id key db).map (·.1)
  | .registerWorker id session capacity gpu, db => registerWorker now id session capacity gpu db
  | .workerHeartbeat id session, db => workerHeartbeat now id session db
  | .drainWorker id drained, db => drainWorker id drained db
  | .reportGpuInventory worker session snapshot, db =>
    reportGpuInventory now worker session snapshot db
  | .assign attempt locked id session, db =>
    (assign p.timing now attempt locked id session db).map (·.1)
  | .runtimeReport worker session id runtime stopped, db =>
    runtimeReport now worker session id runtime stopped db
  | .admitKubernetes attempt locked maxActive, db =>
    (admitKubernetes p.timing now attempt locked maxActive db).map (·.1)
  | .kubernetesStopped id, db => kubernetesStopped p.timing now id db
  | .kubernetesRuntime id runtime removed, db => kubernetesRuntime now id runtime removed db
  | .start id generation caller nodeName, db =>
    (start p.timing now id generation caller nodeName db).map (·.1)
  | .heartbeat id generation caller, db => heartbeat p.timing now id generation caller db
  | .report id generation caller records, db =>
    (report now id generation caller records db).map (·.1)
  | .beginFinalization id generation caller, db =>
    beginFinalization p.timing now id generation caller db
  | .verifyOwner id generation caller, db => verifyOwner now id generation caller db
  | .publishArtifact value generation caller, db =>
    (publishArtifact now value generation caller db).map (·.1)
  | .finish id generation caller exitCode reason finalSequence, db =>
    finish p.timing now id generation caller exitCode reason finalSequence db
  | .cancel id, db => (cancel now id db).map (·.1)
  | .recoverRequeue, db => recoverRequeue now db
  | .recoverAttempt id, db => recoverAttempt p.timing now id db

/-- The database after the transaction, also when it throws. -/
def commit (now : Int) (op : Op) (db : Db) : Db :=
  match p.apply now op db with
  | .ok db' => db'
  | .error _ => db

theorem commit_cases (now : Int) (op : Op) (db : Db) :
    p.commit now op db = db ∨ p.apply now op db = .ok (p.commit now op db) := by
  unfold commit
  cases h : p.apply now op db with
  | ok db' => exact .inr rfl
  | error e => exact .inl rfl

/-- `verifyOwner` writes nothing. -/
theorem commit_verifyOwner {now : Int} {db : Db} {id caller : String} {generation : Int} :
    p.commit now (.verifyOwner id generation caller) db = db := by
  rcases p.commit_cases now (.verifyOwner id generation caller) db with same | happly
  · exact same
  · obtain ⟨_, _, hreturn⟩ := Result.bind_ok.mp happly
    exact (Result.pure_ok.mp hreturn).symm

structure State where
  db : Db
  clock : Int
  deriving DecidableEq

/-- A transaction and the reading of the clock that it sees. -/
structure Event where
  now : Int
  op : Op

def system : System State Event where
  init := ⟨{}, p.created⟩
  step s e := if s.clock ≤ e.now then some ⟨p.commit e.now e.op s.db, e.now⟩ else none

theorem step_eq {s s' : State} {e : Event} (h : p.system.step s e = some s') :
    s.clock ≤ e.now ∧ s' = ⟨p.commit e.now e.op s.db, e.now⟩ := by
  have hstep : (if s.clock ≤ e.now then some (⟨p.commit e.now e.op s.db, e.now⟩ : State)
      else none) = some s' := h
  by_cases hclock : s.clock ≤ e.now
  · rw [if_pos hclock] at hstep
    exact ⟨hclock, (Option.some.inj hstep).symm⟩
  · rw [if_neg hclock] at hstep
    cases hstep

theorem reachable_commit {s : State} (hs : p.system.Reachable s) {now : Int} (op : Op)
    (hclock : s.clock ≤ now) : p.system.Reachable ⟨p.commit now op s.db, now⟩ := by
  refine hs.step (e := ⟨now, op⟩) ?_
  exact if_pos hclock

end PostgresStore

/-! ## A small run

One worker and one run, for the instances of theorems about reachable states. -/

namespace Sample

def runId : RandomId := ⟨"00000000000000000000000000000001", by decide⟩

def attemptId : RandomId := ⟨"00000000000000000000000000000002", by decide⟩

def spec : RunSpec where
  name := "train"
  image := "registry/train@sha256:" ++
    "0000000000000000000000000000000000000000000000000000000000000000"
  command := ["train"]

def store : PostgresStore := ⟨{}, fun message => message, 0⟩

def submitted : PostgresStore.State :=
  ⟨store.commit 1 (.submit runId spec "key" "fingerprint") {}, 1⟩

def registered : PostgresStore.State :=
  ⟨store.commit 2 (.registerWorker "worker" "session" ⟨4000, 4096⟩ {}) submitted.db, 2⟩

def assigned : PostgresStore.State :=
  ⟨store.commit 3 (.assign attemptId [] "worker" "session") registered.db, 3⟩

def started : PostgresStore.State :=
  ⟨store.commit 4 (.start attemptId.text 1 "runner" "") assigned.db, 4⟩

def expired : PostgresStore.State :=
  ⟨store.commit (seconds 40) (.recoverAttempt attemptId.text) started.db, seconds 40⟩

theorem submitted_reachable : store.system.Reachable submitted :=
  store.reachable_commit System.reachable_init _ (by decide)

theorem registered_reachable : store.system.Reachable registered :=
  store.reachable_commit submitted_reachable _ (by decide)

theorem assigned_reachable : store.system.Reachable assigned :=
  store.reachable_commit registered_reachable _ (by decide)

theorem started_reachable : store.system.Reachable started :=
  store.reachable_commit assigned_reachable _ (by decide)

theorem expired_reachable : store.system.Reachable expired :=
  store.reachable_commit started_reachable _ (by decide)

example : started.db.runs.map (·.status) = [.running] := by decide +kernel

end Sample

end Runyard
