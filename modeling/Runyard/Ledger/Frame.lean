import Runyard.Ledger.WellFormed

/-!
# What the transactions on runs leave alone

Most transactions rewrite runs and attempts and append events and reservations. A view of the
database that shows nothing of this, and of runs only the columns of their `birth`, is the same
after each of them.
-/

namespace Runyard

/-- The columns of a run that stay as they were inserted. -/
structure Birth where
  id : String
  spec : RunSpec
  sweepId : Option String
  createdAt : Int

def RunRow.birth (r : RunRow) : Birth := ⟨r.id, r.spec, r.sweepId, r.createdAt⟩

def Db.births (db : Db) : List Birth := db.runs.map (·.birth)

namespace Op

/-- The transaction may insert into a table outside the ledger. -/
def writesAside : Op → Bool
  | .submit .. | .submitSweep .. | .rerun .. | .report .. | .publishArtifact .. => true
  | _ => false

/-- The transaction writes the row of a worker. -/
def writesWorkers : Op → Bool
  | .registerWorker .. | .workerHeartbeat .. | .drainWorker .. | .reportGpuInventory .. => true
  | _ => false

end Op

/-- The view shows nothing that the transactions on runs write. -/
structure Db.Frame {α : Type} (view : Db → α) : Prop where
  runs : ∀ (db : Db) (runs : List RunRow), runs.map (·.birth) = db.births →
    view { db with runs := runs } = view db
  attempts : ∀ (db : Db) (rows : List AttemptRow), view { db with attempts := rows } = view db
  events : ∀ (db : Db) (rows : List EventRow), view { db with events := rows } = view db
  attemptGpus : ∀ (db : Db) (rows : List AttemptGpuRow),
    view { db with attemptGpus := rows } = view db

namespace Db.Frame

section Primitives

variable {α : Type} {view : Db → α} {db db' : Db} {now : Int} {id : String}

theorem updateRun (frame : Db.Frame view) {f : RunRow → RunRow}
    (keeps : ∀ r, (f r).birth = r.birth) : view (db.updateRun id f) = view db :=
  frame.runs db _ (Table.map_update (·.birth) (fun r _ => keeps r) db.runs)

theorem updateAttempt (frame : Db.Frame view) (f : AttemptRow → AttemptRow) :
    view (db.updateAttempt id f) = view db :=
  frame.attempts db _

theorem insertAttempt (frame : Db.Frame view) {row : AttemptRow}
    (h : db.insertAttempt row = .ok db') : view db' = view db := by
  obtain ⟨_, rfl⟩ := insertAttempt_ok h
  exact frame.attempts db _

theorem insertAttemptGpu (frame : Db.Frame view) {row : AttemptGpuRow}
    (h : db.insertAttemptGpu row = .ok db') : view db' = view db := by
  rw [Db.insertAttemptGpu] at h
  split at h
  · cases h
  split at h
  · cases h
  · cases h
    exact frame.attemptGpus db _

theorem event (frame : Db.Frame view) {kind : EventKind} {detail : String}
    (h : event now id kind detail db = .ok db') : view db' = view db := by
  obtain ⟨r, _, rfl⟩ := event_ok h
  refine (frame.events { db with runs := _ } _).trans (frame.runs db _ ?_)
  exact Table.map_update (p := fun r => r.id = id) (f := fun r => r.count now) (·.birth)
    (by intro r _; rfl) db.runs

theorem fail (frame : Db.Frame view) {timing : Timing} {a : LockedAttempt} {failure : Failure}
    {reason : String} {exitCode : Option Int}
    (h : fail timing now a failure reason exitCode db = .ok db') : view db' = view db := by
  simp only [Runyard.fail] at h
  rw [frame.event h, frame.updateRun (by intro r; rfl), frame.updateAttempt]

theorem activate (frame : Db.Frame view) {timing : Timing} {attempt : RandomId}
    {worker detail : String} {r : RunRow}
    (h : activate timing now attempt worker r detail db = .ok db') : view db' = view db := by
  simp only [Runyard.activate, Result.bind_ok] at h
  obtain ⟨db₁, hinsert, hevent⟩ := h
  rw [frame.event hevent, frame.updateRun (by intro r; rfl), frame.insertAttempt hinsert]

theorem reserveGpus (frame : Db.Frame view) {attempt : String} {count : Nat}
    {devices : List GpuDeviceRow} (h : reserveGpus now attempt count devices db = .ok db') :
    view db' = view db := by
  induction count generalizing devices db with
  | zero =>
    cases h
    rfl
  | succ count ih =>
    cases devices with
    | nil => cases h
    | cons device rest =>
      obtain ⟨db₁, hinsert, hrest⟩ := Result.bind_ok.mp h
      exact (ih hrest).trans (frame.insertAttemptGpu hinsert)

theorem requeueEvents (frame : Db.Frame view) {rows : List RunRow}
    (h : requeueEvents now rows db = .ok db') : view db' = view db := by
  induction rows generalizing db with
  | nil =>
    cases h
    rfl
  | cons row rest ih =>
    obtain ⟨db₁, hevent, hrest⟩ := Result.bind_ok.mp h
    exact (ih hrest).trans (frame.event hevent)

end Primitives

section Operations

variable {α : Type} {view : Db → α} {p : PostgresStore} {db db' : Db} {now : Int} {id : String}

theorem assign (frame : Db.Frame view) {timing : Timing} {attempt : RandomId}
    {locked : List String} {session : String} {x : Option Assignment}
    (h : assign timing now attempt locked id session db = .ok (db', x)) : view db' = view db := by
  simp only [Runyard.assign, Result.bind_ok] at h
  obtain ⟨_, _, h⟩ := h
  split at h
  · cases h
    rfl
  split at h
  · split at h
    · cases h
    · cases h
      rfl
  split at h
  · cases h
    rfl
  split at h
  · cases h
    rfl
  · simp only [Result.bind_ok, Result.pure_ok, Prod.mk.injEq] at h
    obtain ⟨db₁, hactivate, db₂, hreserve, rfl, _⟩ := h
    rw [frame.reserveGpus hreserve, frame.activate hactivate]

theorem admitKubernetes (frame : Db.Frame view) {timing : Timing} {attempt : RandomId}
    {locked : List String} {maxActive : Nat} {x : Option Assignment}
    (h : admitKubernetes timing now attempt locked maxActive db = .ok (db', x)) :
    view db' = view db := by
  simp only [Runyard.admitKubernetes, Result.bind_ok] at h
  obtain ⟨_, _, h⟩ := h
  split at h
  · cases h
    rfl
  split at h
  · cases h
    rfl
  · simp only [Result.bind_ok, Result.pure_ok, Prod.mk.injEq] at h
    obtain ⟨db₁, hactivate, rfl, _⟩ := h
    exact frame.activate hactivate

theorem finish (frame : Db.Frame view) {timing : Timing} {generation exitCode : Int}
    {finalSequence : Int} {caller reason : String}
    (h : finish timing now id generation caller exitCode reason finalSequence db = .ok db') :
    view db' = view db := by
  obtain ⟨_, _, h⟩ := Result.bind_ok.mp h
  split at h
  · cases h
    rfl
  simp only [Result.bind_ok] at h
  obtain ⟨_, _, _, _, _, _, h⟩ := h
  split at h
  · rw [frame.event h, frame.updateRun (by intro r; rfl), frame.updateAttempt]
  · exact frame.fail h

theorem recoverAttempt (frame : Db.Frame view) {timing : Timing}
    (h : recoverAttempt timing now id db = .ok db') : view db' = view db := by
  obtain ⟨_, _, h⟩ := Result.bind_ok.mp h
  split at h
  · cases h
    rfl
  split at h
  · exact frame.fail h
  split at h
  · exact frame.fail h
  split at h
  · exact frame.fail h
  split at h
  · exact frame.fail h
  · cases h
    rfl

theorem recoverRequeue (frame : Db.Frame view) (h : recoverRequeue now db = .ok db') :
    view db' = view db := by
  rw [frame.requeueEvents h]
  exact frame.runs db _ (Table.map_update (·.birth) (by intro r _; rfl) db.runs)

theorem kubernetesStopped (frame : Db.Frame view) {timing : Timing}
    (h : kubernetesStopped timing now id db = .ok db') : view db' = view db := by
  simp only [Runyard.kubernetesStopped, Result.bind_ok] at h
  obtain ⟨_, _, _, _, h⟩ := h
  split at h
  · split at h
    · exact frame.fail h
    · exact frame.fail h
  · cases h
    rfl

theorem cancel (frame : Db.Frame view) {r : RunRow} (h : cancel now id db = .ok (db', r)) :
    view db' = view db := by
  rw [Runyard.cancel] at h
  split at h
  · cases h
  split at h
  · cases h
    rfl
  · simp only [Result.bind_ok, Result.pure_ok, Prod.mk.injEq] at h
    obtain ⟨db₁, hevent, rfl, _⟩ := h
    rw [frame.event hevent, frame.updateRun (by intro r; rfl)]
    exact frame.attempts db _

theorem start (frame : Db.Frame view) {timing : Timing} {generation : Int}
    {caller nodeName : String} {x : Assignment}
    (h : start timing now id generation caller nodeName db = .ok (db', x)) :
    view db' = view db := by
  simp only [Runyard.start, Result.bind_ok] at h
  obtain ⟨_, _, _, _, _, _, _, _, _, _, _, _, h⟩ := h
  split at h
  · simp only [Result.bind_ok, Result.pure_ok, Prod.mk.injEq] at h
    obtain ⟨_, _, rfl, _⟩ := h
    rfl
  · simp only [Result.bind_ok, Result.pure_ok, Prod.mk.injEq] at h
    obtain ⟨_, _, db₁, hevent, rfl, _⟩ := h
    rw [frame.event hevent, frame.updateRun (by intro r; rfl), frame.updateAttempt]

/-- A transaction that writes neither outside the ledger nor to a worker keeps the view. -/
theorem apply (frame : Db.Frame view) {op : Op} (inside : op.writesAside = false)
    (worker : op.writesWorkers = false) (h : p.apply now op db = .ok db') :
    view db' = view db := by
  cases op with
  | submit | submitSweep | rerun | report | publishArtifact => cases inside
  | registerWorker | workerHeartbeat | drainWorker | reportGpuInventory => cases worker
  | assign =>
    obtain ⟨⟨db₁, x⟩, hcall, rfl⟩ := Result.map_ok.mp h
    exact frame.assign hcall
  | runtimeReport =>
    simp only [PostgresStore.apply, runtimeReport, Result.bind_ok] at h
    obtain ⟨_, _, _, _, _, _, h⟩ := h
    split at h
    · obtain ⟨_, _, h⟩ := Result.bind_ok.mp h
      cases h
      exact (frame.attemptGpus { db with attempts := _ } _).trans (frame.attempts db _)
    · cases h
      exact frame.updateAttempt _
  | admitKubernetes =>
    obtain ⟨⟨db₁, x⟩, hcall, rfl⟩ := Result.map_ok.mp h
    exact frame.admitKubernetes hcall
  | kubernetesStopped => exact frame.kubernetesStopped h
  | kubernetesRuntime =>
    simp only [PostgresStore.apply, kubernetesRuntime, Result.bind_ok] at h
    obtain ⟨_, _, _, _, h⟩ := h
    split at h
    · obtain ⟨_, _, h⟩ := Result.bind_ok.mp h
      cases h
      exact frame.updateAttempt _
    · cases h
      exact frame.updateAttempt _
  | start =>
    obtain ⟨⟨db₁, x⟩, hcall, rfl⟩ := Result.map_ok.mp h
    exact frame.start hcall
  | heartbeat =>
    obtain ⟨_, _, h⟩ := Result.bind_ok.mp h
    cases h
    exact frame.updateAttempt _
  | verifyOwner =>
    obtain ⟨_, _, h⟩ := Result.bind_ok.mp h
    cases h
    rfl
  | beginFinalization =>
    obtain ⟨_, _, h⟩ := Result.bind_ok.mp h
    split at h
    · rw [frame.event h, frame.updateRun (by intro r; rfl), frame.updateAttempt]
    · cases h
      rfl
  | finish => exact frame.finish h
  | cancel =>
    obtain ⟨⟨db₁, x⟩, hcall, rfl⟩ := Result.map_ok.mp h
    exact frame.cancel hcall
  | recoverRequeue => exact frame.recoverRequeue h
  | recoverAttempt => exact frame.recoverAttempt h

end Operations

end Db.Frame

end Runyard
