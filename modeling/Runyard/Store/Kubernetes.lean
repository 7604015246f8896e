import Runyard.Store.Workers

/-!
# Kubernetes admission

The store side of the Kubernetes controller: `kubernetes.cpp` under `postgres`. Attempts
that run as Jobs are placed on the reserved worker name `@kubernetes`.
-/

namespace Runyard

def kubernetesWorker : String := "@kubernetes"

/-- The Kubernetes attempts whose Job may still exist. -/
def Journal.admitted (j : Journal) : List AttemptRow :=
  j.attempts.filter fun a => a.workerId = kubernetesWorker && a.cleanupStatus = .pending

def admitKubernetes (timing : Timing) (now : Int) (attempt : RandomId) (locked : List String)
    (maxActive : Nat) (db : Db) : Result (Db × Option Assignment) := do
  throwIf (maxActive < 1 || 100 < maxActive) .invalid "Kubernetes admission limit must be 1..100"
  if maxActive ≤ db.admitted.length then return (db, none)
  else match nextQueued now locked (fun _ => true) db with
  | none => return (db, none)
  | some run => do
    let detail := "attempt " ++ toString (run.generation + 1) ++ " admitted to Kubernetes"
    let db ← activate timing now attempt kubernetesWorker run detail db
    return (db, some ⟨newAttempt timing now attempt kubernetesWorker run, [], run.spec⟩)

def kubernetesAttempts (db : Db) : List AttemptRow :=
  db.admitted.insertionSort fun a b => a.createdAt ≤ b.createdAt

def kubernetesStopped (timing : Timing) (now : Int) (id : String) (db : Db) : Result Db := do
  let a ← lockAttempt now id db
  throwIf (a.attempt.workerId ≠ kubernetesWorker) .invalid
    "attempt does not belong to Kubernetes"
  if text a.run.activeAttempt = id && a.attempt.status.live then
    if a.run.status = .running && !a.deadlineValid then
      fail timing now a .timeout "TIMEOUT" none db
    else fail timing now a .infrastructure "RUNTIME_STOPPED" none db
  else return db

def kubernetesRuntime (now : Int) (id runtime : String) (removed : Bool) (db : Db) :
    Result Db := do
  let a ← lockAttempt now id db
  throwIf (a.attempt.workerId ≠ kubernetesWorker) .invalid
    "attempt does not belong to Kubernetes"
  if removed then do
    throwIf a.attempt.status.live .conflict "attempt remains active"
    return db.updateAttempt id fun row => row.clean
  else return db.updateAttempt id fun row => row.launch runtime

end Runyard
