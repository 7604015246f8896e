import Runyard.Ledger.Aside

/-!
# Telemetry records

Only `report` writes the telemetry table and the acknowledged sequence of an attempt.
-/

namespace Runyard

/-- The telemetry of one attempt in the order of its insertion. -/
def Db.recordsOf (db : Db) (id : String) : List Telemetry :=
  (db.telemetry.filter fun row => row.attemptId = id).map (·.record)

section Operations

variable {p : PostgresStore} {db db' : Db} {now : Int} {id : String}

/-- A batch for another attempt adds no record to this one. -/
theorem insertRecords_other {other : String} (hne : other ≠ id) {records : List Telemetry}
    {sequence next : Int} (h : insertRecords other records sequence db = .ok (db', next)) :
    db'.recordsOf id = db.recordsOf id := by
  induction records generalizing sequence db with
  | nil =>
    cases h
    rfl
  | cons r rest ih =>
    rw [insertRecords] at h
    split at h
    · exact ih h
    split at h
    · cases h
      rfl
    · obtain ⟨db₁, hinsert, hrest⟩ := Result.bind_ok.mp h
      rw [ih hrest]
      unfold Db.insertTelemetry at hinsert
      split at hinsert
      · cases hinsert
      · cases hinsert
        simp [Db.recordsOf, hne]

theorem commit_recordsOf {op : Op} (other : op.reports? ≠ some id) :
    (p.commit now op db).recordsOf id = db.recordsOf id := by
  rcases p.commit_cases now op db with hsame | happly
  · rw [hsame]
  generalize p.commit now op db = db' at happly ⊢
  cases hop : op.reports? with
  | none =>
    unfold Db.recordsOf
    rw [apply_telemetry hop happly]
  | some attempt =>
    cases op with
    | report id' generation caller records =>
      have hne : id' ≠ id := fun hid => other (by rw [Op.reports?, hid])
      obtain ⟨⟨db₁, sequence⟩, hreport, rfl⟩ := Result.map_ok.mp happly
      simp only [report, Result.bind_ok] at hreport
      obtain ⟨_, _, _, _, _, _, ⟨db₂, next⟩, hinsert, hreturn⟩ := hreport
      simp only [Result.pure_ok, Prod.mk.injEq] at hreturn
      obtain ⟨rfl, _⟩ := hreturn
      have inserted := insertRecords_other hne hinsert
      exact inserted
    | submit | submitSweep | rerun | registerWorker | workerHeartbeat | drainWorker
      | reportGpuInventory | assign | runtimeReport | admitKubernetes | kubernetesStopped
      | kubernetesRuntime | start | heartbeat | beginFinalization | verifyOwner
      | publishArtifact | finish | cancel | recoverRequeue | recoverAttempt => cases hop

/-- Only a report on the attempt moves its acknowledged sequence. -/
theorem Effect.acknowledged_from {l l' : Ledger} {op : Op} (effect : Effect p now l op l')
    (other : op.reports? ≠ some id) {a' : AttemptRow} (ha' : a' ∈ l'.attempts)
    (hid : a'.id = id) :
    (∃ a ∈ l.attempts, a.id = id ∧ a'.ackSequence = a.ackSequence) ∨
    (∀ a ∈ l.attempts, a.id ≠ id) ∧ a'.ackSequence = 0 := by
  have kept : ∀ a ∈ l.attempts, a.id = a'.id → a'.ackSequence = a.ackSequence →
      ∃ a ∈ l.attempts, a.id = id ∧ a'.ackSequence = a.ackSequence :=
    fun a ha hsame hack => ⟨a, ha, hsame.trans hid, hack⟩
  rcases effect.row_from ha' with
    ⟨a, ha, rfl | rfl | rfl⟩ | ⟨_, _, a, _, ha, move⟩ | ⟨_, _, _, chosen, rfl⟩
  · exact .inl (kept a' ha rfl rfl)
  · exact .inl (kept a ha rfl rfl)
  · exact .inl (kept a ha rfl rfl)
  · cases move with
    | acknowledged _ =>
      refine absurd ?_ other
      rw [← hid]
      rfl
    | claimed | renewed | finalizing | completed | failed | launched | jobLaunched =>
      exact .inl (kept _ ha rfl rfl)
  · exact .inr ⟨fun a ha hsame => chosen.fresh a ha (hsame.trans hid.symm), rfl⟩

end Operations

end Runyard
