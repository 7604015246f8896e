import Runyard.Run.Lifetime

/-!
# Ownership fencing

Who may write under the identity of an attempt, and that nobody can once the attempt has
ended.
-/

namespace Runyard

namespace Op

/-- The attempt, generation and instance that an owner's call carries. -/
def owner? : Op → Option (String × Int × String)
  | .heartbeat id generation caller | .report id generation caller _
  | .beginFinalization id generation caller | .verifyOwner id generation caller
  | .finish id generation caller _ _ _ => some (id, generation, caller)
  | .publishArtifact value generation caller => some (value.attemptId, generation, caller)
  | _ => none

/-- The attempt whose identity a runner's call carries. -/
def attempt? : Op → Option String
  | .start id _ _ _ => some id
  | op => op.owner?.map (·.1)

def isFinish : Op → Bool
  | .finish _ _ _ _ _ _ => true
  | _ => false

end Op

/-- The caller is the recorded instance of the run's active attempt, the run is running or
finalizing, and neither the lease nor the deadline of the phase has passed. -/
def UnexpiredOwner (now : Int) (db : Db) (id : String) (generation : Int) (caller : String) :
    Prop :=
  ∃ a r, db.attempt? id = some a ∧ db.run? a.runId = some r ∧ r.activeAttempt = some id ∧
    r.generation = generation ∧ a.generation = generation ∧ a.instanceId = some caller ∧
    (r.status = .running ∨ r.status = .finalizing) ∧
    (∃ lease, a.leaseUntil = some lease ∧ now < lease) ∧
    ∃ deadline, a.currentDeadline = some deadline ∧ now < deadline

section Reachable

variable {p : PostgresStore} {s : PostgresStore.State} {now : Int} {id caller : String}
  {generation : Int} {db' : Db}

theorem owned_unexpired {x : LockedAttempt} (hs : p.system.Reachable s)
    (h : owned now id generation caller s.db = .ok x) :
    UnexpiredOwner now s.db id generation caller ∧ x.attempt.id = id ∧
      s.db.attempt? id = some x.attempt ∧ ¬ x.attempt.Ended now := by
  have wf := (PostgresStore.reachable_wellFormed hs).toWellFormed
  obtain ⟨locked, owned, hgeneration, _⟩ := owned_ok wf h
  obtain ⟨hr, ha⟩ := locked.history
  obtain ⟨hc, hphased⟩ := coupled_phased_reachable hs x.run hr
  have hp := Journal.history_proper wf x.run
  have hattempt := locked.attempt
  have active := owned.active
  rw [locked.same] at hattempt active
  have hsame : x.attempt.generation = x.run.generation :=
    hc.generation_of_active hp ha owned.active
  obtain ⟨_, hstatus⟩ := hc.owned_status hp ha owned
  have phased := hphased x.attempt ha
  obtain ⟨lease, hlease⟩ := Option.isSome_iff_exists.mp (phased.leased hstatus)
  have hvalid := owned.lease
  simp only [AttemptRow.leaseValid, hlease, decide_eq_true_eq] at hvalid
  have deadline : ∃ deadline, x.attempt.currentDeadline = some deadline ∧ now < deadline := by
    have hdeadline := owned.deadline
    rcases hstatus with hs | hs
    · obtain ⟨d, hd⟩ := Option.isSome_iff_exists.mp (phased.running hs)
      simp [AttemptRow.deadlineValid, AttemptRow.phaseDeadline, hs, hd] at hdeadline
      exact ⟨d, by simp [AttemptRow.currentDeadline, hs, hd], hdeadline⟩
    · obtain ⟨d, hd⟩ := Option.isSome_iff_exists.mp (phased.finalizing hs)
      simp [AttemptRow.deadlineValid, AttemptRow.phaseDeadline, hs, hd] at hdeadline
      exact ⟨d, by simp [AttemptRow.currentDeadline, hs, hd], hdeadline⟩
  refine ⟨⟨x.attempt, x.run, hattempt, locked.run, active, hgeneration, hsame.trans hgeneration,
    owned.instanceId, owned.status, ⟨lease, hlease, hvalid⟩, deadline⟩, locked.same, hattempt, ?_⟩
  exact owned.not_ended (hc.status_of_active hp ha owned.active)

/-- An owner's call that commits passed the fence, unless it is the replay of a finish. -/
theorem owner_call {op : Op} (hop : op.owner? = some (id, generation, caller))
    (h : p.apply now op s.db = .ok db') :
    (∃ x, owned now id generation caller s.db = .ok x) ∨ op.isFinish ∧ db' = s.db := by
  cases op with
  | heartbeat | beginFinalization | verifyOwner =>
    simp only [Op.owner?, Option.some.injEq, Prod.mk.injEq] at hop
    obtain ⟨rfl, rfl, rfl⟩ := hop
    obtain ⟨x, hx, _⟩ := Result.bind_ok.mp h
    exact .inl ⟨x, hx⟩
  | report =>
    simp only [Op.owner?, Option.some.injEq, Prod.mk.injEq] at hop
    obtain ⟨rfl, rfl, rfl⟩ := hop
    obtain ⟨y, hy, _⟩ := Result.map_ok.mp h
    simp only [report, Result.bind_ok] at hy
    obtain ⟨_, _, _, _, x, hx, _⟩ := hy
    exact .inl ⟨x, hx⟩
  | publishArtifact =>
    simp only [Op.owner?, Option.some.injEq, Prod.mk.injEq] at hop
    obtain ⟨rfl, rfl, rfl⟩ := hop
    obtain ⟨y, hy, _⟩ := Result.map_ok.mp h
    obtain ⟨x, hx, _⟩ := Result.bind_ok.mp hy
    exact .inl ⟨x, hx⟩
  | finish =>
    simp only [Op.owner?, Option.some.injEq, Prod.mk.injEq] at hop
    obtain ⟨rfl, rfl, rfl⟩ := hop
    obtain ⟨_, _, hbody⟩ := Result.bind_ok.mp h
    split at hbody
    · exact .inr ⟨rfl, (Result.pure_ok.mp hbody).symm⟩
    · obtain ⟨x, hx, _⟩ := Result.bind_ok.mp hbody
      exact .inl ⟨x, hx⟩
  | submit | submitSweep | rerun | registerWorker | workerHeartbeat | drainWorker
    | reportGpuInventory | assign | runtimeReport | admitKubernetes | kubernetesStopped
    | kubernetesRuntime | start | cancel | recoverRequeue | recoverAttempt => cases hop

/-- A claim finds the attempt starting, within its launch deadline and never claimed. -/
theorem start_not_ended {nodeName : String} {x : Assignment} (hs : p.system.Reachable s)
    (h : start p.timing now id generation caller nodeName s.db = .ok (db', x)) :
    ∃ a, s.db.attempt? id = some a ∧ a.id = id ∧ ¬ a.Ended now ∧
      (a.instanceId = some caller ∧ db' = s.db ∨ a.instanceId = none) := by
  have wf := (PostgresStore.reachable_wellFormed hs).toWellFormed
  obtain ⟨y, locked, active, _, live, hcases⟩ := start_ok wf h
  obtain ⟨hr, ha⟩ := locked.history
  obtain ⟨hc, hphased⟩ := coupled_phased_reachable hs y.run hr
  have hp := Journal.history_proper wf y.run
  have agrees : y.run.status.agrees y.attempt.status := hc.status_of_active hp ha active
  have phased := hphased y.attempt ha
  have hattempt := locked.attempt
  rw [locked.same] at hattempt
  have hlive : y.attempt.status.live := by
    rw [RunStatus.agrees_live agrees]
    exact live
  refine ⟨y.attempt, hattempt, locked.same, ?_, ?_⟩
  · rcases hcases with ⟨_, hlease, hdeadline, _⟩ | ⟨_, _, hstarting, hinTime, _⟩
    · have hstatus : y.attempt.status = .running ∨ y.attempt.status = .finalizing := by
        cases hcase : y.attempt.status with
        | running => exact .inl rfl
        | finalizing => exact .inr rfl
        | starting =>
          have hnone := phased.starting hcase
          simp [AttemptRow.leaseValid, hnone] at hlease
        | succeeded | failed | cancelled => simp [hcase, AttemptStatus.live] at hlive
      have hrun : y.run.status = .running ∨ y.run.status = .finalizing := by
        rcases hstatus with hcase | hcase <;> rw [hcase] at agrees <;>
          cases hrun : y.run.status <;>
          simp_all [RunStatus.agrees, AttemptStatus.toRun, RunStatus.live]
      have hinstance : y.attempt.instanceId = some caller := by
        rename_i hinstance _
        exact hinstance
      exact Owned.not_ended ⟨active, hinstance, hlease, hdeadline, hrun⟩ agrees
    · have hstatus : y.attempt.status = .starting := by
        rw [hstarting] at agrees
        cases hcase : y.attempt.status <;> simp_all [RunStatus.agrees, AttemptStatus.toRun]
      rintro (hfinal | hlapsed | hlapsed)
      · exact hfinal hlive
      · simp [phased.starting hstatus, lapsed] at hlapsed
      · simp only [AttemptRow.currentDeadline, hstatus, lapsed, decide_eq_true_eq] at hlapsed
        omega
  · rcases hcases with ⟨hinstance, _, _, hdb⟩ | ⟨hnone, _⟩
    · exact .inl ⟨hinstance, hdb⟩
    · exact .inr hnone

/-- Calls under the identity of an attempt that has ended change nothing. -/
theorem ended_call {op : Op} {a : AttemptRow} (hs : p.system.Reachable s)
    (ha : a ∈ s.db.attempts) (ended : a.Ended now) (hop : op.attempt? = some a.id) :
    p.commit now op s.db = s.db := by
  have wf := (PostgresStore.reachable_wellFormed hs).toWellFormed
  have found : s.db.attempt? a.id = some a := wf.attempts.lookup ha
  rcases p.commit_cases now op s.db with hsame | happly
  · exact hsame
  cases hstart : op.owner? with
  | some identity =>
    obtain ⟨id, generation, caller⟩ := identity
    have hid : id = a.id := by
      cases op <;> simp_all [Op.attempt?, Op.owner?]
    subst hid
    rcases owner_call hstart happly with ⟨x, hx⟩ | ⟨_, hsame⟩
    · obtain ⟨_, _, hattempt, open_⟩ := owned_unexpired hs hx
      rw [found] at hattempt
      cases hattempt
      exact absurd ended open_
    · exact hsame
  | none =>
    cases op with
    | start id generation caller nodeName =>
      obtain ⟨⟨db', x⟩, hx, hdb⟩ := Result.map_ok.mp happly
      simp only [Op.attempt?, Option.some.injEq] at hop
      subst hop
      obtain ⟨b, hb, _, open_, _⟩ := start_not_ended hs hx
      rw [found] at hb
      cases hb
      exact absurd ended open_
    | submit | submitSweep | rerun | registerWorker | workerHeartbeat | drainWorker
      | reportGpuInventory | assign | runtimeReport | admitKubernetes | kubernetesStopped
      | kubernetesRuntime | heartbeat | report | beginFinalization | verifyOwner
      | publishArtifact | finish | cancel | recoverRequeue | recoverAttempt =>
      simp [Op.attempt?, Op.owner?] at hop hstart

/-- An attempt that a newer generation superseded has failed. -/
theorem superseded_ended {a : AttemptRow} {r : RunRow} (hs : p.system.Reachable s)
    (ha : a ∈ s.db.attempts) (hr : r ∈ s.db.runs) (hrun : r.id = a.runId)
    (superseded : r.generation ≠ a.generation) : a.Ended now := by
  have wf := (PostgresStore.reachable_wellFormed hs).toWellFormed
  have hc := coupled_reachable hs r hr
  have hp := Journal.history_proper wf r
  have member : a ∈ (s.db.history r).attempts := Journal.mem_attemptsOf.mpr ⟨ha, hrun.symm⟩
  have inactive : (s.db.history r).run.activeAttempt ≠ some a.id := by
    intro active
    exact superseded (hc.generation_of_active hp member active).symm
  left
  rw [hc.status_of_past member inactive]
  simp [AttemptStatus.live]

/-- Ownership fencing in every reachable state and along every later run. -/
theorem ownership_fencing (p : PostgresStore) {s : PostgresStore.State}
    (hs : p.system.Reachable s) :
    (∀ a ∈ s.db.attempts, ∀ caller, a.instanceId = some caller →
      (∀ s', p.system.Later s s' →
        ∃ a' ∈ s'.db.attempts, a'.id = a.id ∧ a'.instanceId = some caller) ∧
      ∀ now other generation nodeName x, other ≠ caller →
        start p.timing now a.id generation other nodeName s.db ≠ .ok x) ∧
    (∀ now op db' id generation caller, op.owner? = some (id, generation, caller) →
      p.apply now op s.db = .ok db' → op.isFinish = false ∨ db' ≠ s.db →
      UnexpiredOwner now s.db id generation caller) ∧
    (∀ a ∈ s.db.attempts,
      (a.Ended s.clock ∨ ∃ r ∈ s.db.runs, r.id = a.runId ∧ r.generation ≠ a.generation) →
      ∀ s', p.system.Later s s' → ∀ now op, s'.clock ≤ now → op.attempt? = some a.id →
        p.commit now op s'.db = s'.db) ∧
    (∀ a ∈ s.db.attempts, lapsed a.leaseUntil s.clock → ∀ s', p.system.Later s s' →
      ∃ a' ∈ s'.db.attempts, a'.id = a.id ∧ ∀ now, s'.clock ≤ now → ¬ a'.leaseValid now) := by
  have wf := (PostgresStore.reachable_wellFormed hs).toWellFormed
  refine ⟨?_, ?_, ?_, ?_⟩
  · intro a ha caller hcaller
    constructor
    · intro s' later
      obtain ⟨a', ha', evolved⟩ := attempt_later hs later a ha
      exact ⟨a', ha', evolved.identity.id, evolved.instanceId caller hcaller⟩
    · rintro now other generation nodeName ⟨db', x⟩ hother h
      obtain ⟨b, hb, _, _, hinstance⟩ := start_not_ended hs h
      have found : s.db.attempt? a.id = some a := wf.attempts.lookup ha
      rw [found] at hb
      cases hb
      rw [hcaller] at hinstance
      rcases hinstance with ⟨hsame, _⟩ | hnone
      · exact hother (Option.some.inj hsame).symm
      · cases hnone
  · intro now op db' id generation caller hop happly hwrites
    rcases owner_call hop happly with ⟨x, hx⟩ | ⟨hfinish, hsame⟩
    · exact (owned_unexpired hs hx).1
    · rcases hwrites with hwrites | hwrites
      · rw [hfinish] at hwrites
        cases hwrites
      · exact absurd hsame hwrites
  · intro a ha hended s' later now op hclock hop
    have ended : a.Ended s.clock := by
      rcases hended with hended | ⟨r, hr, hrun, superseded⟩
      · exact hended
      · exact superseded_ended hs ha hr hrun superseded
    obtain ⟨a', ha', evolved⟩ := attempt_later hs later a ha
    rw [← evolved.identity.id] at hop
    exact ended_call (hs.later later) ha' ((evolved.ended ended).mono hclock) hop
  · intro a ha hlapsed s' later
    obtain ⟨a', ha', evolved⟩ := attempt_later hs later a ha
    refine ⟨a', ha', evolved.identity.id, fun now hclock => ?_⟩
    exact lapsed_not_leaseValid (lapsed_mono hclock (evolved.expired hlapsed))

theorem ownership_fencing_expired : ∃ a ∈ Sample.expired.db.attempts, a.status = .failed ∧
    Sample.store.commit (seconds 41) (.heartbeat a.id 1 "runner") Sample.expired.db =
      Sample.expired.db := by
  have failed : ∃ a ∈ Sample.expired.db.attempts, a.status = .failed := by decide +kernel
  obtain ⟨a, ha, hstatus⟩ := failed
  have ended : a.Ended Sample.expired.clock := .inl (by simp [hstatus, AttemptStatus.live])
  have fenced := (ownership_fencing Sample.store Sample.expired_reachable).2.2.1
  exact ⟨a, ha, hstatus, fenced a ha (.inl ended) _ .refl (seconds 41) _ (by decide) rfl⟩

end Reachable

end Runyard
