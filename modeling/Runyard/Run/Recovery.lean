import Runyard.Run.Completion

/-!
# Recovery

A call of `recover` requeues the runs whose retry is due, scans for attempts whose lease or
deadline has lapsed, and resolves the candidates one by one, each in a transaction of its own.
Any other transactions may commit in between.
-/

namespace Runyard

/-! ## Event numbers never collide -/

/-- The events of a run have numbers up to its counter. -/
def Journal.Numbered (j : Journal) : Prop :=
  ∀ r ∈ j.runs, ∀ e ∈ j.events, e.runId = r.id → e.sequence ≤ r.eventSequence

section Event

variable {now : Int} {db : Db}

theorem event_total {r : RunRow} (kind : EventKind) (detail : String)
    (numbered : db.toJournal.Numbered) (keyed : Table.Keyed (·.id) db.runs) (hr : r ∈ db.runs) :
    ∃ db', event now r.id kind detail db = .ok db' ∧ Table.Keyed (·.id) db'.runs ∧
      db'.toJournal.Numbered ∧ ∀ s ∈ db.runs, ∃ s' ∈ db'.runs, s'.id = s.id := by
  have keeps : ∀ s : RunRow, (fun s => decide (s.id = r.id)) s → (s.count now).id = s.id := by
    intro s _
    rfl
  have hcounted : (db.updateRun r.id fun s => s.count now).run? r.id = some (r.count now) := by
    have hlookup := Table.lookup_update (k := r.id) keeps db.runs
    rw [keyed.lookup hr] at hlookup
    simpa [Journal.run?, Db.updateRun] using hlookup
  have unused : (db.updateRun r.id fun s => s.count now).events.any (fun e =>
      e.runId = r.id && e.sequence = (r.count now).eventSequence) = false := by
    rw [List.any_eq_false]
    intro e he hsame
    simp only [Bool.and_eq_true, decide_eq_true_eq, RunRow.count_eventSequence] at hsame
    have := numbered r hr e he hsame.1
    omega
  have hevent : ∃ db', event now r.id kind detail db = .ok db' := by
    simp only [event, hcounted, Db.insertEvent, unused]
    exact ⟨_, rfl⟩
  obtain ⟨db', hdb'⟩ := hevent
  obtain ⟨r₁, hr₁, rfl⟩ := event_ok hdb'
  obtain ⟨hr₁, hid⟩ := Table.lookup_mem hr₁
  obtain rfl := keyed.eq hr₁ hr hid
  refine ⟨_, hdb', keyed.update keeps, ?_, ?_⟩
  · intro s' hs' e he hrun
    obtain ⟨s, hs, rfl⟩ := Table.mem_update.mp hs'
    by_cases hsame : s.id = r₁.id
    · obtain rfl := keyed.eq hs hr hsame
      simp only [decide_true, if_true, RunRow.count_id, RunRow.count_eventSequence] at hrun ⊢
      rcases List.mem_append.mp he with he | he
      · have := numbered s hs e he hrun
        omega
      · rw [List.mem_singleton.mp he]
    · simp only [hsame, decide_false, Bool.false_eq_true, if_false] at hrun ⊢
      rcases List.mem_append.mp he with he | he
      · exact numbered s hs e he hrun
      · rw [List.mem_singleton.mp he] at hrun
        exact absurd hrun.symm hsame
  · intro s hs
    refine ⟨_, Table.mem_update.mpr ⟨s, hs, rfl⟩, ?_⟩
    split <;> rfl

theorem requeueEvents_total {rows : List RunRow} (keyed : Table.Keyed (·.id) db.runs)
    (numbered : db.toJournal.Numbered) (found : ∀ row ∈ rows, ∃ r ∈ db.runs, r.id = row.id) :
    ∃ db', requeueEvents now rows db = .ok db' := by
  induction rows generalizing db with
  | nil => exact ⟨db, rfl⟩
  | cons row rest ih =>
    obtain ⟨r, hr, hid⟩ := found row List.mem_cons_self
    obtain ⟨db₁, hevent, keyed₁, numbered₁, kept⟩ :=
      event_total .requeued "retry delay elapsed" numbered keyed hr
    have found₁ : ∀ other ∈ rest, ∃ s ∈ db₁.runs, s.id = other.id := by
      intro other hother
      obtain ⟨s, hs, hsid⟩ := found other (List.mem_cons_of_mem _ hother)
      obtain ⟨s', hs', hsid'⟩ := kept s hs
      exact ⟨s', hs', hsid'.trans hsid⟩
    obtain ⟨db', hrest⟩ := ih keyed₁ numbered₁ found₁
    refine ⟨db', Result.bind_ok.mpr ⟨db₁, ?_, hrest⟩⟩
    rw [← hid]
    exact hevent

/-- Rewriting runs without their counters leaves the events numbered. -/
theorem Journal.Numbered.update {db' : Db} {q : RunRow → Bool} {f : RunRow → RunRow}
    (numbered : db.toJournal.Numbered) (runs : db'.runs = Table.update q f db.runs)
    (events : db'.events = db.events) (id : ∀ r, (f r).id = r.id)
    (sequence : ∀ r, (f r).eventSequence = r.eventSequence) : db'.toJournal.Numbered := by
  intro r' hr' e he hrun
  rw [runs] at hr'
  rw [events] at he
  obtain ⟨r, hr, rfl⟩ := Table.mem_update.mp hr'
  split at hrun
  · rw [if_pos ‹_›, sequence]
    exact numbered r hr e he (hrun.trans (id r))
  · rw [if_neg ‹_›]
    exact numbered r hr e he hrun

theorem recoverRequeue_total (now : Int) (keyed : Table.Keyed (·.id) db.runs)
    (numbered : db.toJournal.Numbered) : ∃ db', recoverRequeue now db = .ok db' := by
  refine requeueEvents_total (keyed.update (by intro r _; rfl))
    (numbered.update rfl rfl (by intro r; rfl) (by intro r; rfl)) ?_
  intro row hrow
  refine ⟨_, Table.mem_update.mpr ⟨row, List.mem_of_mem_filter hrow, rfl⟩, ?_⟩
  split <;> rfl

theorem fail_total (timing : Timing) (now : Int) (x : LockedAttempt) (failure : Failure)
    (reason : String) (exitCode : Option Int) (keyed : Table.Keyed (·.id) db.runs)
    (numbered : db.toJournal.Numbered) (hr : x.run ∈ db.runs) :
    ∃ db', fail timing now x failure reason exitCode db = .ok db' := by
  have delayed : ∀ (status : RunStatus) (available : Int) (kind : EventKind),
      ∃ db', event now x.run.id kind reason
        ((db.updateAttempt x.attempt.id fun row => row.fail now reason exitCode).updateRun x.run.id
          fun r => r.delay status available) = .ok db' := by
    intro status available kind
    have delayedRuns : ((db.updateAttempt x.attempt.id fun row =>
        row.fail now reason exitCode).updateRun x.run.id fun r =>
          r.delay status available).toJournal.Numbered :=
      numbered.update rfl rfl (by intro r; rfl) (by intro r; rfl)
    obtain ⟨db', hdb', -⟩ := event_total (r := x.run.delay status available) kind reason
      delayedRuns (keyed.update (by intro r _; rfl))
      (Table.mem_update_of_mem (p := fun r => r.id = x.run.id)
        (fun r => r.delay status available) hr (by simp))
    exact ⟨db', hdb'⟩
  exact delayed _ _ _

end Event

/-! ## One candidate -/

theorem not_lapsed (now deadline : Int) :
    (!lapsed (some deadline) now) = decide (now < deadline) := by
  by_cases late : deadline ≤ now
  · simp [lapsed, late]
  · have early : now < deadline := by omega
    simp [lapsed, late, early]

theorem AttemptRow.deadlineValid_eq (a : AttemptRow) (now : Int) :
    a.deadlineValid now = !lapsed a.phaseDeadline now := by
  cases hdeadline : a.phaseDeadline with
  | none => simp [deadlineValid, lapsed, hdeadline]
  | some deadline => simp [deadlineValid, hdeadline, not_lapsed]

theorem AttemptRow.leaseValid_eq {a : AttemptRow} (leased : a.leaseUntil.isSome) (now : Int) :
    a.leaseValid now = !lapsed a.leaseUntil now := by
  obtain ⟨lease, hlease⟩ := Option.isSome_iff_exists.mp leased
  simp [leaseValid, hlease, not_lapsed]

/-- What recovery decides about an attempt, from the columns of its row. -/
def AttemptRow.resolution (now : Int) (a : AttemptRow) : Option (Failure × String) :=
  match a.status with
  | .starting =>
    if a.launchDeadline ≤ now then some (.infrastructure, "LAUNCH_TIMEOUT") else none
  | .running =>
    if lapsed a.executionDeadline now then some (.timeout, "TIMEOUT")
    else if lapsed a.leaseUntil now then some (.infrastructure, "LEASE_EXPIRED") else none
  | .finalizing =>
    if lapsed a.finalizationDeadline now then some (.infrastructure, "FINALIZATION_TIMEOUT")
    else if lapsed a.leaseUntil now then some (.infrastructure, "LEASE_EXPIRED") else none
  | _ => none

/-- No expired attempt is left alone. -/
theorem AttemptRow.resolution_none {a : AttemptRow} {now : Int} (phased : a.Phased) :
    a.resolution now = none ↔ ¬ (a.status.live ∧ a.Ended now) := by
  cases hs : a.status with
  | starting =>
    simp [resolution, Ended, currentDeadline, hs, phased.starting hs, AttemptStatus.live, lapsed]
  | running | finalizing =>
    simp only [resolution, Ended, currentDeadline, hs, AttemptStatus.live]
    split <;> simp_all
  | succeeded | failed | cancelled => simp [resolution, hs, AttemptStatus.live]

/-- Recovery found the attempt `a` of the run `r` expired and failed it. -/
structure Recovered (timing : Timing) (now : Int) (db db' : Db) (r : RunRow) (a : AttemptRow)
    (failure : Failure) (reason : String) : Prop where
  attempt : db.attempt? a.id = some a
  run : db.run? a.runId = some r
  active : r.activeAttempt = some a.id
  live : a.status.live
  ended : a.Ended now
  timeout : r.status = .running ∧ lapsed a.executionDeadline now →
    failure = .timeout ∧ reason = "TIMEOUT"
  otherwise : ¬ (r.status = .running ∧ lapsed a.executionDeadline now) →
    failure = .infrastructure ∧
      reason ∈ ["LAUNCH_TIMEOUT", "FINALIZATION_TIMEOUT", "LEASE_EXPIRED"]
  written :
    let retry := shouldRetry r.spec.retry a.generation failure
    let delay := retryDelay a.generation timing.retryBaseSeconds timing.retryMaxSeconds
    db'.toLedger = { db.toLedger with
      toJournal := db.put
        ((r.delay (if retry then .retryWait else .failed) (now + seconds delay)).count now)
        (a.fail now reason none)
        [r.eventRow now (if retry then .retryScheduled else .failed) reason] }

theorem Recovered.failed_mem {timing : Timing} {now : Int} {db db' : Db} {r : RunRow}
    {a : AttemptRow} {failure : Failure} {reason : String}
    (recovered : Recovered timing now db db' r a failure reason) :
    a.fail now reason none ∈ db'.attempts := by
  have hattempts : db'.attempts = Table.replace (·.id) (a.fail now reason none) db.attempts :=
    congrArg (·.attempts) recovered.written
  rw [hattempts]
  exact Table.replace_self ⟨a, (Table.lookup_mem recovered.attempt).1, rfl⟩

section Candidate

variable {p : PostgresStore} {s : PostgresStore.State} {a : AttemptRow}

theorem reachable_numbered (hs : p.system.Reachable s) : s.db.toJournal.Numbered := by
  intro r hr e he hrun
  have ht := traced_reachable hs r hr
  have hmem : e.sequence ∈ (s.db.history r).events.map (·.sequence) := by
    refine List.mem_map_of_mem (List.mem_filter.mpr ⟨he, ?_⟩)
    simpa using hrun
  rw [ht.numbers] at hmem
  have hcount : r.eventSequence = _ := ht.count
  rw [hcount]
  exact (upTo_bound hmem).2

/-- The transaction follows the decision, and the tests of the run's status never stop it. -/
theorem recoverAttempt_eq (timing : Timing) (now : Int) {db : Db} {r : RunRow}
    (hattempt : db.attempt? a.id = some a) (hrun : db.run? a.runId = some r) (named : a.id ≠ "")
    (phased : a.Phased)
    (coupled : a.status.live → r.activeAttempt = some a.id ∧ r.status = a.status.toRun)
    (idle : ¬ a.status.live → r.activeAttempt = some a.id → ¬ r.status.live) :
    recoverAttempt timing now a.id db = match a.resolution now with
      | none => .ok db
      | some (failure, reason) => fail timing now ⟨r, a, a.leaseValid now,
          decide (now < a.launchDeadline), a.deadlineValid now⟩ failure reason none db := by
  simp only [recoverAttempt, lockAttempt, hattempt, hrun, bind, Except.bind]
  cases hs : a.status with
  | starting =>
    obtain ⟨active, status⟩ := coupled (by simp [hs, AttemptStatus.live])
    simp only [hs, AttemptStatus.toRun] at status
    by_cases late : a.launchDeadline ≤ now
    · simp [AttemptRow.resolution, active, hs, status, RunStatus.terminal, late]
    · simp [AttemptRow.resolution, active, hs, status, RunStatus.terminal, late]
  | running | finalizing =>
    obtain ⟨active, status⟩ := coupled (by simp [hs, AttemptStatus.live])
    have leaseValid := AttemptRow.leaseValid_eq (phased.leased (by simp [hs])) now
    have deadlineValid := a.deadlineValid_eq now
    simp only [hs, AttemptStatus.toRun] at status
    simp only [AttemptRow.resolution, active, hs, status, RunStatus.terminal, deadlineValid,
      leaseValid]
    cases late : lapsed a.phaseDeadline now <;> cases lost : lapsed a.leaseUntil now <;>
      simp_all [AttemptRow.phaseDeadline]
  | succeeded | failed | cancelled =>
    have ended : ¬ a.status.live := by simp [hs, AttemptStatus.live]
    simp only [AttemptRow.resolution, hs]
    by_cases active : r.activeAttempt = some a.id
    · have hidle := idle ended active
      cases hr : r.status <;> simp_all [RunStatus.live, RunStatus.terminal]
    · have replaced : text r.activeAttempt ≠ a.id := fun h => active (text_eq h named)
      simp [replaced]

theorem resolution_cause {now : Int} {failure : Failure} {reason : String}
    (h : a.resolution now = some (failure, reason)) :
    (a.status = .running ∧ lapsed a.executionDeadline now →
      failure = .timeout ∧ reason = "TIMEOUT") ∧
    (¬ (a.status = .running ∧ lapsed a.executionDeadline now) → failure = .infrastructure ∧
      reason ∈ ["LAUNCH_TIMEOUT", "FINALIZATION_TIMEOUT", "LEASE_EXPIRED"]) := by
  cases hs : a.status with
  | starting =>
    simp only [AttemptRow.resolution, hs, Option.ite_none_right_eq_some] at h
    simp_all
  | running | finalizing =>
    simp only [AttemptRow.resolution, hs] at h
    split at h <;> simp_all
  | succeeded | failed | cancelled => simp [AttemptRow.resolution, hs] at h

/-- The transaction of `recover` fails an attempt exactly when it is live and has ended. -/
theorem recoverAttempt_spec (hs : p.system.Reachable s) (ha : a ∈ s.db.attempts) (now : Int) :
    ¬ (a.status.live ∧ a.Ended now) ∧ recoverAttempt p.timing now a.id s.db = .ok s.db ∨
    ∃ db' r failure reason, recoverAttempt p.timing now a.id s.db = .ok db' ∧
      Recovered p.timing now s.db db' r a failure reason := by
  have wf := (PostgresStore.reachable_wellFormed hs).toWellFormed
  obtain ⟨r, hr, hrun⟩ := wf.attemptRun a ha
  obtain ⟨hc, hphased⟩ := coupled_phased_reachable hs r hr
  have hp := Journal.history_proper wf r
  have hmem : a ∈ (s.db.history r).attempts := Journal.mem_attemptsOf.mpr ⟨ha, hrun.symm⟩
  have hattempt : s.db.attempt? a.id = some a := wf.attempts.lookup ha
  have hfound : s.db.run? a.runId = some r := by
    rw [← hrun]
    exact wf.runs.lookup hr
  have coupled : a.status.live → r.activeAttempt = some a.id ∧ r.status = a.status.toRun :=
    fun live => hc.live_active hp hmem live
  have idle : ¬ a.status.live → r.activeAttempt = some a.id → ¬ r.status.live :=
    fun ended active live =>
      ended ((RunStatus.agrees_live (hc.status_of_active hp hmem active)).trans live)
  have decision := recoverAttempt_eq p.timing now hattempt hfound
    (wf.named a ha) (hphased a hmem) coupled idle
  cases hres : a.resolution now with
  | none =>
    rw [hres] at decision
    exact .inl ⟨(AttemptRow.resolution_none (hphased a hmem)).mp hres, decision⟩
  | some verdict =>
    obtain ⟨failure, reason⟩ := verdict
    rw [hres] at decision
    obtain ⟨db', hfail⟩ := fail_total p.timing now ⟨r, a, a.leaseValid now,
      decide (now < a.launchDeadline), a.deadlineValid now⟩ failure reason none wf.runs
        (reachable_numbered hs) hr
    have expired : a.status.live ∧ a.Ended now := by
      by_contra unexpired
      rw [(AttemptRow.resolution_none (hphased a hmem)).mpr unexpired] at hres
      cases hres
    obtain ⟨active, status⟩ := coupled expired.1
    have running : r.status = .running ↔ a.status = .running := by
      rw [status]
      cases a.status <;> simp [AttemptStatus.toRun]
    obtain ⟨timeout, otherwise⟩ := resolution_cause hres
    rw [← running] at timeout otherwise
    refine .inr ⟨db', r, failure, reason, decision.trans hfail, ?_⟩
    refine ⟨hattempt, hfound, active, expired.1, expired.2, timeout, otherwise, ?_⟩
    exact event_put wf hattempt hfound rfl (by intro r; rfl) rfl hfail

end Candidate

/-! ## A call of `recover` -/

/-- The order in which the scan may see its rows: attempts of one age come in any order. -/
def Scanned (now : Int) (db : Db) (rows : List AttemptRow) : Prop :=
  rows.Perm (db.attempts.filter (expired now)) ∧ rows.Pairwise fun a b => a.createdAt ≤ b.createdAt

instance (now : Int) (db : Db) (rows : List AttemptRow) : Decidable (Scanned now db rows) :=
  inferInstanceAs (Decidable (_ ∧ _))

namespace Recover

/-- Where the call stands. It has returned when no candidate is left. -/
inductive Stage where
  | called
  | requeued
  | resolving (candidates left : List String)
  | threw
  deriving DecidableEq

structure State where
  store : PostgresStore.State
  stage : Stage := .called

inductive Act where
  /-- A transaction of another session. -/
  | other (e : PostgresStore.Event)
  | requeue (now : Int)
  | scan (now : Int) (rows : List AttemptRow)
  | resolve (now : Int)

variable (p : PostgresStore)

/-- A transaction of the call itself; an exception ends the call. -/
def transact (now : Int) (op : Op) (next : Stage) (s : State) : Option State :=
  if s.store.clock ≤ now then
    match p.apply now op s.store.db with
    | .ok db => some ⟨⟨db, now⟩, next⟩
    | .error _ => some ⟨⟨s.store.db, now⟩, .threw⟩
  else none

def step (s : State) : Act → Option State
  | .other e => (p.system.step s.store e).map fun store => { s with store := store }
  | .requeue now =>
    if s.stage = .called then transact p now .recoverRequeue .requeued s else none
  | .scan now rows =>
    if s.stage = .requeued ∧ s.store.clock ≤ now ∧ Scanned now s.store.db rows then
      let candidates := (rows.take 100).map (·.id)
      some ⟨⟨s.store.db, now⟩, .resolving candidates candidates⟩
    else none
  | .resolve now => match s.stage with
    | .resolving candidates (id :: left) =>
      transact p now (.recoverAttempt id) (.resolving candidates left) s
    | _ => none

def system : System State Act where
  init := ⟨p.system.init, .called⟩
  step := step p

variable {p} {s s' : State} {now : Int}

theorem transact_ok {op : Op} {next : Stage} (h : transact p now op next s = some s') :
    s.store.clock ≤ now ∧ s'.store = ⟨p.commit now op s.store.db, now⟩ ∧
      ((∃ e, p.apply now op s.store.db = .error e) ∧ s'.stage = .threw ∨
        p.apply now op s.store.db = .ok s'.store.db ∧ s'.stage = next) := by
  obtain ⟨hclock, h⟩ := Option.ite_none_right_eq_some.mp h
  refine ⟨hclock, ?_⟩
  cases happly : p.apply now op s.store.db with
  | ok db =>
    simp only [happly, Option.some.injEq] at h
    subst h
    exact ⟨by simp [PostgresStore.commit, happly], .inr ⟨rfl, rfl⟩⟩
  | error e =>
    simp only [happly, Option.some.injEq] at h
    subst h
    exact ⟨by simp [PostgresStore.commit, happly], .inl ⟨⟨e, rfl⟩, rfl⟩⟩

theorem embeds : (system p).Embeds p.system (·.store) where
  init := rfl
  step s act s' _ h := by
    have committed : ∀ {now op next}, transact p now op next s = some s' →
        ∃ e, p.system.step s.store e = some s'.store := by
      intro now op next h
      obtain ⟨hclock, hstore, -⟩ := transact_ok h
      refine ⟨⟨now, op⟩, ?_⟩
      rw [hstore]
      exact if_pos hclock
    cases act with
    | other e =>
      obtain ⟨store, hstore, rfl⟩ := Option.map_eq_some_iff.mp h
      exact .inr ⟨e, hstore⟩
    | requeue now => exact .inr (committed (Option.ite_none_right_eq_some.mp h).2)
    | scan now rows =>
      obtain ⟨⟨-, hclock, -⟩, h⟩ := Option.ite_none_right_eq_some.mp h
      obtain rfl := Option.some.inj h
      -- A transaction that throws also only moves the clock.
      exact .inr ⟨⟨now, .registerWorker "" "" ⟨0, 0⟩ {}⟩, if_pos hclock⟩
    | resolve now =>
      obtain ⟨store, stage⟩ := s
      cases stage with
      | resolving candidates left =>
        cases left with
        | nil => cases h
        | cons id left => exact .inr (committed h)
      | called | requeued | threw => cases h

/-- The call does not throw, and the candidates that it has gone through are over. -/
structure Good (s : State) : Prop where
  returns : s.stage ≠ .threw
  remaining : ∀ candidates left, s.stage = .resolving candidates left → left ⊆ candidates
  candidates : ∀ candidates left, s.stage = .resolving candidates left → ∀ id ∈ candidates,
    ∃ a ∈ s.store.db.attempts, a.id = id ∧ a.Ended s.store.clock ∧ (id ∉ left → ¬ a.status.live)

/-- A candidate stays ended, and over once it is over. -/
theorem ended_later {t t' : PostgresStore.State} (ht : p.system.Reachable t)
    (later : p.system.Later t t') {id : String} {ended : Prop}
    (h : ∃ a ∈ t.db.attempts, a.id = id ∧ a.Ended t.clock ∧ (ended → ¬ a.status.live)) :
    ∃ a ∈ t'.db.attempts, a.id = id ∧ a.Ended t'.clock ∧ (ended → ¬ a.status.live) := by
  obtain ⟨a, ha, hid, ended, hover⟩ := h
  obtain ⟨a', ha', evolves⟩ := attempt_later ht later a ha
  refine ⟨a', ha', evolves.identity.id.trans hid, evolves.ended ended, fun h => ?_⟩
  rw [evolves.final (hover h)]
  exact hover h

/-- The transaction of a candidate succeeds, and the attempt is over afterwards. -/
theorem resolves {t : PostgresStore.State} (ht : p.system.Reachable t) {id : String}
    (h : ∃ a ∈ t.db.attempts, a.id = id ∧ a.Ended t.clock) (hclock : t.clock ≤ now) :
    ∃ db, p.apply now (.recoverAttempt id) t.db = .ok db ∧
      ∃ a ∈ db.attempts, a.id = id ∧ ¬ a.status.live := by
  obtain ⟨a, ha, rfl, ended⟩ := h
  rcases recoverAttempt_spec ht ha now with
    ⟨hover, hsame⟩ | ⟨db, r, failure, reason, hok, recovered⟩
  · refine ⟨t.db, hsame, a, ha, rfl, fun live => ?_⟩
    exact hover ⟨live, ended.mono hclock⟩
  · refine ⟨db, hok, a.fail now reason none, ?_, rfl, by simp [AttemptStatus.live]⟩
    exact recovered.failed_mem

theorem not_expired {a : AttemptRow} (ended : ¬ a.status.live) : ¬ expired now a := by
  intro h
  cases hs : a.status <;> simp_all [expired, AttemptStatus.live]

theorem expired_ended {a : AttemptRow} (h : expired now a) : a.Ended now := by
  simp only [expired, Bool.or_eq_true, Bool.and_eq_true, decide_eq_true_eq] at h
  rcases h with ((⟨hs, late⟩ | ⟨-, late⟩) | ⟨hs, late⟩) | ⟨hs, late⟩
  · exact .inr (.inr (by simp [AttemptRow.currentDeadline, hs, lapsed, late]))
  · exact .inr (.inl late)
  · exact .inr (.inr (by simpa [AttemptRow.currentDeadline, hs] using late))
  · exact .inr (.inr (by simpa [AttemptRow.currentDeadline, hs] using late))

theorem Good.step {act : Act} (hs : (system p).Reachable s) (good : Good s)
    (h : (system p).step s act = some s') : Good s' := by
  have reached := embeds.reachable hs
  have single : (system p).Later s s' := .single trivial h
  have later := embeds.later hs single
  cases act with
  | other e =>
    obtain ⟨store, -, rfl⟩ := Option.map_eq_some_iff.mp h
    exact ⟨good.returns, good.remaining, fun candidates left hstage id hid =>
      ended_later reached later (good.candidates candidates left hstage id hid)⟩
  | requeue now =>
    obtain ⟨-, h⟩ := Option.ite_none_right_eq_some.mp h
    have wf := (PostgresStore.reachable_wellFormed reached).toWellFormed
    obtain ⟨db, hdb⟩ := recoverRequeue_total now wf.runs (reachable_numbered reached)
    have happly : p.apply now .recoverRequeue s.store.db = .ok db := hdb
    obtain ⟨-, -, ⟨⟨e, he⟩, -⟩ | ⟨-, hstage⟩⟩ := transact_ok h
    · rw [happly] at he
      cases he
    · exact ⟨by simp [hstage], by simp [hstage], by simp [hstage]⟩
  | scan now rows =>
    obtain ⟨⟨-, hclock, hperm, -⟩, h⟩ := Option.ite_none_right_eq_some.mp h
    obtain rfl := Option.some.inj h
    constructor
    · simp
    · rintro candidates left hstage
      cases hstage
      exact List.Subset.refl _
    · rintro candidates left hstage id hid
      cases hstage
      obtain ⟨a, ha, rfl⟩ := List.mem_map.mp hid
      obtain ⟨hmem, hexpired⟩ := List.mem_filter.mp (hperm.mem_iff.mp (List.mem_of_mem_take ha))
      exact ⟨a, hmem, rfl, expired_ended hexpired, fun h => absurd hid h⟩
  | resolve now =>
    obtain ⟨store, stage⟩ := s
    cases stage with
    | called | requeued | threw => cases h
    | resolving candidates left =>
      cases left with
      | nil => cases h
      | cons id left =>
        have hremaining := good.remaining candidates (id :: left) rfl
        have member : id ∈ candidates := hremaining List.mem_cons_self
        obtain ⟨a, ha, hid, ended, -⟩ := good.candidates candidates (id :: left) rfl id member
        obtain ⟨hclock, -, htransact⟩ := transact_ok h
        obtain ⟨db, happly, b, hb, hbid, hover⟩ := resolves reached ⟨a, ha, hid, ended⟩ hclock
        obtain ⟨⟨e, he⟩, -⟩ | ⟨hok, hstage⟩ := htransact
        · rw [happly] at he
          cases he
        rw [happly, Except.ok.injEq] at hok
        subst hok
        refine ⟨by simp [hstage], ?_, ?_⟩
        · intro candidates' left' hstage'
          rw [hstage] at hstage'
          cases hstage'
          exact fun x hx => hremaining (List.mem_cons_of_mem _ hx)
        · intro candidates' left' hstage' id' hid'
          rw [hstage] at hstage'
          cases hstage'
          by_cases hsame : id' = id
          · exact ⟨b, hb, hbid.trans hsame.symm, .inl hover, fun _ => hover⟩
          · obtain ⟨c, hc, hcid, hcended, hcover⟩ := ended_later reached later
              (good.candidates candidates (id :: left) rfl id' hid')
            refine ⟨c, hc, hcid, hcended, fun hleft => hcover ?_⟩
            exact fun hmem => (List.mem_cons.mp hmem).elim hsame hleft

theorem good_reachable (hs : (system p).Reachable s) : Good s := by
  refine System.Leads.stable System.reachable_init hs ?_ fun s act s' hs good _ h => good.step hs h
  exact ⟨by simp [system], by simp [system], by simp [system]⟩

/-- After the scan the candidates of the call are fixed. -/
theorem candidates_fixed {candidates left : List String} (later : (system p).Later s s')
    (h : s.stage = .resolving candidates left) :
    s'.stage = .threw ∨ ∃ left, s'.stage = .resolving candidates left := by
  refine System.Leads.invariant (P := fun s => s.stage = .threw ∨
    ∃ left, s.stage = .resolving candidates left) later (.inr ⟨left, h⟩) ?_
  rintro s act s' hstage - hstep
  cases act with
  | other e =>
    obtain ⟨store, -, rfl⟩ := Option.map_eq_some_iff.mp hstep
    exact hstage
  | requeue now =>
    obtain ⟨hcalled, -⟩ := Option.ite_none_right_eq_some.mp hstep
    simp [hcalled] at hstage
  | scan now rows =>
    obtain ⟨⟨hrequeued, -⟩, -⟩ := Option.ite_none_right_eq_some.mp hstep
    simp [hrequeued] at hstage
  | resolve now =>
    obtain ⟨store, stage⟩ := s
    rcases hstage with rfl | ⟨left, rfl⟩
    · cases hstep
    · cases left with
      | nil => cases hstep
      | cons id left =>
        obtain ⟨-, -, ⟨-, hthrew⟩ | ⟨-, hnext⟩⟩ := transact_ok hstep
        · exact .inl hthrew
        · exact .inr ⟨left, hnext⟩

/-- A call that goes through candidates has made its scan. -/
theorem scanned_before (later : (system p).Later s s')
    (before : ∀ candidates left, s.stage ≠ .resolving candidates left)
    (after : ∃ candidates left, s'.stage = .resolving candidates left) :
    ∃ u now rows v, (system p).Later s u ∧ (system p).step u (.scan now rows) = some v ∧
      (system p).Later v s' := by
  obtain ⟨u, act, v, first, -, hstep, rest, absent, present⟩ := later.appears
    (P := fun s => ∃ candidates left, s.stage = .resolving candidates left)
    (fun ⟨candidates, left, hstage⟩ => before candidates left hstage) after
  cases act with
  | scan now rows => exact ⟨u, now, rows, v, first, hstep, rest⟩
  | other e =>
    obtain ⟨store, -, rfl⟩ := Option.map_eq_some_iff.mp hstep
    exact absurd present absent
  | requeue now =>
    obtain ⟨-, hstep⟩ := Option.ite_none_right_eq_some.mp hstep
    obtain ⟨candidates, left, hstage⟩ := present
    obtain ⟨-, -, ⟨-, hnext⟩ | ⟨-, hnext⟩⟩ := transact_ok hstep
    · cases hstage.symm.trans hnext
    · cases hstage.symm.trans hnext
  | resolve now =>
    obtain ⟨store, stage⟩ := u
    cases stage with
    | called | requeued | threw => cases hstep
    | resolving candidates left => exact absurd ⟨candidates, left, rfl⟩ absent

theorem recoverScan_scanned (now : Int) (db : Db) :
    ∃ rows, Scanned now db rows ∧ recoverScan now db = (rows.take 100).map (·.id) := by
  have total : Std.Total fun a b : AttemptRow => a.createdAt ≤ b.createdAt :=
    ⟨fun a b => le_total a.createdAt b.createdAt⟩
  have trans : IsTrans AttemptRow fun a b => a.createdAt ≤ b.createdAt :=
    ⟨fun _ _ _ => le_trans⟩
  exact ⟨_, ⟨List.perm_insertionSort _ _, List.pairwise_insertionSort _ _⟩, rfl⟩

/-- The next step of the call is possible at `now`, does its work and takes the call one stage
further: all due retries are requeued, every order of the expired attempts may be the answer of
the scan, and a candidate is over after its transaction. -/
structure Proceeds (p : PostgresStore) (s : State) (now : Int) : Prop where
  requeues : s.stage = .called → ∃ s', (system p).step s (.requeue now) = some s' ∧
    s'.stage = .requeued ∧ ∀ r ∈ s'.store.db.runs, ¬ retryDue now r
  answered : s.stage = .requeued → ∃ rows, Scanned now s.store.db rows
  scans : s.stage = .requeued → ∀ rows, Scanned now s.store.db rows → ∃ s',
    (system p).step s (.scan now rows) = some s' ∧
      s'.stage = .resolving ((rows.take 100).map (·.id)) ((rows.take 100).map (·.id))
  resolves : ∀ candidates id left, s.stage = .resolving candidates (id :: left) → ∃ s',
    (system p).step s (.resolve now) = some s' ∧ s'.stage = .resolving candidates left ∧
      ∀ a ∈ s'.store.db.attempts, a.id = id → ¬ a.status.live

theorem requeuedRuns_due {runs : List RunRow} {r : RunRow} (hr : r ∈ requeuedRuns now runs) :
    ¬ retryDue now r := by
  obtain ⟨r, -, rfl⟩ := Table.mem_update.mp hr
  by_cases due : retryDue now r
  · rw [if_pos due]
    simp [retryDue]
  · rw [if_neg due]
    exact due

theorem proceeds (hs : (system p).Reachable s) (hclock : s.store.clock ≤ now) :
    Proceeds p s now := by
  have reached := embeds.reachable hs
  have wf := (PostgresStore.reachable_wellFormed reached).toWellFormed
  constructor
  · intro hstage
    obtain ⟨db, hdb⟩ := recoverRequeue_total now wf.runs (reachable_numbered reached)
    have happly : p.apply now .recoverRequeue s.store.db = .ok db := hdb
    refine ⟨⟨⟨db, now⟩, .requeued⟩, ?_, rfl, fun r hr => ?_⟩
    · simp [system, step, transact, hstage, hclock, happly]
    · have runs : db.runs = requeuedRuns now s.store.db.runs :=
        congrArg (fun l : Ledger => l.runs) (recoverRequeue_ok wf hdb)
      exact requeuedRuns_due (runs ▸ hr)
  · intro _
    obtain ⟨rows, hrows, -⟩ := recoverScan_scanned now s.store.db
    exact ⟨rows, hrows⟩
  · intro hstage rows hrows
    exact ⟨_, if_pos ⟨hstage, hclock, hrows⟩, rfl⟩
  · intro candidates id left hstage
    have good := good_reachable hs
    have member := good.remaining candidates (id :: left) hstage List.mem_cons_self
    obtain ⟨a, ha, hid, ended, -⟩ := good.candidates candidates (id :: left) hstage id member
    obtain ⟨db, happly, b, hb, hbid, hover⟩ := resolves reached ⟨a, ha, hid, ended⟩ hclock
    have hstep : (system p).step s (.resolve now) =
        some ⟨⟨db, now⟩, .resolving candidates left⟩ := by
      simp [system, step, transact, hstage, hclock, happly]
    refine ⟨_, hstep, rfl, fun c hc hcid => ?_⟩
    have wf' := PostgresStore.reachable_wellFormed (embeds.reachable (hs.step hstep))
    obtain rfl := wf'.attempts.eq hc hb (hcid.trans hbid.symm)
    exact hover

/-- Wherever the call stands, it can run to its end. -/
theorem returns_later (hs : (system p).Reachable s) :
    ∃ s' candidates, (system p).Later s s' ∧ s'.stage = .resolving candidates [] := by
  have resolving : ∀ left candidates s, (system p).Reachable s →
      s.stage = .resolving candidates left →
      ∃ s', (system p).Later s s' ∧ s'.stage = .resolving candidates [] := by
    intro left
    induction left with
    | nil => exact fun candidates s _ hstage => ⟨s, .refl, hstage⟩
    | cons id left ih =>
      intro candidates s hs hstage
      obtain ⟨s₁, hstep, hnext, -⟩ :=
        (proceeds hs (le_refl _)).resolves candidates id left hstage
      obtain ⟨s', later, hreturned⟩ := ih candidates s₁ (hs.step hstep) hnext
      exact ⟨s', .trans (.single trivial hstep) later, hreturned⟩
  have requeued : ∀ s, (system p).Reachable s → s.stage = .requeued →
      ∃ s' candidates, (system p).Later s s' ∧ s'.stage = .resolving candidates [] := by
    intro s hs hstage
    have next := proceeds hs (le_refl _)
    obtain ⟨rows, hrows⟩ := next.answered hstage
    obtain ⟨s₁, hstep, hnext⟩ := next.scans hstage rows hrows
    obtain ⟨s', later, hreturned⟩ := resolving _ _ s₁ (hs.step hstep) hnext
    exact ⟨s', _, .trans (.single trivial hstep) later, hreturned⟩
  cases hstage : s.stage with
  | called =>
    obtain ⟨s₁, hstep, hnext, -⟩ := (proceeds hs (le_refl _)).requeues hstage
    obtain ⟨s', candidates, later, hreturned⟩ := requeued s₁ (hs.step hstep) hnext
    exact ⟨s', candidates, .trans (.single trivial hstep) later, hreturned⟩
  | requeued => exact requeued s hs hstage
  | resolving candidates left =>
    obtain ⟨s', later, hreturned⟩ := resolving left candidates s hs hstage
    exact ⟨s', candidates, later, hreturned⟩
  | threw => exact absurd hstage (good_reachable hs).returns

end Recover

/-- Recovery leaves nothing behind. A call of `recover` never throws and never gets stuck: each of
its steps is possible at any time and takes it one stage further, and it returns only after its
scan. When it returns, every candidate of the scan is over and no scan will ever see it again; the
candidates are all expired attempts, or the hundred oldest of them. An attempt that it fails
itself is failed once, as a timeout when the run was running past its execution deadline and as an
infrastructure failure otherwise. -/
theorem recover_leaves_nothing (p : PostgresStore) :
    (∀ s, (Recover.system p).Reachable s → s.stage ≠ .threw ∧
      (∀ now, s.store.clock ≤ now → Recover.Proceeds p s now) ∧
      ∃ s' candidates, (Recover.system p).Later s s' ∧ s'.stage = .resolving candidates []) ∧
    (∀ s candidates left, (Recover.system p).Reachable s → s.stage = .resolving candidates left →
      ∃ u now rows v, (Recover.system p).Reachable u ∧
        (Recover.system p).step u (.scan now rows) = some v ∧ (Recover.system p).Later v s) ∧
    (∀ (s s₁ s₂ : Recover.State) (now : Int) (rows : List AttemptRow) (candidates : List String),
      (Recover.system p).Reachable s → (Recover.system p).step s (.scan now rows) = some s₁ →
      (Recover.system p).Later s₁ s₂ → s₂.stage = .resolving candidates [] →
      let candidateRows := s.store.db.attempts.filter (expired now)
      candidates.length = min 100 candidateRows.length ∧
      (∀ id ∈ candidates, ∃ a ∈ candidateRows, a.id = id) ∧
      (∀ a ∈ candidateRows, a.id ∈ candidates ∨ 100 < candidateRows.length ∧
        ∀ b ∈ candidateRows, b.id ∈ candidates → b.createdAt ≤ a.createdAt) ∧
      ∀ t, p.system.Later s₂.store t → ∀ id ∈ candidates, (∃ a ∈ t.db.attempts, a.id = id) ∧
        ∀ a ∈ t.db.attempts, a.id = id → ¬ a.status.live ∧ ∀ later, ¬ expired later a) ∧
    (∀ (s s' : Recover.State) (now : Int), (Recover.system p).Reachable s →
      (Recover.system p).step s (.resolve now) = some s' → s'.store.db = s.store.db ∨
      ∃ r a failure reason, Recovered p.timing now s.store.db s'.store.db r a failure reason ∧
        ∀ t, p.system.Later s'.store t → ∃ a' ∈ t.db.attempts,
          (a.fail now reason none).Settles a' ∧
          ∀ again, recoverAttempt p.timing again a.id t.db = .ok t.db) := by
  refine ⟨fun s hs => ⟨(Recover.good_reachable hs).returns, fun now hclock =>
    Recover.proceeds hs hclock, Recover.returns_later hs⟩, ?_, ?_, ?_⟩
  · intro s candidates left hs hstage
    exact Recover.scanned_before hs (by simp [Recover.system]) ⟨candidates, left, hstage⟩
  · intro s s₁ s₂ now rows candidates hs hscan later hreturned candidateRows
    have hs₁ := hs.step hscan
    have hs₂ := hs₁.later later
    obtain ⟨⟨-, -, hperm, hsorted⟩, hscanned⟩ := Option.ite_none_right_eq_some.mp hscan
    obtain rfl := Option.some.inj hscanned
    have hcandidates : candidates = (rows.take 100).map (·.id) := by
      rcases Recover.candidates_fixed later rfl with hthrew | ⟨left, hleft⟩
      · exact absurd hthrew (Recover.good_reachable hs₂).returns
      · rw [hreturned] at hleft
        exact (Recover.Stage.resolving.inj hleft).1
    subst hcandidates
    refine ⟨?_, ?_, ?_, ?_⟩
    · simp [candidateRows, hperm.length_eq]
    · intro id hid
      obtain ⟨a, ha, rfl⟩ := List.mem_map.mp hid
      exact ⟨a, hperm.mem_iff.mp (List.mem_of_mem_take ha), rfl⟩
    · intro a ha
      have wf := (PostgresStore.reachable_wellFormed (Recover.embeds.reachable hs)).toWellFormed
      by_cases hmem : a ∈ rows.take 100
      · exact .inl (List.mem_map_of_mem hmem)
      have hdrop : a ∈ rows.drop 100 := by
        have hrow := hperm.mem_iff.mpr ha
        rw [← List.take_append_drop 100 rows] at hrow
        exact (List.mem_append.mp hrow).resolve_left hmem
      right
      constructor
      · have hrows : rows.length = candidateRows.length := hperm.length_eq
        have hlength := List.length_pos_of_mem hdrop
        rw [List.length_drop] at hlength
        omega
      · intro b hb hbid
        obtain ⟨c, hc, hcid⟩ := List.mem_map.mp hbid
        have hcrow := List.mem_filter.mp (hperm.mem_iff.mp (List.mem_of_mem_take hc))
        obtain rfl := wf.attempts.eq hcrow.1 (List.mem_of_mem_filter hb) hcid
        rw [← List.take_append_drop 100 rows] at hsorted
        exact (List.pairwise_append.mp hsorted).2.2 c hc a hdrop
    · intro t hlater id hid
      have reached := Recover.embeds.reachable hs₂
      obtain ⟨a, ha, rfl, -, hover⟩ :=
        (Recover.good_reachable hs₂).candidates _ _ hreturned id hid
      obtain ⟨a', ha', hsettles⟩ := settled_later reached hlater a ha (hover List.not_mem_nil)
      have hid' : a'.id = a.id := by rw [hsettles]
      refine ⟨⟨a', ha', hid'⟩, fun b hb hbid => ?_⟩
      have wf := (PostgresStore.reachable_wellFormed (reached.later hlater)).toWellFormed
      obtain rfl := wf.attempts.eq hb ha' (hbid.trans hid'.symm)
      have ended : ¬ b.status.live := by
        rw [hsettles.status]
        exact hover List.not_mem_nil
      exact ⟨ended, fun _ => Recover.not_expired ended⟩
  · intro s s' now hs hstep
    have reached := Recover.embeds.reachable hs
    have hs' := Recover.embeds.reachable (hs.step hstep)
    have good := Recover.good_reachable hs
    obtain ⟨store, stage⟩ := s
    cases stage with
    | called | requeued | threw => cases hstep
    | resolving candidates left =>
      cases left with
      | nil => cases hstep
      | cons id left =>
        have member : id ∈ candidates := good.remaining _ _ rfl List.mem_cons_self
        obtain ⟨a, ha, rfl, -⟩ := good.candidates candidates (id :: left) rfl id member
        obtain ⟨hclock, hstore, -⟩ := Recover.transact_ok hstep
        have hdb : s'.store.db = p.commit now (.recoverAttempt a.id) store.db := by rw [hstore]
        rw [PostgresStore.commit] at hdb
        rcases recoverAttempt_spec reached ha now with
          ⟨-, hsame⟩ | ⟨db, r, failure, reason, hok, recovered⟩
        · left
          have happly : p.apply now (.recoverAttempt a.id) store.db = .ok store.db := hsame
          rw [hdb, happly]
        · right
          have happly : p.apply now (.recoverAttempt a.id) store.db = .ok db := hok
          rw [happly] at hdb
          rw [hdb]
          refine ⟨r, a, failure, reason, recovered, fun t hlater => ?_⟩
          have hfailed : a.fail now reason none ∈ s'.store.db.attempts := by
            rw [hdb]
            exact recovered.failed_mem
          obtain ⟨a', ha', hsettles⟩ := settled_later hs' hlater _ hfailed
            (by simp [AttemptStatus.live])
          refine ⟨a', ha', hsettles, fun again => ?_⟩
          have hid : a'.id = a.id := by rw [hsettles]; rfl
          have ended : ¬ a'.status.live := by simp [hsettles.status, AttemptStatus.live]
          rcases recoverAttempt_spec (hs'.later hlater) ha' again with
            ⟨-, hsame⟩ | ⟨_, _, _, _, -, recovered'⟩
          · rw [← hid]
            exact hsame
          · exact absurd recovered'.live ended

namespace Sample

def laterRunId : RandomId := ⟨"00000000000000000000000000000007", by decide⟩

def laterAttemptId : RandomId := ⟨"00000000000000000000000000000008", by decide⟩

/-- Two attempts, one of which was started. -/
def overdue : List PostgresStore.Event :=
  [⟨1, .submit runId spec "key" "fingerprint"⟩, ⟨2, .submit laterRunId spec "other" "fingerprint"⟩,
    ⟨3, .registerWorker "worker" "session" ⟨4000, 4096⟩ {}⟩,
    ⟨4, .assign attemptId [] "worker" "session"⟩, ⟨5, .start attemptId.text 1 "runner" ""⟩,
    ⟨6, .assign laterAttemptId [] "worker" "session"⟩]

/-- The answer of the scan, as the table holds it. -/
def scannedRows (s : Recover.State) : List AttemptRow :=
  s.store.db.attempts.filter (Runyard.expired (seconds 4000))

end Sample

open Sample in
/-- One call resolves both attempts, the one that ran too long as a timeout. -/
theorem recover_leaves_nothing_two : ∃ s s₁ s₂ : Recover.State,
    (Recover.system store).Reachable s ∧
    (Recover.system store).step s (.scan (seconds 4000) (scannedRows s)) = some s₁ ∧
    Recover.Proceeds store s₁ (seconds 4000) ∧ (Recover.system store).Later s₁ s₂ ∧
    s₂.store.db.attempts.map (·.reason) = [some "TIMEOUT", some "LAUNCH_TIMEOUT"] ∧
    ∀ t, store.system.Later s₂.store t →
      ∀ id ∈ [attemptId.text, laterAttemptId.text], ∃ a ∈ t.db.attempts, a.id = id ∧
        ∀ b ∈ t.db.attempts, b.id = id → ¬ b.status.live := by
  have reached : ((Recover.system store).replay (fun _ _ => true) (Recover.system store).init
      (overdue.map .other ++ [.requeue (seconds 4000)])).any (fun s =>
        ((Recover.system store).step s (.scan (seconds 4000) (scannedRows s))).any fun s₁ =>
          ((Recover.system store).replay (fun _ _ => true) s₁
            [.resolve (seconds 4000), .resolve (seconds 4001)]).any fun s₂ =>
              s₁.store.clock = seconds 4000 &&
              s₂.stage = .resolving [attemptId.text, laterAttemptId.text] [] &&
              s₂.store.db.attempts.map (·.reason) = [some "TIMEOUT", some "LAUNCH_TIMEOUT"]) := by
    decide +kernel
  obtain ⟨s, hs, scanned⟩ := (Option.any_eq_true _ _).mp reached
  obtain ⟨s₁, hscan, resolved⟩ := (Option.any_eq_true _ _).mp scanned
  obtain ⟨s₂, hresolved, state⟩ := (Option.any_eq_true _ _).mp resolved
  simp only [Bool.and_eq_true, decide_eq_true_eq] at state
  obtain ⟨⟨hclock, hreturned⟩, reasons⟩ := state
  have hs := System.replay_reachable hs
  have later : (Recover.system store).Later s₁ s₂ := (System.replay_leads hresolved).later
  obtain ⟨calls, -, returned, -⟩ := recover_leaves_nothing store
  obtain ⟨-, -, -, ended⟩ := returned s s₁ s₂ _ _ _ hs hscan later hreturned
  refine ⟨s, s₁, s₂, hs, hscan, (calls s₁ (hs.step hscan)).2.1 _ (le_of_eq hclock), later, reasons,
    fun t hlater id hid => ?_⟩
  obtain ⟨⟨a, ha, hid'⟩, left⟩ := ended t hlater id hid
  exact ⟨a, ha, hid', fun b hb hbid => (left b hb hbid).1⟩

end Runyard
