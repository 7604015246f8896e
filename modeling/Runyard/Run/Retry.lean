import Runyard.Run.Trace

/-!
# The retry law

Consecutive attempts of a run are separated by a recorded failure that the retry policy
accepts and by its delay. A run fails for good only when the policy refuses.
-/

namespace Runyard

/-- The failure that the recorded reason and exit code stand for. The store itself records
no exit code; a runner reports a nonzero one. -/
def AttemptRow.cause (a : AttemptRow) : Option Failure :=
  match a.exitCode, a.reason with
  | none, some reason =>
    if reason = "TIMEOUT" then some .timeout
    else if ["LAUNCH_TIMEOUT", "LEASE_EXPIRED", "FINALIZATION_TIMEOUT",
        "RUNTIME_STOPPED"].contains reason then some .infrastructure
    else none
  | some exitCode, some reason => if exitCode = 0 then none else some (reportedFailure reason)
  | _, none => none

/-- The causes that earn another attempt while the budget lasts. -/
def Failure.retryable (policy : RetryPolicy) : Failure → Bool
  | .infrastructure => true
  | .timeout => policy.retryTimeout
  | .exitError => policy.retryExit
  | .cancelled => false

theorem shouldRetry_iff {policy : RetryPolicy} {n : Int} {failure : Failure} :
    shouldRetry policy n failure ↔ n < policy.maxAttempts ∧ failure.retryable policy := by
  by_cases hn : n < policy.maxAttempts
  · cases failure <;> simp [shouldRetry, Failure.retryable, hn, Int.not_le.mpr hn]
  · simp [shouldRetry, hn, Int.not_lt.mp hn]

theorem Cause.recorded {now : Int} {r : RunRow} {a : AttemptRow} {op : Op} {failure : Failure}
    {reason : String} {exitCode : Option Int} (cause : Cause now r a op failure reason exitCode) :
    (a.fail now reason exitCode).cause = some failure := by
  cases cause with
  | @reported _ reason exitCode _ _ _ nonzero =>
    have hcode : (a.fail now (if reason = "" then "EXIT_ERROR" else reason)
        (some exitCode)).cause =
        some (reportedFailure (if reason = "" then "EXIT_ERROR" else reason)) := by
      simp [AttemptRow.cause, nonzero]
    rw [hcode]
    by_cases hempty : reason = ""
    · simp [hempty, reportedFailure]
    · simp [hempty]
  | launchTimeout | timeout | finalizationTimeout | leaseExpired | stoppedLate | stopped => rfl

theorem validateSubmission_maxAttempts {spec : RunSpec} (h : validateSubmission spec = .ok ()) :
    1 ≤ spec.retry.maxAttempts := by
  simp only [validateSubmission, validate, Result.bind_ok, Result.require_ok] at h
  obtain ⟨_, ⟨_, _, _, _, _, _, _, _, _, _, _, _, _, _, _, _, _, _, _, _, _, hmax, _⟩, _⟩ := h
  simp only [Bool.and_eq_true, decide_eq_true_eq] at hmax
  exact hmax.1

/-- The columns of an attempt that the retry law is about. -/
structure Outcome where
  generation : Int
  status : AttemptStatus
  cause : Option Failure
  finishedAt : Option Int
  createdAt : Int

def AttemptRow.outcome (a : AttemptRow) : Outcome :=
  ⟨a.generation, a.status, a.cause, a.finishedAt, a.createdAt⟩

namespace Outcome

/-- The attempt failed for a cause that the policy retries, and its delay is over at `time`. -/
def RetriedBy (timing : Timing) (policy : RetryPolicy) (a : Outcome) (time : Int) : Prop :=
  a.status = .failed ∧ (∃ failure, a.cause = some failure ∧
    shouldRetry policy a.generation failure) ∧
  ∃ t, a.finishedAt = some t ∧
    t + seconds (retryDelay a.generation timing.retryBaseSeconds timing.retryMaxSeconds) ≤ time

/-- The attempt failed for a cause that the policy refuses. -/
def Refused (policy : RetryPolicy) (a : Outcome) : Prop :=
  a.status = .failed ∧ ∃ failure, a.cause = some failure ∧ ¬ shouldRetry policy a.generation failure

end Outcome

namespace History

def outcomes (h : History) : List Outcome := h.attempts.map (·.outcome)

structure Retried (timing : Timing) (h : History) : Prop where
  valid : 1 ≤ h.run.spec.retry.maxAttempts
  budget : (h.attempts.length : Int) ≤ h.run.spec.retry.maxAttempts
  chain : h.outcomes.IsChain fun a b => a.RetriedBy timing h.run.spec.retry b.createdAt
  waiting : h.run.status = .queued ∨ h.run.status = .retryWait →
    ∀ a, h.outcomes.getLast? = some a → a.RetriedBy timing h.run.spec.retry h.run.availableAt
  refused : h.run.status = .failed →
    ∀ a, h.outcomes.getLast? = some a → a.Refused h.run.spec.retry

variable {timing : Timing} {h : History}

theorem retried_born {r : RunRow} {detail : String} {now : Int} (fresh : r.Fresh now) :
    (History.born r detail now).Retried timing := by
  have hmax := validateSubmission_maxAttempts fresh.valid
  refine ⟨hmax, ?_, .nil, ?_, ?_⟩
  · exact le_trans (by simp [born]) hmax
  · intro _ a ha
    cases ha
  · intro _ a ha
    cases ha

theorem Retried.rewrite (hr : h.Retried timing) {r' : RunRow} {attempts : List AttemptRow}
    {events : List EventRow} (spec : r'.spec = h.run.spec)
    (available : r'.availableAt = h.run.availableAt)
    (outcomes : attempts.map (·.outcome) = h.outcomes)
    (status : r'.status = h.run.status ∨ r'.status = .queued ∧ h.run.status = .retryWait) :
    Retried timing ⟨r', attempts, events⟩ := by
  have hlength : attempts.length = h.attempts.length := by
    simpa [History.outcomes] using congrArg List.length outcomes
  constructor
  · simpa [spec] using hr.valid
  · simpa [spec, hlength] using hr.budget
  · simpa [History.outcomes, spec, outcomes] using hr.chain
  · intro hwaits
    have hold : h.run.status = .queued ∨ h.run.status = .retryWait := by
      rcases status with hstatus | ⟨_, hold⟩
      · simpa [hstatus] using hwaits
      · exact .inr hold
    simpa [History.outcomes, spec, available, outcomes] using hr.waiting hold
  · intro hfailed
    have hold : h.run.status = .failed := by
      rcases status with hstatus | ⟨hstatus, _⟩
      · simpa [hstatus] using hfailed
      · simp [hstatus] at hfailed
    simpa [History.outcomes, spec, outcomes] using hr.refused hold

theorem Retried.advance (hr : h.Retried timing) (hc : h.Coupled) (hp : h.Proper)
    {r' : RunRow} {a a' : AttemptRow} {events : List EventRow} (ha : a ∈ h.attempts)
    (active : h.run.activeAttempt = some a.id) (same : a.SameIdentity a')
    (spec : r'.spec = h.run.spec)
    (waiting : r'.status = .queued ∨ r'.status = .retryWait →
      a'.outcome.RetriedBy timing h.run.spec.retry r'.availableAt)
    (refused : r'.status = .failed → a'.outcome.Refused h.run.spec.retry) :
    Retried timing ⟨r', Table.replace (·.id) a' h.attempts, events⟩ := by
  obtain ⟨past, hpast, hreplace⟩ := hc.replace_active hp ha active same.id
  have hbudget := hr.budget
  have hchain := hr.chain
  simp only [History.outcomes, hpast, List.map_append, List.map_singleton] at hchain hbudget
  constructor
  · simpa [spec] using hr.valid
  · simpa [hreplace, spec] using hbudget
  · simp only [History.outcomes, hreplace, List.map_append, List.map_singleton, spec]
    rw [List.isChain_append] at hchain ⊢
    refine ⟨hchain.1, .singleton _, ?_⟩
    intro x hx y hy
    have hlast := hchain.2.2 x hx a.outcome rfl
    simp only [List.head?_cons, Option.mem_def, Option.some.injEq] at hy
    subst hy
    simpa [AttemptRow.outcome, same.createdAt] using hlast
  · intro hwaits b hb
    simp only [History.outcomes, hreplace, List.map_append, List.map_singleton,
      List.getLast?_concat, Option.some.injEq] at hb
    subst hb
    rw [spec]
    exact waiting hwaits
  · intro hfailed b hb
    simp only [History.outcomes, hreplace, List.map_append, List.map_singleton,
      List.getLast?_concat, Option.some.injEq] at hb
    subst hb
    rw [spec]
    exact refused hfailed

theorem Retried.move (hr : h.Retried timing) (hc : h.Coupled) (hp : h.Proper) {now : Int}
    {op : Op} {r' : RunRow} {a a' : AttemptRow} {events : List EventRow} (ha : a ∈ h.attempts)
    (move : Move timing now h.run a op r' a' events) :
    Retried timing ⟨r', Table.replace (·.id) a' h.attempts, h.events ++ events⟩ := by
  have same := move.attempt_identity
  have unchanged : a'.outcome = a.outcome → r' = h.run →
      Retried timing ⟨r', Table.replace (·.id) a' h.attempts, h.events ++ events⟩ := by
    rintro houtcome rfl
    refine hr.rewrite rfl rfl ?_ (.inl rfl)
    refine Table.map_replace _ fun b hb hid => ?_
    rw [hp.keyed.eq hb ha (hid.trans same.id), houtcome]
  cases move with
  | claimed active _ _ _ _ =>
    exact hr.advance hc hp ha active same rfl (by simp) (by simp)
  | finalizing owned _ =>
    exact hr.advance hc hp ha owned.active same rfl (by simp) (by simp)
  | completed owned _ _ =>
    exact hr.advance hc hp ha owned.active same rfl (by simp) (by simp)
  | @failed _ failure _ _ retry delay active cause decision waits =>
    refine hr.advance hc hp ha active same rfl ?_ ?_
    · intro hwaits
      have hretry : retry = true := by
        cases retry with
        | true => rfl
        | false => simp at hwaits
      refine ⟨rfl, ⟨failure, cause.recorded, ?_⟩, now, rfl, ?_⟩
      · rw [← hretry, decision]
        rfl
      · simp [AttemptRow.outcome, waits]
    · intro hfailed
      have hretry : retry = false := by
        cases retry with
        | false => rfl
        | true => simp at hfailed
      refine ⟨rfl, failure, cause.recorded, ?_⟩
      rw [Bool.not_eq_true, ← hretry, decision]
      rfl
  | renewed | acknowledged | launched | jobLaunched => exact unchanged rfl rfl

theorem Retried.place (hr : h.Retried timing) (hc : h.Coupled) {now : Int} {attempt : RandomId}
    {worker : String} {events : List EventRow} (queued : h.run.status = .queued)
    (available : h.run.availableAt ≤ now) :
    Retried timing ⟨(h.run.activate (newAttempt timing now attempt worker h.run)).count now,
      h.attempts ++ [newAttempt timing now attempt worker h.run], events⟩ := by
  have waiting := hr.waiting (.inl queued)
  constructor
  · exact hr.valid
  · rcases List.eq_nil_or_concat' h.attempts with hnil | ⟨past, a, hpast⟩
    · simpa [hnil] using hr.valid
    · have hlast : h.outcomes.getLast? = some a.outcome := by
        simp [History.outcomes, hpast]
      obtain ⟨_, ⟨failure, _, hretry⟩, _⟩ := waiting _ hlast
      have hbudget : a.generation < h.run.spec.retry.maxAttempts := shouldRetry_budget hretry
      have hgenerations := hc.generations
      simp only [hpast, List.map_append, List.map_singleton, List.length_append,
        List.length_singleton, upTo_succ] at hgenerations
      have hnumber := (List.append_inj' hgenerations rfl).2
      simp only [List.cons.injEq, and_true] at hnumber
      simp [hpast]
      omega
  · simp only [History.outcomes, List.map_append, List.map_singleton]
    refine List.isChain_append.mpr ⟨hr.chain, .singleton _, ?_⟩
    intro x hx y hy
    obtain ⟨hfailed, hcause, t, hfinished, hdelay⟩ := waiting x hx
    simp only [List.head?_cons, Option.mem_def, Option.some.injEq] at hy
    subst hy
    exact ⟨hfailed, hcause, t, hfinished, le_trans hdelay available⟩
  · simp
  · simp

theorem Retried.cancel (hr : h.Retried timing) {now : Int} {events : List EventRow} :
    Retried timing ⟨(h.run.enter .cancelled).count now,
      Table.update (fun a => a.status.live) (fun a => a.cancel now) h.attempts, events⟩ := by
  constructor
  · exact hr.valid
  · simpa using hr.budget
  · have hchain := hr.chain
    simp only [History.outcomes, Table.update, List.map_map, List.isChain_map] at hchain ⊢
    refine hchain.imp ?_
    intro a b hab
    have hfailed : a.status = .failed := hab.1
    have hdead : ¬ a.status.live := by simp [hfailed, AttemptStatus.live]
    have hcreated : (if b.status.live then b.cancel now else b).createdAt = b.createdAt := by
      split
      · rfl
      · rfl
    simpa [AttemptRow.outcome, hdead, hcreated] using hab
  · simp
  · simp

theorem retried_step {now : Int} {h' : History} (hp : h.Proper) (hc : h.Coupled)
    (hr : h.Retried timing) (step : Step timing now h h') : h'.Retried timing := by
  cases step with
  | moved member move => exact hr.move hc hp member move
  | placed queued available _ => exact hr.place hc queued available
  | @cleaned a member _ =>
    refine hr.rewrite rfl rfl ?_ (.inl rfl)
    refine Table.map_replace _ fun b hb hid => ?_
    rw [hp.keyed.eq hb member hid]
    rfl
  | cancelled _ _ => exact hr.cancel
  | requeued due =>
    simp only [retryDue, Bool.and_eq_true, decide_eq_true_eq] at due
    exact hr.rewrite rfl rfl rfl (.inr ⟨rfl, due.1⟩)

/-- The attempts of a run with a terminal status keep their identities, and no other joins. -/
theorem terminal_attempts {now : Int} {h' : History} (terminal : h.run.status.terminal)
    (step : Step timing now h h') :
    h'.attempts.map (·.id) = h.attempts.map (·.id) := by
  cases step with
  | moved _ _ => exact Table.map_replace _ fun b _ hid => hid.symm
  | placed queued _ _ => simp [queued, RunStatus.terminal] at terminal
  | cleaned _ _ => exact Table.map_replace _ fun b _ hid => hid.symm
  | cancelled _ unfinished => exact absurd terminal unfinished
  | requeued _ => rfl

/-- Attempts with consecutive generations are neighbours. -/
theorem Retried.between (hr : h.Retried timing) (hc : h.Coupled) {a b : AttemptRow}
    (ha : a ∈ h.attempts) (hb : b ∈ h.attempts) (next : b.generation = a.generation + 1) :
    a.outcome.RetriedBy timing h.run.spec.retry b.createdAt := by
  have number : ∀ (i : Nat) (hi : i < h.attempts.length),
      h.attempts[i].generation = (i : Int) + 1 := by
    intro i hi
    have hmap : (h.attempts.map (·.generation))[i]? = (upTo h.attempts.length)[i]? := by
      rw [hc.generations]
    simpa [upTo, hi] using hmap
  obtain ⟨i, hi, rfl⟩ := List.getElem_of_mem ha
  obtain ⟨j, hj, rfl⟩ := List.getElem_of_mem hb
  rw [number i hi, number j hj] at next
  have hji : j = i + 1 := by omega
  subst hji
  have hchain := List.isChain_iff_getElem.mp hr.chain i (by simpa [History.outcomes] using hj)
  simpa [History.outcomes, AttemptRow.outcome] using hchain

/-- An attempt that is not the first has a predecessor. -/
theorem Coupled.predecessor (hc : h.Coupled) {b : AttemptRow} (hb : b ∈ h.attempts)
    (later : 1 < b.generation) : ∃ a ∈ h.attempts, b.generation = a.generation + 1 := by
  have hmem : b.generation ∈ h.attempts.map (·.generation) := List.mem_map_of_mem hb
  rw [hc.generations, upTo] at hmem
  obtain ⟨i, hi, hib⟩ := List.mem_map.mp hmem
  have hlength := List.mem_range.mp hi
  have hprevious : ((i - 1 : Nat) : Int) + 1 ∈ h.attempts.map (·.generation) := by
    rw [hc.generations, upTo]
    refine List.mem_map.mpr ⟨i - 1, List.mem_range.mpr (by omega), rfl⟩
  obtain ⟨a, ha, hgeneration⟩ := List.mem_map.mp hprevious
  refine ⟨a, ha, ?_⟩
  omega

end History

section Reachable

variable {p : PostgresStore} {s : PostgresStore.State}

theorem retried_reachable (hs : p.system.Reachable s) :
    ∀ r ∈ s.db.runs, (s.db.history r).Retried p.timing := by
  intro r hr
  have both := PostgresStore.history_invariant (P := fun _ h => h.Coupled ∧ h.Retried p.timing)
    (fun now r detail fresh =>
      ⟨History.coupled_born r detail now fresh, History.retried_born fresh⟩)
    (fun _ _ _ _ hcr => hcr)
    (fun _ _ _ _ _ hp hcr step =>
      ⟨History.coupled_step hp hcr.1 step, History.retried_step hp hcr.1 hcr.2 step⟩) hs r hr
  exact both.2

theorem terminal_attempts_later {s' : PostgresStore.State} (hs : p.system.Reachable s)
    (later : p.system.Later s s') : ∀ r ∈ s.db.runs, r.status.terminal →
      (s'.db.attemptsOf r.id).map (·.id) = (s.db.attemptsOf r.id).map (·.id) := by
  intro r hr terminal
  obtain ⟨r', _, hid, hkept⟩ := history_later
    (R := fun _ h _ h' => h.run.status.terminal → h'.run.status = h.run.status ∧
      h'.attempts.map (·.id) = h.attempts.map (·.id))
    (fun _ => coupled_reachable)
    (fun _ _ _ _ _ => ⟨rfl, rfl⟩)
    (fun _ _ _ _ _ _ first second terminal => by
      obtain ⟨hstatus, hids⟩ := first terminal
      rw [← hstatus] at terminal
      obtain ⟨hstatus', hids'⟩ := second terminal
      exact ⟨hstatus'.trans hstatus, hids'.trans hids⟩)
    (fun _ _ _ _ _ hp hc step terminal =>
      ⟨History.terminal_step hp hc terminal step, History.terminal_attempts terminal step⟩)
    hs later r hr
  have hids := (hkept terminal).2
  simpa [Journal.history, hid] using hids

/-- The number of attempts, the causes and delays between them, and the end of retrying. -/
theorem retry_law (p : PostgresStore) {s : PostgresStore.State} (hs : p.system.Reachable s) :
    ∀ r ∈ s.db.runs,
    let attempts := s.db.attemptsOf r.id
    let policy := r.spec.retry
    ((attempts.length : Int) = r.generation ∧ r.generation ≤ policy.maxAttempts) ∧
    (∀ b ∈ attempts, 1 < b.generation → ∃ a ∈ attempts, b.generation = a.generation + 1) ∧
    (∀ a ∈ attempts, ∀ b ∈ attempts, b.generation = a.generation + 1 →
      a.status = .failed ∧ a.generation < policy.maxAttempts ∧
      (∃ failure, a.cause = some failure ∧ failure.retryable policy ∧
        shouldRetry policy a.generation failure) ∧
      ∃ t, a.finishedAt = some t ∧
        t + seconds (retryDelay a.generation p.timing.retryBaseSeconds p.timing.retryMaxSeconds) ≤
          b.createdAt) ∧
    (r.status = .failed → ∃ a ∈ attempts, r.activeAttempt = some a.id ∧ a.status = .failed ∧
      ∃ failure, a.cause = some failure ∧ ¬ shouldRetry policy a.generation failure) ∧
    (r.status = .cancelled ∨ r.status = .succeeded → ∀ s', p.system.Later s s' →
      (s'.db.attemptsOf r.id).map (·.id) = attempts.map (·.id)) := by
  intro r hr attempts policy
  have hc := coupled_reachable hs r hr
  have hretried := retried_reachable hs r hr
  have hp := Journal.history_proper (PostgresStore.reachable_wellFormed hs).toWellFormed r
  have hcount : r.generation = attempts.length := hc.count
  refine ⟨⟨hcount.symm, ?_⟩, ?_, ?_, ?_, ?_⟩
  · rw [hcount]
    exact hretried.budget
  · exact fun b hb later => hc.predecessor hb later
  · intro a ha b hb next
    obtain ⟨hfailed, ⟨failure, hcause, hretry⟩, hdelay⟩ := hretried.between hc ha hb next
    obtain ⟨hbudget, hretryable⟩ := shouldRetry_iff.mp hretry
    exact ⟨hfailed, hbudget, ⟨failure, hcause, hretryable, hretry⟩, hdelay⟩
  · intro hfailed
    have hstatus : (s.db.history r).run.status = .failed := hfailed
    obtain ⟨a, ha, hactive, _, _⟩ := hc.busy hp (by simp [hstatus])
    obtain ⟨past, hpast⟩ := hc.split hp ha hactive
    have hlast : (s.db.history r).outcomes.getLast? = some a.outcome := by
      simp [History.outcomes, hpast]
    obtain ⟨hstatusA, hrefused⟩ := hretried.refused hstatus _ hlast
    exact ⟨a, ha, hactive, hstatusA, hrefused⟩
  · intro hfinal s' later
    refine terminal_attempts_later hs later r hr ?_
    rcases hfinal with hfinal | hfinal <;> simp [hfinal, RunStatus.terminal]

end Reachable

/-! ## A retried run -/

namespace Sample

def requeued : PostgresStore.State :=
  ⟨store.commit (seconds 50) .recoverRequeue expired.db, seconds 50⟩

def alive : PostgresStore.State :=
  ⟨store.commit (seconds 51) (.workerHeartbeat "worker" "session") requeued.db, seconds 51⟩

theorem nextId_digits : "00000000000000000000000000000003".toList.length = 32 ∧
    "00000000000000000000000000000003".toList.all lowerHex := by decide

def nextId : RandomId := ⟨"00000000000000000000000000000003", nextId_digits⟩

def retried : PostgresStore.State :=
  ⟨store.commit (seconds 52) (.assign nextId [] "worker" "session") alive.db, seconds 52⟩

theorem requeued_reachable : store.system.Reachable requeued :=
  store.reachable_commit expired_reachable _ (by decide)

theorem alive_reachable : store.system.Reachable alive :=
  store.reachable_commit requeued_reachable _ (by decide)

theorem retried_sample_reachable : store.system.Reachable retried :=
  store.reachable_commit alive_reachable _ (by decide)

end Sample

theorem retry_law_retried : ∃ r ∈ Sample.retried.db.runs, r.generation = 2 ∧
    ((Sample.retried.db.attemptsOf r.id).length : Int) = r.generation ∧
    r.generation ≤ r.spec.retry.maxAttempts := by
  have second : ∃ r ∈ Sample.retried.db.runs, r.generation = 2 := by decide +kernel
  obtain ⟨r, hr, hgeneration⟩ := second
  exact ⟨r, hr, hgeneration, (retry_law Sample.store Sample.retried_sample_reachable r hr).1⟩

end Runyard
