import Runyard.Run.Retry
import Runyard.Runs

/-!
# The progress of a run

Every change of status, attempt or generation is an event, and the retry budget bounds the events
that a run can have. A run of the store that goes on forever therefore leaves each run alone from
some moment on.
-/

namespace Runyard

/-- What of a run the lifecycle is about. -/
structure RunPhase where
  status : RunStatus
  generation : Int
  activeAttempt : Option String
  deriving DecidableEq

def RunRow.phase (r : RunRow) : RunPhase := ⟨r.status, r.generation, r.activeAttempt⟩

/-- The most events that a run with so many attempts can have had in a status. An attempt comes
with five: it is assigned, started and finalized, it ends, and the run is queued again. -/
def pace (budget generation : Int) : RunStatus → Int
  | .queued => 5 * generation + 1
  | .starting => 5 * generation - 3
  | .running => 5 * generation - 2
  | .finalizing => 5 * generation - 1
  | .retryWait | .succeeded | .failed => 5 * generation
  | .cancelled => 5 * budget

namespace History

variable {timing : Timing} {now : Int} {h h' : History}

def Paced (h : History) : Prop :=
  h.run.eventSequence ≤ pace h.run.spec.retry.maxAttempts h.run.generation h.run.status

/-- A run that waits for its next attempt has budget for it. -/
theorem Retried.spare (hr : h.Retried timing) (hc : h.Coupled)
    (waits : h.run.status = .queued ∨ h.run.status = .retryWait) :
    h.run.generation < h.run.spec.retry.maxAttempts := by
  have count := hc.count
  rcases List.eq_nil_or_concat' h.attempts with none | ⟨past, a, last⟩
  · have valid := hr.valid
    rw [none] at count
    simp only [List.length_nil, Nat.cast_zero] at count
    omega
  · have latest : h.outcomes.getLast? = some a.outcome := by
      simp [History.outcomes, last]
    obtain ⟨_, ⟨failure, _, retry⟩, _⟩ := hr.waiting waits _ latest
    have budget : a.generation < h.run.spec.retry.maxAttempts := shouldRetry_budget retry
    have number := hc.generations
    simp only [last, List.map_append, List.map_singleton, List.length_append,
      List.length_singleton, upTo_succ] at number
    have final := (List.append_inj' number rfl).2
    simp only [List.cons.injEq, and_true] at final
    simp only [last, List.length_append, List.length_singleton, Nat.cast_add, Nat.cast_one] at count
    omega

theorem Retried.within (hr : h.Retried timing) (hc : h.Coupled) :
    h.run.generation ≤ h.run.spec.retry.maxAttempts :=
  hc.count ▸ hr.budget

theorem Paced.bound (paced : h.Paced) (hr : h.Retried timing) (hc : h.Coupled) :
    h.run.eventSequence ≤ 5 * h.run.spec.retry.maxAttempts := by
  have within := hr.within hc
  have spare := hr.spare hc
  have le := paced
  rw [Paced] at le
  cases status : h.run.status with
  | queued =>
    have := spare (.inl status)
    rw [status, pace] at le
    omega
  | starting | running | finalizing | retryWait | succeeded | failed | cancelled =>
    rw [status, pace] at le
    omega

theorem paced_born {r : RunRow} {detail : String} (fresh : r.Fresh now) :
    (History.born r detail now).Paced := by
  simp [Paced, born, fresh.status, fresh.generation, fresh.eventSequence, pace]

theorem Paced.record (paced : h.Paced) {r' : RunRow} {attempts : List AttemptRow}
    {events : List EventRow} (count : r'.eventSequence = h.run.eventSequence + 1)
    (room : pace h.run.spec.retry.maxAttempts h.run.generation h.run.status + 1 ≤
      pace r'.spec.retry.maxAttempts r'.generation r'.status) :
    Paced ⟨r', attempts, events⟩ := by
  have le := paced
  rw [Paced] at le ⊢
  dsimp only
  omega

theorem Paced.move (paced : h.Paced) (hc : h.Coupled) (hp : h.Proper) {op : Op} {r' : RunRow}
    {a a' : AttemptRow} {attempts : List AttemptRow} {events rows : List EventRow}
    (ha : a ∈ h.attempts) (move : Move timing now h.run a op r' a' events) :
    Paced ⟨r', attempts, rows⟩ := by
  cases move with
  | claimed _ status | finalizing _ status | completed _ _ status =>
    refine paced.record rfl ?_
    rw [status]
    change pace _ _ _ + 1 ≤ pace h.run.spec.retry.maxAttempts h.run.generation _
    simp only [RunRow.count_status, RunRow.enter_status, pace]
    omega
  | @failed _ _ _ _ retry _ active cause _ _ =>
    have live := hc.cause_live hp ha active cause
    refine paced.record rfl ?_
    have ended : pace h.run.spec.retry.maxAttempts h.run.generation
        (if retry then .retryWait else .failed) = 5 * h.run.generation := by
      cases retry <;> rfl
    change pace _ _ _ + 1 ≤ pace h.run.spec.retry.maxAttempts h.run.generation
      (if retry then .retryWait else .failed)
    rw [ended]
    cases status : h.run.status with
    | starting | running | finalizing =>
      simp only [pace]
      omega
    | queued | retryWait | succeeded | failed | cancelled =>
      rw [status] at live
      cases live
  | renewed | acknowledged | launched | jobLaunched => exact paced

theorem paced_step (hp : h.Proper) (hc : h.Coupled) (hr : h.Retried timing) (paced : h.Paced)
    (step : Step timing now h h') : h'.Paced := by
  cases step with
  | moved member move => exact paced.move hc hp member move
  | placed queued _ _ =>
    refine paced.record rfl ?_
    rw [queued]
    change 5 * h.run.generation + 1 + 1 ≤ 5 * (h.run.generation + 1) - 3
    omega
  | cleaned _ _ => exact paced
  | cancelled _ unfinished =>
    refine paced.record rfl ?_
    have within := hr.within hc
    have spare := hr.spare hc
    change pace _ _ _ + 1 ≤ 5 * h.run.spec.retry.maxAttempts
    cases status : h.run.status with
    | queued =>
      have room := spare (.inl status)
      simp only [pace]
      omega
    | retryWait =>
      have room := spare (.inr status)
      simp only [pace]
      omega
    | starting | running | finalizing =>
      simp only [pace]
      omega
    | succeeded | failed | cancelled =>
      rw [status] at unfinished
      exact absurd rfl unfinished
  | requeued due =>
    simp only [retryDue, Bool.and_eq_true, decide_eq_true_eq] at due
    refine paced.record rfl ?_
    rw [due.1]
    exact le_refl _

/-- How the run row of a history goes on: its phase changes with an event only. -/
structure Advances (h h' : History) : Prop where
  spec : h'.run.spec = h.run.spec
  forward : h.run.eventSequence ≤ h'.run.eventSequence
  still : h'.run.eventSequence = h.run.eventSequence → h'.run.phase = h.run.phase

theorem Advances.refl (h : History) : h.Advances h := ⟨rfl, le_refl _, fun _ => rfl⟩

theorem Advances.trans {h'' : History} (first : h.Advances h') (second : h'.Advances h'') :
    h.Advances h'' := by
  have forward := first.forward
  have beyond := second.forward
  refine ⟨second.spec.trans first.spec, le_trans forward beyond, fun same => ?_⟩
  rw [second.still (by omega), first.still (by omega)]

theorem Advances.record {r' : RunRow} {attempts : List AttemptRow} {events : List EventRow}
    (spec : r'.spec = h.run.spec) (count : r'.eventSequence = h.run.eventSequence + 1) :
    h.Advances ⟨r', attempts, events⟩ := by
  refine ⟨spec, ?_, fun same => ?_⟩
  · dsimp only
    omega
  · dsimp only at same
    omega

theorem advances_step (step : Step timing now h h') : h.Advances h' := by
  cases step with
  | moved member move =>
    cases move with
    | claimed | finalizing | completed | failed => exact .record rfl rfl
    | renewed | acknowledged | launched | jobLaunched => exact ⟨rfl, le_refl _, fun _ => rfl⟩
  | placed | cancelled | requeued => exact .record rfl rfl
  | cleaned => exact ⟨rfl, le_refl _, fun _ => rfl⟩

end History

section Reachable

variable {p : PostgresStore} {s s' : PostgresStore.State}

theorem eventSequence_bound (hs : p.system.Reachable s) :
    ∀ r ∈ s.db.runs, r.eventSequence ≤ 5 * r.spec.retry.maxAttempts := by
  intro r hr
  have all := PostgresStore.history_invariant
    (P := fun _ h => h.Coupled ∧ h.Retried p.timing ∧ h.Paced)
    (fun now r detail fresh => ⟨History.coupled_born r detail now fresh,
      History.retried_born fresh, History.paced_born fresh⟩)
    (fun _ _ _ _ h => h)
    (fun _ _ _ _ _ hp h step => ⟨History.coupled_step hp h.1 step,
      History.retried_step hp h.1 h.2.1 step, History.paced_step hp h.1 h.2.1 h.2.2 step⟩) hs r hr
  exact all.2.2.bound all.2.1 all.1

theorem advances_later (hs : p.system.Reachable s) (later : p.system.Later s s') :
    ∀ r ∈ s.db.runs, ∃ r' ∈ s'.db.runs, r'.id = r.id ∧
      (s.db.history r).Advances (s'.db.history r') :=
  history_later (R := fun _ h _ h' => h.Advances h') (I := fun _ => True)
    (fun _ _ _ _ => trivial) (fun _ _ h _ => .refl h)
    (fun _ _ _ _ _ _ first second => first.trans second)
    (fun _ _ _ _ _ _ _ step => History.advances_step step) hs later

end Reachable

/-! ## Runs that go on forever -/

section Forever

variable {p : PostgresStore} (run : p.system.Run) (id : String)

/-- The phase of the run after so many steps, if it was submitted by then. -/
def phaseAt (n : Nat) : Option RunPhase := ((run.state n).db.run? id).map (·.phase)

/-- How often the phase has changed in the first steps. -/
def changes : Nat → Nat
  | 0 => 0
  | n + 1 => if phaseAt run id (n + 1) = phaseAt run id n then changes n else changes n + 1

def eventsAt (n : Nat) : Int :=
  match (run.state n).db.run? id with
  | none => 0
  | some r => r.eventSequence

variable {run id}

theorem run?_later {n m : Nat} (le : n ≤ m) {r : RunRow}
    (found : (run.state n).db.run? id = some r) :
    ∃ r', (run.state m).db.run? id = some r' ∧ r'.spec = r.spec ∧
      r.eventSequence ≤ r'.eventSequence ∧
      (r'.eventSequence = r.eventSequence → r'.phase = r.phase) := by
  obtain ⟨hr, hid⟩ := Table.lookup_mem found
  obtain ⟨r', hr', same, advances⟩ := advances_later (run.reachable n) (run.later le) r hr
  have wf := PostgresStore.reachable_wellFormed (run.reachable m)
  refine ⟨r', ?_, advances.spec, advances.forward, advances.still⟩
  rw [← hid, ← same]
  exact wf.runs.lookup hr'

theorem born_events {s : PostgresStore.State} (hs : p.system.Reachable s) {r : RunRow}
    (hr : r ∈ s.db.runs) : 0 < r.eventSequence := by
  have traced := traced_reachable hs r hr
  have count : r.eventSequence = (s.db.eventsOf r.id).length := traced.count
  have first := traced.first
  rw [History.statuses, List.head?_map] at first
  obtain ⟨e, he, _⟩ := Option.map_eq_some_iff.mp first
  have positive := List.length_pos_of_mem (List.mem_of_head? he)
  rw [count]
  exact_mod_cast positive

theorem eventsAt_step (n : Nat) : eventsAt run id n ≤ eventsAt run id (n + 1) ∧
    (phaseAt run id (n + 1) ≠ phaseAt run id n →
      eventsAt run id n < eventsAt run id (n + 1)) := by
  simp only [eventsAt, phaseAt]
  cases before : (run.state n).db.run? id with
  | some r =>
    obtain ⟨r', after, _, forward, still⟩ := run?_later (Nat.le_succ n) before
    rw [after]
    refine ⟨forward, fun moved => lt_of_le_of_ne forward fun same => moved ?_⟩
    exact congrArg some (still same.symm)
  | none =>
    cases after : (run.state (n + 1)).db.run? id with
    | none => exact ⟨le_refl _, fun moved => absurd rfl moved⟩
    | some r =>
      have positive := born_events (run.reachable (n + 1)) (Table.lookup_mem after).1
      exact ⟨le_of_lt positive, fun _ => positive⟩

theorem eventsAt_le {n : Nat} {r : RunRow} (found : (run.state n).db.run? id = some r) :
    eventsAt run id n ≤ 5 * r.spec.retry.maxAttempts := by
  rw [eventsAt, found]
  exact eventSequence_bound (run.reachable n) r (Table.lookup_mem found).1

theorem eventsAt_mono {n m : Nat} (le : n ≤ m) : eventsAt run id n ≤ eventsAt run id m := by
  induction m, le using Nat.le_induction with
  | base => exact le_refl _
  | succ m _ ih => exact le_trans ih (eventsAt_step m).1

theorem eventsAt_nonneg (n : Nat) : 0 ≤ eventsAt run id n := by
  rw [eventsAt]
  split
  · exact le_refl _
  next r found => exact le_of_lt (born_events (run.reachable n) (Table.lookup_mem found).1)

theorem changes_le (n : Nat) : (changes run id n : Int) ≤ eventsAt run id n := by
  induction n with
  | zero => exact eventsAt_nonneg 0
  | succ n ih =>
    obtain ⟨forward, moved⟩ := @eventsAt_step p run id n
    rw [changes]
    split
    · exact le_trans ih forward
    next changed =>
      have more := moved changed
      push_cast
      omega

/-- All along the way, the events of a run that was submitted stay within its budget. -/
theorem eventsAt_bound {n : Nat} {r : RunRow} (found : (run.state n).db.run? id = some r)
    (m : Nat) : eventsAt run id m ≤ 5 * r.spec.retry.maxAttempts := by
  have late : eventsAt run id (max n m) ≤ 5 * r.spec.retry.maxAttempts := by
    obtain ⟨r', found', spec, _⟩ := run?_later (Nat.le_max_left n m) found
    have bound := eventsAt_le found'
    rwa [spec] at bound
  exact le_trans (eventsAt_mono (Nat.le_max_right n m)) late

end Forever

/-- A run of the store that goes on forever lets every run settle. Its status, generation and
active attempt change at most five times for each attempt that its policy allows, however often
it is retried, recovered or cancelled, and from some moment on they do not change at all. -/
theorem lifecycle_settles (p : PostgresStore) (run : p.system.Run) (id : String) :
    (∀ n r, (run.state n).db.run? id = some r →
      ∀ m, (changes run id m : Int) ≤ 5 * r.spec.retry.maxAttempts) ∧
    ∃ n, ∀ m, n ≤ m → phaseAt run id m = phaseAt run id n := by
  constructor
  · intro n r found m
    exact le_trans (changes_le m) (eventsAt_bound found m)
  · by_cases submitted : ∃ n r, (run.state n).db.run? id = some r
    · obtain ⟨n₀, r, found⟩ := submitted
      obtain ⟨n, settled⟩ := System.Run.settles_of_bounded eventsAt_mono (eventsAt_bound found)
      refine ⟨n, fun m le => ?_⟩
      induction m, le using Nat.le_induction with
      | base => rfl
      | succ m le ih =>
        rw [← ih]
        by_contra changed
        have more := (eventsAt_step m).2 changed
        rw [settled m le, settled (m + 1) (Nat.le_succ_of_le le)] at more
        exact lt_irrefl _ more
    · have never : ∀ n, phaseAt run id n = none := by
        intro n
        cases found : (run.state n).db.run? id with
        | none => rw [phaseAt, found, Option.map_none]
        | some r => exact absurd ⟨n, r, found⟩ submitted
      exact ⟨0, fun m _ => (never m).trans (never 0).symm⟩

namespace Sample

/-- The run is submitted, assigned, started and fails when its lease expires. -/
def lifecycle : List PostgresStore.Event :=
  [⟨1, .submit runId spec "key" "fingerprint"⟩,
    ⟨2, .registerWorker "worker" "session" ⟨4000, 4096⟩ {}⟩,
    ⟨3, .assign attemptId [] "worker" "session"⟩, ⟨4, .start attemptId.text 1 "runner" ""⟩,
    ⟨seconds 40, .recoverAttempt attemptId.text⟩]

def forever : store.system.Run := .ofList lifecycle (by decide +kernel)

end Sample

theorem lifecycle_settles_sample :
    changes Sample.forever Sample.runId.text 5 = 4 ∧
    (∀ m, (changes Sample.forever Sample.runId.text m : Int) ≤
      5 * Sample.spec.retry.maxAttempts) ∧
    ∃ n, ∀ m, n ≤ m →
      phaseAt Sample.forever Sample.runId.text m =
        some ⟨.retryWait, 1, some Sample.attemptId.text⟩ := by
  have four : changes Sample.forever Sample.runId.text 5 = 4 := by decide +kernel
  have found : ((Sample.forever.state 5).db.run? Sample.runId.text).map (·.spec) =
      some Sample.spec := by decide +kernel
  have failed : phaseAt Sample.forever Sample.runId.text 5 =
      some ⟨.retryWait, 1, some Sample.attemptId.text⟩ := by
    decide +kernel
  obtain ⟨r, hr, same⟩ := Option.map_eq_some_iff.mp found
  obtain ⟨bound, n, constant⟩ :=
    lifecycle_settles Sample.store Sample.forever Sample.runId.text
  have last : Sample.forever.state (max n 5) = Sample.forever.state 5 :=
    System.after_end _ (le_max_right n 5)
  refine ⟨four, fun m => same ▸ bound 5 r hr m, n, fun m le => ?_⟩
  rw [constant m le, ← constant (max n 5) (le_max_left n 5), phaseAt, last]
  exact failed

end Runyard
