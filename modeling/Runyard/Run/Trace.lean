import Runyard.Run.Coupling
import Mathlib.Data.List.Chain

/-!
# The event log as a trace of the lifecycle

Each event names the status that its run enters. The events of a run are numbered
consecutively, and the statuses they name form a path of `transitionAllowed` from
`QUEUED` to the status of the run.
-/

namespace Runyard

/-- The run status that an event announces. -/
def EventKind.status : EventKind → RunStatus
  | .submitted | .requeued => .queued
  | .assigned => .starting
  | .started => .running
  | .finalizing => .finalizing
  | .retryScheduled => .retryWait
  | .completed => .succeeded
  | .failed => .failed
  | .cancelled => .cancelled

namespace History

def statuses (h : History) : List RunStatus := h.events.map (·.kind.status)

structure Traced (h : History) : Prop where
  numbers : h.events.map (·.sequence) = upTo h.events.length
  count : h.run.eventSequence = h.events.length
  first : h.statuses.head? = some .queued
  path : h.statuses.IsChain fun source target => source.transitionAllowed target
  last : h.statuses.getLast? = some h.run.status

variable {h : History}

theorem traced_born {r : RunRow} (detail : String) (now : Int) (fresh : r.Fresh now) :
    (History.born r detail now).Traced := by
  refine ⟨rfl, fresh.eventSequence, rfl, .singleton _, ?_⟩
  simp [statuses, born, EventKind.status, fresh.status]

/-- A step that writes no event and keeps the status. -/
theorem Traced.silent (ht : h.Traced) {r' : RunRow} {attempts : List AttemptRow}
    (count : r'.eventSequence = h.run.eventSequence) (status : r'.status = h.run.status) :
    Traced ⟨r', attempts, h.events⟩ := by
  refine ⟨ht.numbers, ?_, ht.first, ht.path, ?_⟩
  · exact count.trans ht.count
  · rw [status]
    exact ht.last

/-- A step that writes one event, for an allowed transition. -/
theorem Traced.record (ht : h.Traced) {r' : RunRow} {attempts : List AttemptRow}
    {now : Int} {kind : EventKind} {detail : String}
    (count : r'.eventSequence = h.run.eventSequence + 1) (status : r'.status = kind.status)
    (allowed : h.run.status.transitionAllowed kind.status) :
    Traced ⟨r', attempts, h.events ++ [h.run.eventRow now kind detail]⟩ := by
  have hstatuses : statuses ⟨r', attempts, h.events ++ [h.run.eventRow now kind detail]⟩ =
      h.statuses ++ [kind.status] := by
    simp [statuses, RunRow.eventRow]
  constructor
  · simp only [List.map_append, ht.numbers, List.length_append, List.map_singleton,
      List.length_singleton, upTo_succ, RunRow.eventRow, ht.count]
  · simp [count, ht.count]
  · rw [hstatuses]
    rw [List.head?_append, ht.first]
    rfl
  · rw [hstatuses]
    refine ht.path.append (.singleton _) ?_
    intro source hsource target htarget
    rw [ht.last] at hsource
    simp only [Option.mem_def, Option.some.injEq, List.head?_cons] at hsource htarget
    rw [← hsource, ← htarget]
    exact allowed
  · rw [hstatuses, status]
    simp

theorem transitionAllowed_cancelled {status : RunStatus} (unfinished : ¬ status.terminal) :
    status.transitionAllowed .cancelled := by
  cases status <;> simp_all [RunStatus.transitionAllowed, RunStatus.terminal]

theorem transitionAllowed_failed {status : RunStatus} (live : status.live) (retry : Bool) :
    status.transitionAllowed (if retry then .retryWait else .failed) := by
  cases status <;> cases retry <;> simp_all [RunStatus.live, RunStatus.transitionAllowed,
    RunStatus.terminal]

/-- Only a run with a live status is failed. The Kubernetes observation looks at the status of
the attempt alone, which agrees with that of the run. -/
theorem Coupled.cause_live (hc : h.Coupled) (hp : h.Proper) {now : Int} {a : AttemptRow} {op : Op}
    {failure : Failure} {reason : String} {exitCode : Option Int} (ha : a ∈ h.attempts)
    (active : h.run.activeAttempt = some a.id)
    (cause : Cause now h.run a op failure reason exitCode) : h.run.status.live := by
  have agrees := hc.status_of_active hp ha active
  cases cause with
  | reported owned _ _ => rcases owned.status with hs | hs <;> simp [hs, RunStatus.live]
  | launchTimeout hs _ => simp [hs, RunStatus.live]
  | timeout hs _ => simp [hs, RunStatus.live]
  | finalizationTimeout hs _ => simp [hs, RunStatus.live]
  | leaseExpired hs _ => rcases hs with hs | hs <;> simp [hs, RunStatus.live]
  | stoppedLate live _ _ => rw [← RunStatus.agrees_live agrees, live]
  | stopped live => rw [← RunStatus.agrees_live agrees, live]

theorem Traced.move (ht : h.Traced) (hc : h.Coupled) (hp : h.Proper) {timing : Timing}
    {now : Int} {op : Op} {r' : RunRow} {a a' : AttemptRow} {events : List EventRow}
    (ha : a ∈ h.attempts) (move : Move timing now h.run a op r' a' events) :
    Traced ⟨r', Table.replace (·.id) a' h.attempts, h.events ++ events⟩ := by
  cases move with
  | claimed _ starting _ _ _ =>
    refine ht.record rfl rfl ?_
    rw [starting]
    rfl
  | finalizing _ running =>
    refine ht.record rfl rfl ?_
    rw [running]
    rfl
  | completed _ _ finalizing =>
    refine ht.record rfl rfl ?_
    rw [finalizing]
    rfl
  | @failed _ _ _ _ retry _ active cause _ _ =>
    have live := hc.cause_live hp ha active cause
    have hkind : (if retry then EventKind.retryScheduled else .failed).status =
        if retry then .retryWait else .failed := by
      cases retry <;> rfl
    refine ht.record rfl hkind.symm ?_
    rw [hkind]
    exact transitionAllowed_failed live retry
  | renewed | acknowledged | launched | jobLaunched =>
    rw [List.append_nil]
    exact ht.silent rfl rfl

theorem traced_step {timing : Timing} {now : Int} {h' : History} (hp : h.Proper)
    (hc : h.Coupled) (ht : h.Traced) (step : Step timing now h h') : h'.Traced := by
  cases step with
  | moved member move => exact ht.move hc hp member move
  | placed queued _ _ =>
    refine ht.record rfl rfl ?_
    rw [queued]
    rfl
  | cleaned _ _ => exact ht.silent rfl rfl
  | cancelled _ unfinished => exact ht.record rfl rfl (transitionAllowed_cancelled unfinished)
  | requeued due =>
    simp only [retryDue, Bool.and_eq_true, decide_eq_true_eq] at due
    refine ht.record rfl rfl ?_
    rw [due.1]
    rfl

/-- A path of allowed transitions visits a terminal status only at its end. -/
theorem terminal_once {path : List RunStatus}
    (h : path.IsChain fun source target => source.transitionAllowed target) :
    path.countP (·.terminal) ≤ 1 := by
  induction path with
  | nil => simp
  | cons source rest ih =>
    cases rest with
    | nil => simpa using List.countP_le_length (p := fun status => status.terminal) (l := [source])
    | cons target rest =>
      obtain ⟨allowed, htail⟩ := List.isChain_cons_cons.mp h
      have unfinished := RunStatus.transitionAllowed_source allowed
      rw [List.countP_cons_of_neg unfinished]
      exact ih htail

theorem terminal_step {timing : Timing} {now : Int} {h' : History} (hp : h.Proper)
    (hc : h.Coupled) (terminal : h.run.status.terminal) (step : Step timing now h h') :
    h'.run.status = h.run.status := by
  have not_live := RunStatus.terminal_not_live terminal
  cases step with
  | moved member move =>
    cases move with
    | claimed _ starting _ _ _ => simp [starting, RunStatus.live] at not_live
    | finalizing _ running => simp [running, RunStatus.live] at not_live
    | completed _ _ finalizing => simp [finalizing, RunStatus.live] at not_live
    | failed active cause _ _ =>
      rw [hc.cause_live hp member active cause] at not_live
      cases not_live
    | renewed | acknowledged | launched | jobLaunched => rfl
  | placed queued _ _ => simp [queued, RunStatus.terminal] at terminal
  | cleaned _ _ => rfl
  | cancelled _ unfinished => exact absurd terminal unfinished
  | requeued due =>
    simp only [retryDue, Bool.and_eq_true, decide_eq_true_eq] at due
    simp [due.1, RunStatus.terminal] at terminal

end History

section Reachable

variable {p : PostgresStore} {s : PostgresStore.State}

theorem traced_reachable (hs : p.system.Reachable s) :
    ∀ r ∈ s.db.runs, (s.db.history r).Traced := by
  intro r hr
  have both := PostgresStore.history_invariant (P := fun _ h => h.Coupled ∧ h.Traced)
    (fun now r detail fresh =>
      ⟨History.coupled_born r detail now fresh, History.traced_born detail now fresh⟩)
    (fun _ _ _ _ hct => hct)
    (fun _ _ _ _ _ hp hct step =>
      ⟨History.coupled_step hp hct.1 step, History.traced_step hp hct.1 hct.2 step⟩) hs r hr
  exact both.2

theorem terminal_later {s' : PostgresStore.State} (hs : p.system.Reachable s)
    (later : p.system.Later s s') : ∀ r ∈ s.db.runs, ∃ r' ∈ s'.db.runs, r'.id = r.id ∧
      (r.status.terminal → r'.status = r.status) := by
  refine history_later
    (R := fun _ h _ h' => h.run.status.terminal → h'.run.status = h.run.status)
    (fun _ => coupled_reachable) (fun _ _ _ _ _ => rfl) ?_ ?_ hs later
  · intro _ h₁ _ h₂ _ h₃ first second terminal
    have hfirst := first terminal
    rw [← hfirst] at terminal
    exact (second terminal).trans hfirst
  · exact fun _ _ _ _ _ hp hc step terminal => History.terminal_step hp hc terminal step

/-- The events of every run in a reachable state are a faithful trace of the domain's state
machine, and a terminal status is final. -/
theorem event_log_traces_lifecycle (p : PostgresStore) {s : PostgresStore.State}
    (hs : p.system.Reachable s) : ∀ r ∈ s.db.runs,
    let events := s.db.eventsOf r.id
    let statuses := events.map (·.kind.status)
    (0 ≤ r.eventSequence ∧ events.map (·.sequence) = upTo r.eventSequence.toNat) ∧
    statuses.head? = some .queued ∧
    statuses.IsChain (fun source target => source.transitionAllowed target) ∧
    statuses.getLast? = some r.status ∧
    events.countP (fun e => e.kind.status.terminal) ≤ 1 ∧
    ∀ s', p.system.Later s s' → ∃ r' ∈ s'.db.runs, r'.id = r.id ∧
      (r.status.terminal → r'.status = r.status) := by
  intro r hr events statuses
  have ht := traced_reachable hs r hr
  have hcount : r.eventSequence = events.length := ht.count
  refine ⟨⟨?_, ?_⟩, ht.first, ht.path, ht.last, ?_, ?_⟩
  · omega
  · rw [hcount, Int.toNat_natCast]
    exact ht.numbers
  · have once := History.terminal_once ht.path
    rw [History.statuses, List.countP_map] at once
    exact once
  · exact fun s' later => terminal_later hs later r hr

theorem event_log_traces_lifecycle_started :
    ∃ r ∈ Sample.started.db.runs, r.status = .running ∧
      ((Sample.started.db.eventsOf r.id).map (·.kind.status)).getLast? = some r.status := by
  have running : ∃ r ∈ Sample.started.db.runs, r.status = .running := by decide +kernel
  obtain ⟨r, hr, hstatus⟩ := running
  have trace := event_log_traces_lifecycle Sample.store Sample.started_reachable r hr
  exact ⟨r, hr, hstatus, trace.2.2.2.1⟩

end Reachable

end Runyard
