import Mathlib.Data.List.Nodup
import Mathlib.Logic.Function.Basic
import Runyard.Runs

/-!
# The bounded executor

`Executor` of `executor.cpp`: workers, calls of `submit` and one `shutdown`, each section under the
mutex as one step. `notify_one` comes after its section. A task is named by the call that
submits it.
-/

namespace Runyard

/-- The arguments that the constructor accepts. -/
structure Executor where
  threads : Nat
  capacity : Nat
  threads_pos : 0 < threads
  capacity_pos : 0 < capacity

namespace Executor

inductive Worker where
  /-- About to lock the mutex and to look at the queue. -/
  | ready
  /-- Blocked in `ready_.wait`. -/
  | waiting
  | running (task : Nat)
  | exited
  deriving DecidableEq

inductive Shutdown where
  | idle
  /-- Before `notify_all`. -/
  | stopped
  /-- In `threads_.clear`. -/
  | joining
  | returned
  deriving DecidableEq

structure State (e : Executor) where
  tasks : List Nat := []
  stopping : Bool := false
  workers : Fin e.threads → Worker := fun _ => .ready
  /-- How many calls of `submit` have still to call `notify_one`. -/
  notifying : Nat := 0
  shutdown : Shutdown := .idle
  /-- How many calls of `submit` there were, and which of them return `true` and `false`. -/
  calls : Nat := 0
  accepted : List Nat := []
  refused : List Nat := []
  /-- The tasks whose execution has begun, and those that have returned. -/
  started : List Nat := []
  finished : List Nat := []

inductive Act (e : Executor) where
  | submit
  /-- `notify_one`, with the worker that it wakes. -/
  | notify (i : Option (Fin e.threads))
  /-- The next step of a worker that is not blocked. -/
  | work (i : Fin e.threads)
  /-- A spurious wakeup. -/
  | wake (i : Fin e.threads)
  | stop
  | notifyAll
  | join

variable {e : Executor}

def State.set (s : State e) (i : Fin e.threads) (w : Worker) : State e :=
  { s with workers := Function.update s.workers i w }

def Worker.woken : Worker → Worker
  | .waiting => .ready
  | w => w

/-- The worker evaluates the predicate of its wait under the lock. -/
def State.look (s : State e) (i : Fin e.threads) : State e :=
  if s.stopping || s.tasks ≠ [] then
    match s.tasks with
    | [] => s.set i .exited
    | task :: rest => { s.set i (.running task) with tasks := rest, started := s.started ++ [task] }
  else s.set i .waiting

def State.submit (s : State e) : State e :=
  if s.stopping || e.capacity ≤ s.tasks.length then
    { s with calls := s.calls + 1, refused := s.refused ++ [s.calls] }
  else
    { s with
      calls := s.calls + 1
      tasks := s.tasks ++ [s.calls]
      accepted := s.accepted ++ [s.calls]
      notifying := s.notifying + 1 }

def step (s : State e) : Act e → Option (State e)
  | .submit => some s.submit
  | .notify (some i) =>
    if 0 < s.notifying && s.workers i = .waiting then
      some { s.set i .ready with notifying := s.notifying - 1 }
    else none
  | .notify none =>
    if 0 < s.notifying && ∀ i, s.workers i ≠ .waiting then
      some { s with notifying := s.notifying - 1 }
    else none
  | .work i =>
    match s.workers i with
    | .ready => some (s.look i)
    | .running task => some { s.set i .ready with finished := s.finished ++ [task] }
    | _ => none
  | .wake i => if s.workers i = .waiting then some (s.set i .ready) else none
  | .stop =>
    if s.shutdown = .idle then some { s with shutdown := .stopped, stopping := true } else none
  | .notifyAll =>
    if s.shutdown = .stopped then
      some { s with shutdown := .joining, workers := fun i => (s.workers i).woken }
    else none
  | .join =>
    if s.shutdown = .joining && ∀ i, s.workers i = .exited then
      some { s with shutdown := .returned }
    else none

def system (e : Executor) : System (State e) (Act e) where
  init := {}
  step := step

/-- What a step can do, with the guard under which it does it. -/
inductive Moves (s : State e) : Act e → State e → Prop where
  | submit : Moves s .submit s.submit
  | wakes {i : Fin e.threads} (waiting : s.workers i = .waiting) :
      Moves s (.notify (some i)) { s.set i .ready with notifying := s.notifying - 1 }
  | wakesNone (awake : ∀ i, s.workers i ≠ .waiting) :
      Moves s (.notify none) { s with notifying := s.notifying - 1 }
  | look {i : Fin e.threads} (ready : s.workers i = .ready) : Moves s (.work i) (s.look i)
  | finish {i : Fin e.threads} {task : Nat} (running : s.workers i = .running task) :
      Moves s (.work i) { s.set i .ready with finished := s.finished ++ [task] }
  | wake {i : Fin e.threads} (waiting : s.workers i = .waiting) :
      Moves s (.wake i) (s.set i .ready)
  | stop (idle : s.shutdown = .idle) :
      Moves s .stop { s with shutdown := .stopped, stopping := true }
  | notifyAll (stopped : s.shutdown = .stopped) :
      Moves s .notifyAll
        { s with shutdown := .joining, workers := fun i => (s.workers i).woken }
  | join (joining : s.shutdown = .joining) (exited : ∀ i, s.workers i = .exited) :
      Moves s .join { s with shutdown := .returned }

theorem moves {s s' : State e} {act : Act e} (h : e.system.step s act = some s') :
    Moves s act s' := by
  cases act with
  | submit =>
    cases h
    exact .submit
  | notify target =>
    cases target with
    | none =>
      simp only [system, step, Option.ite_none_right_eq_some, Option.some.injEq, Bool.and_eq_true,
        decide_eq_true_eq] at h
      obtain ⟨⟨_, awake⟩, rfl⟩ := h
      exact .wakesNone awake
    | some i =>
      simp only [system, step, Option.ite_none_right_eq_some, Option.some.injEq, Bool.and_eq_true,
        decide_eq_true_eq] at h
      obtain ⟨⟨_, waiting⟩, rfl⟩ := h
      exact .wakes waiting
  | work i =>
    simp only [system, step] at h
    split at h
    next ready =>
      cases h
      exact .look ready
    next task running =>
      cases h
      exact .finish running
    next => cases h
  | wake i =>
    simp only [system, step, Option.ite_none_right_eq_some, Option.some.injEq] at h
    obtain ⟨waiting, rfl⟩ := h
    exact .wake waiting
  | stop =>
    simp only [system, step, Option.ite_none_right_eq_some, Option.some.injEq] at h
    obtain ⟨idle, rfl⟩ := h
    exact .stop idle
  | notifyAll =>
    simp only [system, step, Option.ite_none_right_eq_some, Option.some.injEq] at h
    obtain ⟨stopped, rfl⟩ := h
    exact .notifyAll stopped
  | join =>
    simp only [system, step, Option.ite_none_right_eq_some, Option.some.injEq, Bool.and_eq_true,
      decide_eq_true_eq] at h
    obtain ⟨⟨joining, exited⟩, rfl⟩ := h
    exact .join joining exited

/-! ## The invariant -/

/-- Accepted, queued, running and finished tasks, and the workers that are left for them. -/
structure Sound (s : State e) : Prop where
  bound : s.tasks.length ≤ e.capacity
  queued : s.accepted = s.started ++ s.tasks
  fresh : ∀ t, t ∈ s.accepted ∨ t ∈ s.refused → t < s.calls
  apart : ∀ t ∈ s.refused, t ∉ s.accepted
  distinct : s.accepted.Nodup
  progress : ∀ t, t ∈ s.started ↔ t ∈ s.finished ∨ ∃ i, s.workers i = .running t
  once : s.finished.Nodup
  unfinished : ∀ i t, s.workers i = .running t → t ∉ s.finished
  alone : ∀ i j t, s.workers i = .running t → s.workers j = .running t → i = j
  /-- A worker exits only when nothing will be queued any more. -/
  drained : ∀ i, s.workers i = .exited → s.stopping ∧ s.tasks = []
  stopped : s.stopping ↔ s.shutdown ≠ .idle
  joined : s.shutdown = .returned → ∀ i, s.workers i = .exited
  /-- Queued tasks are noticed. -/
  awake : s.tasks ≠ [] → 0 < s.notifying ∨ ∃ i, s.workers i = .ready ∨ ∃ t, s.workers i = .running t

variable {s s' : State e} {i j : Fin e.threads} {w : Worker} {t : Nat}

@[simp] theorem set_self : (s.set i w).workers i = w := Function.update_self ..

theorem set_other (other : j ≠ i) : (s.set i w).workers j = s.workers j :=
  Function.update_of_ne other ..

theorem Sound.init : Sound (system e).init where
  bound := Nat.zero_le _
  queued := rfl
  fresh := by simp [system]
  apart := by simp [system]
  distinct := List.nodup_nil
  progress := by simp [system]
  once := List.nodup_nil
  unfinished := by simp [system]
  alone := by simp [system]
  drained := by simp [system]
  stopped := by simp [system]
  joined := by simp [system]
  awake := by simp [system]

theorem Sound.submit (sound : Sound s) : Sound s.submit := by
  have fresh : s.calls ∉ s.accepted := fun h => Nat.lt_irrefl _ (sound.fresh _ (.inl h))
  unfold State.submit
  split
  next =>
    refine { sound with fresh := ?_, apart := ?_ }
    · rintro t (accepted | refused)
      · exact Nat.lt_succ_of_lt (sound.fresh t (.inl accepted))
      · rcases List.mem_append.mp refused with refused | here
        · exact Nat.lt_succ_of_lt (sound.fresh t (.inr refused))
        · rw [List.mem_singleton.mp here]
          exact Nat.lt_succ_self _
    · intro t refused
      rcases List.mem_append.mp refused with refused | here
      · exact sound.apart t refused
      · rw [List.mem_singleton.mp here]
        exact fresh
  next open_ =>
    simp only [Bool.or_eq_true, decide_eq_true_eq, not_or, not_le] at open_
    obtain ⟨running, room⟩ := open_
    refine { sound with
      bound := ?_, queued := ?_, fresh := ?_, apart := ?_, distinct := ?_, drained := ?_
      awake := fun _ => .inl (Nat.succ_pos _) }
    · rw [List.length_append, List.length_singleton]
      omega
    · rw [sound.queued, List.append_assoc]
    · rintro t (accepted | refused)
      · rcases List.mem_append.mp accepted with accepted | here
        · exact Nat.lt_succ_of_lt (sound.fresh t (.inl accepted))
        · rw [List.mem_singleton.mp here]
          exact Nat.lt_succ_self _
      · exact Nat.lt_succ_of_lt (sound.fresh t (.inr refused))
    · intro t refused accepted
      rcases List.mem_append.mp accepted with accepted | here
      · exact sound.apart t refused accepted
      · have := sound.fresh t (.inr refused)
        have := List.mem_singleton.mp here
        omega
    · refine List.nodup_append.mpr ⟨sound.distinct, List.nodup_singleton _, ?_⟩
      rintro t ht _ here rfl
      exact fresh (List.mem_singleton.mp here ▸ ht)
    · intro i exited
      exact absurd (sound.drained i exited).1 running

/-- Other states of the workers, with the same tasks running. -/
theorem Sound.rewire (sound : Sound s) {workers : Fin e.threads → Worker} {shutdown : Shutdown}
    (same : ∀ j t, workers j = .running t ↔ s.workers j = .running t)
    (drained : ∀ j, workers j = .exited → s.stopping ∧ s.tasks = [])
    (stopped : s.stopping ↔ shutdown ≠ .idle) (open_ : shutdown ≠ .returned)
    (awake : s.tasks ≠ [] → 0 < s.notifying ∨
      ∃ i, workers i = .ready ∨ ∃ t, workers i = .running t) :
    Sound { s with workers := workers, shutdown := shutdown } := by
  refine { sound with
    progress := ?_, unfinished := ?_, alone := ?_, drained := drained, stopped := stopped
    joined := fun returned => absurd returned open_, awake := awake }
  · intro t
    simp only [same]
    exact sound.progress t
  · exact fun j t running => sound.unfinished j t ((same j t).mp running)
  · exact fun j k t first second => sound.alone j k t ((same j t).mp first) ((same k t).mp second)

/-- A worker that does not run changes its state, and runs no task then either. -/
theorem Sound.set (sound : Sound s) (idle : ∀ t, s.workers i ≠ .running t)
    (next : ∀ t, w ≠ .running t) (exits : w = .exited → s.stopping ∧ s.tasks = [])
    (open_ : s.shutdown ≠ .returned) (awake : s.tasks ≠ [] → w = .ready) : Sound (s.set i w) := by
  refine sound.rewire ?_ ?_ sound.stopped open_ fun tasks =>
    .inr ⟨i, .inl (set_self.trans (awake tasks))⟩
  · intro j t
    change (s.set i w).workers j = .running t ↔ s.workers j = .running t
    by_cases here : j = i
    · subst here
      rw [set_self]
      exact ⟨fun h => absurd h (next t), fun h => absurd h (idle t)⟩
    · rw [set_other here]
  · intro j exited
    change (s.set i w).workers j = .exited at exited
    by_cases here : j = i
    · subst here
      rw [set_self] at exited
      exact exits exited
    · rw [set_other here] at exited
      exact sound.drained j exited

/-- A ready worker looks at the queue: it takes the first task, exits or waits. -/
theorem Sound.look (sound : Sound s) (ready : s.workers i = .ready) : Sound (s.look i) := by
  have idle (t : Nat) : s.workers i ≠ .running t := by simp [ready]
  have open_ : s.shutdown ≠ .returned := by
    intro returned
    have exited := sound.joined returned i
    rw [ready] at exited
    cases exited
  unfold State.look
  split
  next notified =>
    split
    next empty =>
      refine sound.set idle (by simp) (fun _ => ⟨?_, empty⟩) open_ (fun tasks => absurd empty tasks)
      simpa [empty] using notified
    next task rest tasks =>
      have queued : task ∈ s.accepted := by
        rw [sound.queued, tasks]
        simp
      have distinct := sound.distinct
      rw [sound.queued] at distinct
      have waiting : task ∉ s.started := by
        intro started
        refine (List.nodup_append.mp distinct).2.2 task started task ?_ rfl
        rw [tasks]
        exact List.mem_cons_self
      have runs (j : Fin e.threads) (t : Nat) : (s.set i (.running task)).workers j = .running t ↔
          j = i ∧ t = task ∨ s.workers j = .running t := by
        by_cases here : j = i
        · subst here
          simp [idle t, eq_comm]
        · rw [set_other here]
          simp [here]
      refine { sound with
        bound := ?_, queued := ?_, progress := ?_, unfinished := ?_, alone := ?_, drained := ?_
        joined := fun returned => absurd returned open_, awake := ?_ }
      · have bound := sound.bound
        rw [tasks, List.length_cons] at bound
        exact Nat.le_of_succ_le bound
      · change s.accepted = s.started ++ [task] ++ rest
        rw [sound.queued, tasks, List.append_assoc, List.singleton_append]
      · intro t
        simp only [List.mem_append, List.mem_singleton, runs, sound.progress]
        constructor
        · rintro ((finished | ⟨j, running⟩) | rfl)
          · exact .inl finished
          · exact .inr ⟨j, .inr running⟩
          · exact .inr ⟨i, .inl ⟨rfl, rfl⟩⟩
        · rintro (finished | ⟨j, ⟨_, rfl⟩ | running⟩)
          · exact .inl (.inl finished)
          · exact .inr rfl
          · exact .inl (.inr ⟨j, running⟩)
      · intro j t running finished
        rcases (runs j t).mp running with ⟨_, rfl⟩ | running
        · exact waiting ((sound.progress t).mpr (.inl finished))
        · exact sound.unfinished j t running finished
      · intro j k t first second
        rcases (runs j t).mp first with ⟨rfl, rfl⟩ | before
        · rcases (runs k t).mp second with ⟨rfl, _⟩ | before
          · rfl
          · exact absurd ((sound.progress t).mpr (.inr ⟨k, before⟩)) waiting
        · rcases (runs k t).mp second with ⟨rfl, rfl⟩ | before'
          · exact absurd ((sound.progress t).mpr (.inr ⟨j, before⟩)) waiting
          · exact sound.alone j k t before before'
      · intro j exited
        by_cases here : j = i
        · subst here
          rw [set_self] at exited
          cases exited
        · have nothing := (sound.drained j ((set_other here).symm.trans exited)).2
          rw [tasks] at nothing
          cases nothing
      · exact fun _ => .inr ⟨i, .inr ⟨task, set_self⟩⟩
  next asleep =>
    simp only [Bool.or_eq_true, decide_eq_true_eq, not_or, not_not] at asleep
    exact sound.set idle (by simp) (by simp) open_ (fun tasks => absurd asleep.2 tasks)

theorem Sound.finish (sound : Sound s) (running : s.workers i = .running t) :
    Sound { s.set i .ready with finished := s.finished ++ [t] } := by
  have runs (j : Fin e.threads) (u : Nat) : (s.set i .ready).workers j = .running u ↔
      j ≠ i ∧ s.workers j = .running u := by
    by_cases here : j = i
    · subst here
      simp
    · rw [set_other here]
      simp [here]
  refine { sound with
    progress := ?_, once := ?_, unfinished := ?_, alone := ?_, drained := ?_, joined := ?_
    awake := fun _ => .inr ⟨i, .inl set_self⟩ }
  · intro u
    change u ∈ s.started ↔
      u ∈ s.finished ++ [t] ∨ ∃ j, (s.set i .ready).workers j = .running u
    simp only [List.mem_append, List.mem_singleton, runs, sound.progress]
    constructor
    · rintro (finished | ⟨j, other⟩)
      · exact .inl (.inl finished)
      · by_cases here : j = i
        · subst here
          rw [running] at other
          cases other
          exact .inl (.inr rfl)
        · exact .inr ⟨j, here, other⟩
    · rintro ((finished | rfl) | ⟨j, _, other⟩)
      · exact .inl finished
      · exact .inr ⟨i, running⟩
      · exact .inr ⟨j, other⟩
  · refine List.nodup_append.mpr ⟨sound.once, List.nodup_singleton _, ?_⟩
    rintro u finished _ here rfl
    exact sound.unfinished i t running (List.mem_singleton.mp here ▸ finished)
  · intro j u other finished
    obtain ⟨other, runs⟩ := (runs j u).mp other
    rcases List.mem_append.mp finished with finished | here
    · exact sound.unfinished j u runs finished
    · rw [List.mem_singleton.mp here] at runs
      exact other (sound.alone j i t runs running)
  · intro j k u first second
    exact sound.alone j k u ((runs j u).mp first).2 ((runs k u).mp second).2
  · intro j exited
    by_cases here : j = i
    · subst here
      rw [set_self] at exited
      cases exited
    · exact sound.drained j ((set_other here).symm.trans exited)
  · intro returned
    have exited := sound.joined returned i
    rw [running] at exited
    cases exited

theorem Sound.wake (sound : Sound s) (waiting : s.workers i = .waiting) :
    Sound (s.set i .ready) := by
  refine sound.set (by simp [waiting]) (by simp) (by simp) (fun returned => ?_) (fun _ => rfl)
  have exited := sound.joined returned i
  rw [waiting] at exited
  cases exited

/-- No worker exits while a task is queued: one that does not wait is busy. -/
theorem Sound.busy (sound : Sound s) (awake : ∀ i, s.workers i ≠ .waiting) (tasks : s.tasks ≠ []) :
    ∃ i, s.workers i = .ready ∨ ∃ t, s.workers i = .running t := by
  refine ⟨⟨0, e.threads_pos⟩, ?_⟩
  cases first : s.workers ⟨0, e.threads_pos⟩ with
  | ready => exact .inl rfl
  | running t => exact .inr ⟨t, rfl⟩
  | waiting => exact absurd first (awake _)
  | exited => exact absurd (sound.drained _ first).2 tasks

theorem Sound.notifyAll (sound : Sound s) (stopped : s.shutdown = .stopped) :
    Sound { s with shutdown := .joining, workers := fun i => (s.workers i).woken } := by
  have stopping := sound.stopped.mpr (by simp [stopped])
  refine sound.rewire ?_ ?_ (by simp [stopping]) (by simp) ?_
  · intro j t
    cases s.workers j <;> simp [Worker.woken]
  · intro j exited
    refine sound.drained j ?_
    cases h : s.workers j <;> simp_all [Worker.woken]
  · intro tasks
    refine (sound.awake tasks).imp_right fun ⟨j, busy⟩ => ⟨j, ?_⟩
    rcases busy with ready | ⟨t, running⟩
    · exact .inl (congrArg Worker.woken ready)
    · exact .inr ⟨t, congrArg Worker.woken running⟩

theorem Sound.step {act : Act e} (sound : Sound s) (h : e.system.step s act = some s') :
    Sound s' := by
  cases moves h with
  | submit => exact sound.submit
  | @wakes i waiting =>
    exact { sound.wake waiting with awake := fun _ => .inr ⟨i, .inl set_self⟩ }
  | wakesNone awake => exact { sound with awake := fun tasks => .inr (sound.busy awake tasks) }
  | look ready => exact sound.look ready
  | finish running => exact sound.finish running
  | wake waiting => exact sound.wake waiting
  | stop idle =>
    exact { sound with
      drained := fun i exited => ⟨rfl, (sound.drained i exited).2⟩
      stopped := by simp
      joined := by simp }
  | notifyAll stopped => exact sound.notifyAll stopped
  | join joining exited =>
    have stopping := sound.stopped.mpr (by simp [joining])
    exact { sound with stopped := by simp [stopping], joined := fun _ => exited }

theorem sound_reachable (hs : e.system.Reachable s) : Sound s :=
  hs.invariant Sound.init fun _ _ _ sound h => sound.step h

theorem Sound.finished_started (sound : Sound s) (finished : t ∈ s.finished) : t ∈ s.started :=
  (sound.progress t).mpr (.inl finished)

theorem Sound.started_accepted (sound : Sound s) (started : t ∈ s.started) : t ∈ s.accepted := by
  rw [sound.queued]
  exact List.mem_append_left _ started

/-- When all workers have exited, what was accepted has been executed. -/
theorem Sound.complete (sound : Sound s) (returned : s.shutdown = .returned) :
    ∀ t ∈ s.accepted, t ∈ s.finished := by
  intro t accepted
  have exited := sound.joined returned
  have empty := (sound.drained ⟨0, e.threads_pos⟩ (exited _)).2
  rw [sound.queued, empty, List.append_nil, sound.progress] at accepted
  refine accepted.resolve_right fun ⟨i, running⟩ => ?_
  cases (exited i).symm.trans running

/-! ## Steps -/

/-- What was accepted, refused, begun or finished remains so, in its order. -/
structure Grows (s s' : State e) : Prop where
  accepted : s.accepted <+: s'.accepted
  refused : s.refused <+: s'.refused
  started : s.started <+: s'.started
  finished : s.finished <+: s'.finished

theorem Grows.refl (s : State e) : Grows s s :=
  ⟨List.prefix_rfl, List.prefix_rfl, List.prefix_rfl, List.prefix_rfl⟩

theorem Grows.trans {s'' : State e} (first : Grows s s') (second : Grows s' s'') : Grows s s'' :=
  ⟨first.accepted.trans second.accepted, first.refused.trans second.refused,
    first.started.trans second.started, first.finished.trans second.finished⟩

theorem Grows.same (accepted : s'.accepted = s.accepted) (refused : s'.refused = s.refused)
    (started : s'.started = s.started) (finished : s'.finished = s.finished) : Grows s s' :=
  ⟨accepted ▸ List.prefix_rfl, refused ▸ List.prefix_rfl, started ▸ List.prefix_rfl,
    finished ▸ List.prefix_rfl⟩

theorem grows_look : Grows s (s.look i) := by
  unfold State.look
  split
  · split
    · exact .same rfl rfl rfl rfl
    · exact ⟨List.prefix_rfl, List.prefix_rfl, List.prefix_append _ _, List.prefix_rfl⟩
  · exact .same rfl rfl rfl rfl

theorem look_starts (tasks : s.tasks ≠ []) :
    (s.look i).started.length = s.started.length + 1 := by
  obtain ⟨task, rest, htasks⟩ := List.exists_cons_of_ne_nil tasks
  simp [State.look, htasks]

theorem look_other (other : j ≠ i) : (s.look i).workers j = s.workers j := by
  unfold State.look
  split
  · split
    · exact set_other other
    · exact set_other other
  · exact set_other other

theorem grows_submit : Grows s s.submit := by
  unfold State.submit
  split
  · exact ⟨List.prefix_rfl, List.prefix_append _ _, List.prefix_rfl, List.prefix_rfl⟩
  · exact ⟨List.prefix_append _ _, List.prefix_rfl, List.prefix_rfl, List.prefix_rfl⟩

theorem grows_step {act : Act e} (h : e.system.step s act = some s') : Grows s s' := by
  cases moves h with
  | submit => exact grows_submit
  | look => exact grows_look
  | finish => exact ⟨List.prefix_rfl, List.prefix_rfl, List.prefix_rfl, List.prefix_append _ _⟩
  | wakes | wakesNone | wake | stop | notifyAll | join => exact .same rfl rfl rfl rfl

theorem submit_workers : s.submit.workers = s.workers := by
  unfold State.submit
  split
  · rfl
  · rfl

/-- A worker that is not blocked moves by its own steps only. -/
theorem worker_step {act : Act e} (h : e.system.step s act = some s') (other : act ≠ .work i)
    (unblocked : s.workers i ≠ .waiting) : s'.workers i = s.workers i := by
  have wakes {j : Fin e.threads} (waiting : s.workers j = .waiting) :
      (s.set j .ready).workers i = s.workers i := by
    refine set_other fun same => unblocked ?_
    rw [same, waiting]
  cases moves h with
  | submit => rw [submit_workers]
  | wakes waiting => exact wakes waiting
  | wake waiting => exact wakes waiting
  | look => exact look_other fun same => other (same ▸ rfl)
  | finish => exact set_other fun same => other (same ▸ rfl)
  | notifyAll =>
    change (s.workers i).woken = s.workers i
    cases hi : s.workers i with
    | waiting => exact absurd hi unblocked
    | ready | running | exited => rfl
  | wakesNone | stop | join => rfl

/-- After a `notify_one` with a task in the queue, a worker is not blocked: the one that was woken,
or any when none was. -/
theorem notify_busy {target : Option (Fin e.threads)} (sound : Sound s')
    (h : e.system.step s (.notify target) = some s') (tasks : s'.tasks ≠ []) :
    ∃ i, s'.workers i = .ready ∨ ∃ t, s'.workers i = .running t := by
  cases moves h with
  | @wakes i => exact ⟨i, .inl set_self⟩
  | wakesNone awake => exact sound.busy awake tasks

theorem Sound.tasks_left {k : Nat} (sound : Sound s) (begun : ¬k < s.started.length)
    (accepted : k < s.accepted.length) : s.tasks ≠ [] := by
  have queue := congrArg List.length sound.queued
  rw [List.length_append] at queue
  exact List.ne_nil_of_length_pos (by omega)

/-! ## Fair runs -/

/-- A worker that is not blocked takes its next step at some time, a task therefore returns, and a
pending `notify_one` is called. -/
structure Fair (run : e.system.Run) : Prop where
  works : ∀ n i, ((run.state n).workers i = .ready ∨ ∃ t, (run.state n).workers i = .running t) →
    ∃ m, n ≤ m ∧ run.act m = some (.work i)
  notifies : ∀ n, 0 < (run.state n).notifying →
    ∃ m, n ≤ m ∧ ∃ target, run.act m = some (.notify target)

variable {run : e.system.Run} {n m k : Nat}

theorem grows_later (hs : e.system.Reachable s) (later : e.system.Later s s') : Grows s s' :=
  later.relation hs Grows.refl (fun _ _ _ => Grows.trans) fun _ _ _ _ _ h => grows_step h

theorem grows_run (run : e.system.Run) (le : n ≤ m) : Grows (run.state n) (run.state m) :=
  grows_later (run.reachable n) (run.later le)

theorem Fair.worker (fair : Fair run) (here : (run.state n).workers i = w)
    (busy : w = .ready ∨ ∃ t, w = .running t) :
    ∃ m, n ≤ m ∧ run.act m = some (.work i) ∧ (run.state m).workers i = w := by
  have unblocked : w ≠ .waiting := by
    rcases busy with rfl | ⟨t, rfl⟩ <;> simp
  obtain ⟨m, le, act⟩ := fair.works n i (by simpa only [here] using busy)
  obtain ⟨m, le, _, act, rfl, there⟩ := System.Run.meets (fun s => s.workers i = w)
    (fun act => act = .work i) here
    (fun s act s' _ before other h => (worker_step h other (before ▸ unblocked)).trans before)
    ⟨m, le, _, act, rfl⟩
  exact ⟨m, le, act, there⟩

/-- A task that runs returns, and its worker goes back to the queue. -/
theorem Fair.returns (fair : Fair run) (running : (run.state n).workers i = .running t) :
    ∃ m, n ≤ m ∧ (run.state m).workers i = .ready ∧ t ∈ (run.state m).finished := by
  obtain ⟨m, le, act, there⟩ := fair.worker running (.inr ⟨t, rfl⟩)
  have moved := run.moves m _ act
  simp only [system, step, there, Option.some.injEq] at moved
  refine ⟨m + 1, Nat.le_succ_of_le le, ?_⟩
  rw [← moved]
  exact ⟨set_self, List.mem_append_right _ (List.mem_singleton_self t)⟩

/-- The task at position `k` of what was accepted begins when a worker looks at the queue. -/
theorem Fair.ready_begins (fair : Fair run) (ready : (run.state n).workers i = .ready)
    (before : k ≤ (run.state n).started.length) (accepted : k < (run.state n).accepted.length) :
    ∃ m, n ≤ m ∧ k < (run.state m).started.length := by
  obtain ⟨m, le, act, there⟩ := fair.worker ready (.inl rfl)
  have grows := grows_run run le
  have before := Nat.le_trans before grows.started.length_le
  have accepted := Nat.lt_of_lt_of_le accepted grows.accepted.length_le
  by_cases begun : k < (run.state m).started.length
  · exact ⟨m, le, begun⟩
  · have tasks := (sound_reachable (run.reachable m)).tasks_left begun accepted
    have moved := run.moves m _ act
    simp only [system, step, there, Option.some.injEq] at moved
    refine ⟨m + 1, Nat.le_succ_of_le le, ?_⟩
    rw [← moved, look_starts tasks]
    omega

theorem Fair.busy_begins (fair : Fair run)
    (busy : (run.state n).workers i = .ready ∨ ∃ t, (run.state n).workers i = .running t)
    (before : k ≤ (run.state n).started.length) (accepted : k < (run.state n).accepted.length) :
    ∃ m, n ≤ m ∧ k < (run.state m).started.length := by
  rcases busy with ready | ⟨t, running⟩
  · exact fair.ready_begins ready before accepted
  · obtain ⟨m, le, ready, _⟩ := fair.returns running
    have grows := grows_run run le
    obtain ⟨m', le', begun⟩ := fair.ready_begins ready (Nat.le_trans before grows.started.length_le)
      (Nat.lt_of_lt_of_le accepted grows.accepted.length_le)
    exact ⟨m', Nat.le_trans le le', begun⟩

/-- While a task is queued, a worker is busy or is going to be woken. -/
theorem Fair.next_begins (fair : Fair run) (before : k ≤ (run.state n).started.length)
    (accepted : k < (run.state n).accepted.length) :
    ∃ m, n ≤ m ∧ k < (run.state m).started.length := by
  by_cases begun : k < (run.state n).started.length
  · exact ⟨n, Nat.le_refl n, begun⟩
  have sound := sound_reachable (run.reachable n)
  rcases sound.awake (sound.tasks_left begun accepted) with pending | ⟨i, busy⟩
  · obtain ⟨m, le, target, act⟩ := fair.notifies n pending
    have later : n ≤ m + 1 := Nat.le_succ_of_le le
    have grows := grows_run run later
    have before := Nat.le_trans before grows.started.length_le
    have accepted := Nat.lt_of_lt_of_le accepted grows.accepted.length_le
    by_cases begun : k < (run.state (m + 1)).started.length
    · exact ⟨m + 1, later, begun⟩
    have sound := sound_reachable (run.reachable (m + 1))
    obtain ⟨i, busy⟩ := notify_busy sound (run.moves m _ act) (sound.tasks_left begun accepted)
    obtain ⟨m', le', begun⟩ := fair.busy_begins busy before accepted
    exact ⟨m', Nat.le_trans later le', begun⟩
  · exact fair.busy_begins busy before accepted

theorem Fair.begins (fair : Fair run) (accepted : k < (run.state n).accepted.length) :
    ∃ m, n ≤ m ∧ k < (run.state m).started.length := by
  induction k with
  | zero => exact fair.next_begins (Nat.zero_le _) accepted
  | succ k ih =>
    obtain ⟨m, le, before⟩ := ih (Nat.lt_of_succ_lt accepted)
    have grows := grows_run run le
    obtain ⟨m', le', begun⟩ := fair.next_begins before
      (Nat.lt_of_lt_of_le accepted grows.accepted.length_le)
    exact ⟨m', Nat.le_trans le le', begun⟩

theorem Fair.finishes (fair : Fair run) (accepted : t ∈ (run.state n).accepted) :
    ∃ m, n ≤ m ∧ t ∈ (run.state m).finished := by
  obtain ⟨k, hk, rfl⟩ := List.getElem_of_mem accepted
  obtain ⟨m, le, begun⟩ := fair.begins hk
  have sound := sound_reachable (run.reachable m)
  have grows := grows_run run le
  have here : (run.state n).accepted[k] = (run.state m).started[k] := by
    rw [grows.accepted.getElem hk]
    simp only [sound.queued, List.getElem_append_left begun]
  rw [here]
  rcases (sound.progress _).mp (List.getElem_mem begun) with finished | ⟨i, running⟩
  · exact ⟨m, le, finished⟩
  · obtain ⟨m', le', _, finished⟩ := fair.returns running
    exact ⟨m', Nat.le_trans le le', finished⟩

theorem Sound.once_started (sound : Sound s) : s.started.Nodup := by
  have distinct := sound.distinct
  rw [sound.queued] at distinct
  exact distinct.of_append_left

end Executor

open Executor in
/-- What `submit` accepts is executed once, before `shutdown` returns, and nothing else is. -/
theorem executor_once (e : Executor) :
    (∀ s, e.system.Reachable s →
      s.tasks.length ≤ e.capacity ∧ s.started.Nodup ∧ s.finished.Nodup ∧
      (∀ t ∈ s.started, t ∈ s.accepted) ∧
      (∀ s', e.system.Later s s' → ∀ t ∈ s.refused, t ∉ s'.started) ∧
      (s.shutdown = .returned → ∀ t ∈ s.accepted, s.finished.count t = 1)) ∧
    ∀ run : e.system.Run, Fair run → ∀ n, ∀ t ∈ (run.state n).accepted,
      ∃ m, n ≤ m ∧ ∀ k, m ≤ k →
        (run.state k).started.count t = 1 ∧ (run.state k).finished.count t = 1 := by
  constructor
  · intro s hs
    have sound := sound_reachable hs
    refine ⟨sound.bound, sound.once_started, sound.once, fun t => sound.started_accepted, ?_, ?_⟩
    · intro s' later t refused started
      have sound' := sound_reachable (hs.later later)
      exact sound'.apart t ((grows_later hs later).refused.subset refused)
        (sound'.started_accepted started)
    · intro returned t accepted
      exact List.count_eq_one_of_mem sound.once (sound.complete returned t accepted)
  · intro run fair n t accepted
    obtain ⟨m, le, finished⟩ := fair.finishes accepted
    refine ⟨m, le, fun k hk => ?_⟩
    have sound := sound_reachable (run.reachable k)
    have finished := (grows_run run hk).finished.subset finished
    exact ⟨List.count_eq_one_of_mem sound.once_started (sound.finished_started finished),
      List.count_eq_one_of_mem sound.once finished⟩

namespace Executor

/-- A task is queued and another one refused before `shutdown` begins. -/
def draining : List (Act ⟨1, 1, Nat.one_pos, Nat.one_pos⟩) :=
  [.submit, .submit, .stop, .work 0, .notify none, .notifyAll, .work 0, .work 0, .join]

def drainingRun : (system ⟨1, 1, Nat.one_pos, Nat.one_pos⟩).Run :=
  .ofList draining (by decide)

theorem draining_rests (n : Nat) : drainingRun.state n = drainingRun.state (min n 9) := by
  change (draining.take n).foldl _ _ = (draining.take (min n 9)).foldl _ _
  rw [← List.take_take, List.take_of_length_le (i := 9) (Nat.le_refl _)]

theorem draining_fair : Fair drainingRun where
  works n i busy := by
    by_cases early : n ≤ 7
    · exact ⟨7, early, congrArg (fun i => some (Act.work i)) (Subsingleton.elim 0 i)⟩
    · have exited : (drainingRun.state n).workers i = .exited := by
        rw [draining_rests, Subsingleton.elim i 0]
        obtain here | here : min n 9 = 8 ∨ min n 9 = 9 := by omega
        · rw [here]
          decide
        · rw [here]
          decide
      rw [exited] at busy
      simp at busy
  notifies n pending := by
    by_cases early : n ≤ 4
    · exact ⟨4, early, none, rfl⟩
    · have quiet : ∀ m < 10, 4 < m → (drainingRun.state m).notifying = 0 := by decide
      rw [draining_rests, quiet _ (by omega) (by omega)] at pending
      exact absurd pending (Nat.lt_irrefl 0)

theorem executor_once_draining :
    Fair drainingRun ∧ (drainingRun.state 9).shutdown = .returned ∧
    (drainingRun.state 9).accepted = [0] ∧ (drainingRun.state 9).refused = [1] ∧
    (drainingRun.state 9).finished.count 0 = 1 ∧
    ∃ m, 1 ≤ m ∧ ∀ k, m ≤ k → (drainingRun.state k).started.count 0 = 1 ∧
      (drainingRun.state k).finished.count 0 = 1 := by
  obtain ⟨safe, live⟩ := executor_once ⟨1, 1, Nat.one_pos, Nat.one_pos⟩
  obtain ⟨_, _, _, _, _, drained⟩ := safe _ (drainingRun.reachable 9)
  exact ⟨draining_fair, by decide, by decide, by decide, drained (by decide) 0 (by decide),
    live drainingRun draining_fair 1 0 (by decide)⟩

end Executor

end Runyard
