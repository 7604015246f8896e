import Runyard.Capacity.Launches
import Runyard.Ledger.Aside
import Runyard.Run.Trace

/-!
# The order of the queue

Both schedulers serve the queue by priority and age. A run that has never been placed waits from
the moment of its submission, so an older run of the same priority that asks for no more is placed
first, whichever scheduler places the runs.
-/

namespace Runyard

/-- The runs that a scheduler skips because other transactions hold them locked. -/
def Op.locked : Op → List String
  | .assign _ locked _ _ => locked
  | .admitKubernetes _ locked _ => locked
  | _ => []

/-- No scheduler skips a queued run. -/
def Unskipped (s : PostgresStore.State) (e : PostgresStore.Event) : Prop :=
  ∀ r ∈ s.db.runs, r.status = .queued → r.id ∉ e.op.locked

/-- The columns of a run that was submitted at a moment. -/
structure RunRow.Entered (now : Int) (r : RunRow) : Prop where
  createdAt : r.createdAt = now
  availableAt : r.availableAt = now

/-! ## Submissions -/

section Submissions

variable {db db' : Db} {now : Int} {id : String}

/-- Every run was there before or was submitted now. -/
def Enters (now : Int) (db db' : Db) : Prop :=
  ∀ r' ∈ db'.runs, (∃ r ∈ db.runs, r.id = r'.id) ∨ r'.Entered now

theorem Enters.refl : Enters now db db := fun r hr => .inl ⟨r, hr, rfl⟩

theorem Enters.insertRun {db₁ : Db} {row : RunRow} (enters : Enters now db db₁)
    (entered : row.Entered now) (h : db₁.insertRun row = .ok db') : Enters now db db' := by
  obtain ⟨_, rfl⟩ := insertRun_ok h
  intro r' hr'
  rcases List.mem_append.mp hr' with old | new
  · exact enters r' old
  · rw [List.mem_singleton.mp new]
    exact .inr entered

theorem Enters.event {db₁ : Db} {kind : EventKind} {detail : String} (enters : Enters now db db₁)
    (h : event now id kind detail db₁ = .ok db') : Enters now db db' := by
  obtain ⟨_, _, rfl⟩ := event_ok h
  intro r' hr'
  obtain ⟨r, hr, rfl⟩ := Table.mem_update.mp hr'
  rcases enters r hr with ⟨old, hold, hid⟩ | entered
  · refine .inl ⟨old, hold, hid.trans ?_⟩
    split <;> rfl
  · refine .inr ?_
    split
    · exact ⟨entered.createdAt, entered.availableAt⟩
    · exact entered

theorem Enters.submission {db₁ : Db} {row : SubmissionRow} (enters : Enters now db db₁)
    (h : db₁.insertSubmission row = .ok db') : Enters now db db' := by
  unfold Db.insertSubmission at h
  split at h
  · cases h
  · cases h
    exact enters

theorem Enters.sweep {sweep : String} {randomId : Nat → RandomId} {i : Nat} {runs : List RunSpec}
    {db₁ : Db} (enters : Enters now db db₁)
    (h : insertSweepRuns now sweep randomId i runs db₁ = .ok db') : Enters now db db' := by
  induction runs generalizing i db₁ with
  | nil =>
    cases h
    exact enters
  | cons run rest ih =>
    simp only [insertSweepRuns, Result.bind_ok] at h
    obtain ⟨_, _, db₂, hinsert, db₃, hevent, hrest⟩ := h
    exact ih ((enters.insertRun ⟨rfl, rfl⟩ hinsert).event hevent) hrest

theorem apply_enters {p : PostgresStore} {op : Op} (h : p.apply now op db = .ok db') :
    Enters now db db' := by
  cases hop : op.requests with
  | false =>
    intro r' hr'
    have births := (apply_requests hop h).1
    have mem : r'.birth ∈ db'.births := List.mem_map_of_mem hr'
    rw [births] at mem
    obtain ⟨r, hr, hbirth⟩ := List.mem_map.mp mem
    exact .inl ⟨r, hr, congrArg Birth.id hbirth⟩
  | true => cases op with
    | submit randomId spec key fingerprint =>
      obtain ⟨⟨db₁, r⟩, hcall, rfl⟩ := Result.map_ok.mp h
      obtain ⟨_, _, hcall⟩ := Result.bind_ok.mp hcall
      split at hcall
      · obtain ⟨_, _, hcall⟩ := Result.bind_ok.mp hcall
        split at hcall
        · cases hcall
        · cases hcall
          exact .refl
      · simp only [Result.bind_ok, Result.pure_ok, Prod.mk.injEq] at hcall
        obtain ⟨db₁, hrun, db₂, hsubmission, db₃, hevent, rfl, _⟩ := hcall
        exact ((Enters.refl.insertRun ⟨rfl, rfl⟩ hrun).submission hsubmission).event hevent
    | submitSweep randomId spec runs key fingerprint =>
      obtain ⟨⟨db₁, r⟩, hcall, rfl⟩ := Result.map_ok.mp h
      rw [submitSweep] at hcall
      split at hcall
      · simp only [Result.bind_ok, Result.pure_ok, Prod.mk.injEq] at hcall
        obtain ⟨_, _, _, _, rfl, _⟩ := hcall
        exact .refl
      · simp only [Result.bind_ok, Result.pure_ok, Prod.mk.injEq] at hcall
        obtain ⟨db₁, hsweep, db₂, hruns, _, _, rfl, _⟩ := hcall
        refine Enters.sweep ?_ hruns
        have same : db₁.runs = db.runs := by
          unfold Db.insertSweep at hsweep
          split at hsweep
          · cases hsweep
          split at hsweep
          · cases hsweep
          · cases hsweep
            rfl
        intro r hr
        exact .inl ⟨r, same ▸ hr, rfl⟩
    | rerun randomId id key =>
      obtain ⟨⟨db₁, r⟩, hcall, rfl⟩ := Result.map_ok.mp h
      simp only [rerun] at hcall
      split at hcall
      · obtain ⟨_, _, hcall⟩ := Result.bind_ok.mp hcall
        split at hcall
        · cases hcall
        · cases hcall
          exact .refl
      · split at hcall
        · cases hcall
        · simp only [Result.bind_ok, Result.pure_ok, Prod.mk.injEq] at hcall
          obtain ⟨_, _, _, _, db₁, hrun, db₂, hsubmission, db₃, hevent, rfl, _⟩ := hcall
          exact ((Enters.refl.insertRun ⟨rfl, rfl⟩ hrun).submission hsubmission).event hevent
    | _ => cases hop

end Submissions

/-! ## Placements -/

/-- The run is the first one that its scheduler may place; runs that ask for less may be placed as
well. -/
structure First (now : Int) (locked : List String) (db : Db) (r : RunRow) : Prop where
  member : r ∈ db.runs
  beats : ∀ r' ∈ db.runs, r'.status = .queued → r'.availableAt ≤ now → r'.id ∉ locked →
    r'.cpuMillis ≤ r.cpuMillis → r'.memoryMib ≤ r.memoryMib → r'.gpuCount ≤ r.gpuCount →
    queueBefore r r'

section Placed

variable {p : PostgresStore} {s : PostgresStore.State} {db db' : Db} {now : Int}
  {attempt : RandomId} {locked : List String} {r : RunRow}

theorem nextQueued_least {fits : RunRow → Bool} (next : nextQueued now locked fits db = some r)
    (monotone : ∀ r', r'.cpuMillis ≤ r.cpuMillis → r'.memoryMib ≤ r.memoryMib →
      r'.gpuCount ≤ r.gpuCount → fits r → fits r') : First now locked db r := by
  obtain ⟨member, condition⟩ := List.mem_filter.mp (Table.best_mem next)
  simp only [Bool.and_eq_true, decide_eq_true_eq] at condition
  refine ⟨member, fun r' hr' queued due unlocked cpu memory gpus => ?_⟩
  refine Table.best_beats queueBefore_total queueBefore_trans next r' (List.mem_filter.mpr
    ⟨hr', ?_⟩)
  simp only [Bool.and_eq_true, decide_eq_true_eq, Bool.not_eq_true', List.contains_eq_mem,
    decide_eq_false_iff_not]
  exact ⟨⟨⟨queued, due⟩, monotone r' cpu memory gpus condition.1.2⟩, unlocked⟩

theorem fitsWorker_mono {devices : Nat} {cpu memory : Int} {r' : RunRow}
    (hcpu : r'.cpuMillis ≤ r.cpuMillis) (hmemory : r'.memoryMib ≤ r.memoryMib)
    (hgpus : r'.gpuCount ≤ r.gpuCount) (fits : fitsWorker devices cpu memory r) :
    fitsWorker devices cpu memory r' := by
  simp only [fitsWorker, Bool.and_eq_true, decide_eq_true_eq] at fits ⊢
  omega

/-- A call of `admit_kubernetes` that returned admitted nothing, or the first run of the queue. -/
theorem admitKubernetes_first {maxActive : Nat} {reply : Option Assignment}
    (wf : db.toJournal.WellFormed)
    (h : admitKubernetes p.timing now attempt locked maxActive db = .ok (db', reply)) :
    db' = db ∨ ∃ r, First now locked db r ∧ (∀ a ∈ db.attempts, a.id ≠ attempt.text) ∧
      db'.attempts = db.attempts ++ [newAttempt p.timing now attempt kubernetesWorker r] := by
  obtain ⟨_, _, h⟩ := Result.bind_ok.mp h
  split at h
  · obtain ⟨rfl, _⟩ := Prod.mk.inj (Result.pure_ok.mp h)
    exact .inl rfl
  split at h
  · obtain ⟨rfl, _⟩ := Prod.mk.inj (Result.pure_ok.mp h)
    exact .inl rfl
  next r hnext =>
  simp only [Result.bind_ok, Result.pure_ok, Prod.mk.injEq] at h
  obtain ⟨db₁, hactivate, rfl, _⟩ := h
  obtain ⟨chosen, _, hplaced⟩ := chosen_of_activate wf hnext hactivate
  exact .inr ⟨r, nextQueued_least hnext (fun _ _ _ _ _ => rfl), chosen.fresh,
    congrArg (·.attempts) hplaced⟩

theorem assign_first {id session : String} {reply : Option Assignment}
    (wf : db.toLedger.WellFormed)
    (h : assign p.timing now attempt locked id session db = .ok (db', reply)) :
    db' = db ∨ ∃ r worker, First now locked db r ∧ (∀ a ∈ db.attempts, a.id ≠ attempt.text) ∧
      db'.attempts = db.attempts ++ [newAttempt p.timing now attempt worker r] := by
  obtain ⟨w, _, _, _, assigns⟩ := assign_assigns wf h
  cases assigns with
  | idle => exact .inl rfl
  | replayed => exact .inl rfl
  | @created r _ _ _ _ next _ fresh attempts =>
    refine .inr ⟨r, w.id, nextQueued_least next fun r' cpu memory gpus fits => ?_, fresh, attempts⟩
    exact fitsWorker_mono cpu memory gpus fits

/-- A run that gets its first attempt was the first one that could get it. -/
theorem placed_first {op : Op} {a' : AttemptRow} (hs : p.system.Reachable s)
    (ha' : a' ∈ (p.commit now op s.db).attempts) (hr : r ∈ s.db.runs) (hrun : a'.runId = r.id)
    (waiting : ∀ a ∈ s.db.attempts, a.runId ≠ r.id) : First now op.locked s.db r := by
  have wf := PostgresStore.reachable_wellFormed hs
  have effect : Effect p now s.db.toLedger op _ := PostgresStore.commit_effect wf
  have placed : ∀ worker attempt (r₀ : RunRow), First now op.locked s.db r₀ →
      a' ∈ s.db.attempts ++ [newAttempt p.timing now attempt worker r₀] →
      First now op.locked s.db r := by
    intro worker attempt r₀ first mem
    rcases List.mem_append.mp mem with old | new
    · exact absurd hrun (waiting a' old)
    · rw [List.mem_singleton.mp new] at hrun
      rw [← wf.runs.eq first.member hr hrun]
      exact first
  rcases p.commit_cases now op s.db with same | hcommit
  · rw [same] at ha'
    exact absurd hrun (waiting a' ha')
  rcases effect.placements_from wf a'.placement (Journal.mem_placements ha') with
    ⟨b, hb, hid, _⟩ | ⟨_, ⟨attempt, locked, maxActive, rfl, _⟩ | ⟨attempt, locked, session, rfl, _⟩⟩
  · obtain ⟨a, ha, rfl⟩ := List.mem_map.mp hb
    exfalso
    rcases effect.row_from ha' with ⟨c, hc, hcase⟩ | ⟨r₁, r₂, c, events, hc, move⟩ |
      ⟨attempt, worker, r₁, chosen, rfl⟩
    · have kept : a'.runId = c.runId := by
        rcases hcase with rfl | rfl | rfl <;> rfl
      exact waiting c hc (kept.symm.trans hrun)
    · exact waiting c hc (move.attempt_identity.runId.symm.trans hrun)
    · exact chosen.fresh a ha hid
  · obtain ⟨⟨db₁, reply⟩, hadmit, hdb⟩ := Result.map_ok.mp hcommit
    rw [← hdb] at ha'
    rcases admitKubernetes_first wf.toWellFormed hadmit with rfl | ⟨r₀, first, _, attempts⟩
    · exact absurd hrun (waiting a' ha')
    · exact placed _ attempt r₀ first (attempts ▸ ha')
  · obtain ⟨⟨db₁, reply⟩, hassign, hdb⟩ := Result.map_ok.mp hcommit
    rw [← hdb] at ha'
    rcases assign_first wf hassign with rfl | ⟨r₀, worker, first, _, attempts⟩
    · exact absurd hrun (waiting a' ha')
    · exact placed worker attempt r₀ first (attempts ▸ ha')

end Placed

/-! ## Waiting runs -/

section Waiting

variable {timing : Timing} {now : Int} {h h' : History}

theorem History.Step.created (step : History.Step timing now h h') :
    h'.run.createdAt = h.run.createdAt := by
  cases step with
  | moved _ move => cases move <;> rfl
  | placed | cleaned | cancelled | requeued => rfl

theorem History.Step.priority (step : History.Step timing now h h') :
    h'.run.priority = h.run.priority := by
  cases step with
  | moved _ move => cases move <;> rfl
  | placed | cleaned | cancelled | requeued => rfl

/-- Attempts are never removed. -/
theorem History.Step.attempts (step : History.Step timing now h h') (idle : h'.attempts = []) :
    h.attempts = [] ∧ h'.run.availableAt = h.run.availableAt := by
  cases step with
  | moved member =>
    exact absurd (List.map_eq_nil_iff.mp idle) (List.ne_nil_of_mem member)
  | placed => exact absurd idle (List.append_ne_nil_of_right_ne_nil _ (List.cons_ne_nil _ _))
  | cleaned => exact ⟨List.map_eq_nil_iff.mp idle, rfl⟩
  | cancelled => exact ⟨List.map_eq_nil_iff.mp idle, rfl⟩
  | requeued => exact ⟨idle, rfl⟩

end Waiting

section Order

variable {p : PostgresStore} {s s' : PostgresStore.State} {e : PostgresStore.Event}

/-- What holds of every run as soon as it is submitted. -/
structure Queued (s : PostgresStore.State) : Prop where
  created : ∀ r ∈ s.db.runs, r.createdAt ≤ s.clock
  due : ∀ r ∈ s.db.runs, r.generation = 0 → r.availableAt = r.createdAt

/-- An older run that asks for no more was placed before, or cancelled. -/
def Ordered (s : PostgresStore.State) : Prop :=
  ∀ older ∈ s.db.runs, ∀ younger ∈ s.db.runs, older.createdAt < younger.createdAt →
    younger.priority ≤ older.priority → older.cpuMillis ≤ younger.cpuMillis →
    older.memoryMib ≤ younger.memoryMib → older.gpuCount ≤ younger.gpuCount →
    0 < younger.generation → 0 < older.generation ∨ older.status = .cancelled

/-- Where a run of the next state comes from. -/
theorem run_before (hs : p.system.Reachable s) (h : p.system.step s e = some s') {r' : RunRow}
    (hr' : r' ∈ s'.db.runs) :
    (r'.generation = 0 ∧ r'.createdAt = e.now ∧ r'.availableAt = e.now) ∨
    ∃ r ∈ s.db.runs, r.id = r'.id ∧ (s'.db.history r' = s.db.history r ∨
      History.Step p.timing e.now (s.db.history r) (s'.db.history r')) := by
  obtain ⟨_, rfl⟩ := p.step_eq h
  have wf := PostgresStore.reachable_wellFormed hs
  have effect : Effect p e.now s.db.toLedger e.op _ := PostgresStore.commit_effect wf
  cases effect.evolved wf r' hr' with
  | born _ fresh unknown _ =>
    left
    rcases p.commit_cases e.now e.op s.db with same | hcommit
    · have old : r' ∈ s.db.runs := same ▸ hr'
      exact absurd rfl (unknown r' old)
    · rcases apply_enters hcommit r' hr' with ⟨r, hr, hid⟩ | entered
      · exact absurd hid (unknown r hr)
      · exact ⟨fresh.generation, entered.createdAt, entered.availableAt⟩
  | kept member history => exact .inr ⟨_, member, (congrArg (·.run.id) history).symm, .inl history⟩
  | stepped member id step => exact .inr ⟨_, member, id.symm, .inr step⟩

theorem Queued.step (queued : Queued s) (hs : p.system.Reachable s)
    (h : p.system.step s e = some s') : Queued s' := by
  have hclock := (p.step_eq h).1
  have later : s'.clock = e.now := by rw [(p.step_eq h).2]
  constructor
  · intro r' hr'
    rw [later]
    rcases run_before hs h hr' with ⟨_, created, _⟩ | ⟨r, hr, _, same | step⟩
    · exact le_of_eq created
    · have created : r'.createdAt = r.createdAt := congrArg (·.run.createdAt) same
      rw [created]
      exact (queued.created r hr).trans hclock
    · have created : r'.createdAt = r.createdAt := step.created
      rw [created]
      exact (queued.created r hr).trans hclock
  · intro r' hr' idle
    rcases run_before hs h hr' with ⟨_, created, available⟩ | ⟨r, hr, _, same | step⟩
    · rw [created, available]
    · have same : r' = r := congrArg (·.run) same
      rw [same] at idle ⊢
      exact queued.due r hr idle
    · have coupled := coupled_reachable (hs.step h) r' hr'
      have empty : (s'.db.history r').attempts = [] := by
        have count : r'.generation = (s'.db.history r').attempts.length := coupled.count
        rw [idle] at count
        exact List.length_eq_zero_iff.mp (by omega)
      obtain ⟨before, available⟩ := step.attempts empty
      have count : r.generation = (s.db.history r).attempts.length :=
        (coupled_reachable hs r hr).count
      rw [before] at count
      have created : r'.createdAt = r.createdAt := step.created
      have available : r'.availableAt = r.availableAt := available
      rw [created, available]
      exact queued.due r hr count

/-- The columns that the queue is ordered by stay, a placed run stays placed, and a cancelled one
cancelled. -/
structure Goes (r r' : RunRow) : Prop extends r.SameIdentity r' where
  createdAt : r'.createdAt = r.createdAt
  priority : r'.priority = r.priority
  placed : 0 < r.generation → 0 < r'.generation
  cancelled : r.status = .cancelled → r'.status = .cancelled

theorem Goes.refl (r : RunRow) : Goes r r := ⟨⟨rfl, rfl, rfl, rfl, rfl⟩, rfl, rfl, id, id⟩

theorem run_goes (hs : p.system.Reachable s) (h : p.system.step s e = some s') {r' : RunRow}
    (hr' : r' ∈ s'.db.runs) :
    (r'.generation = 0 ∧ r'.createdAt = e.now) ∨ ∃ r ∈ s.db.runs, Goes r r' := by
  rcases run_before hs h hr' with ⟨idle, created, _⟩ | ⟨r, hr, _, same | step⟩
  · exact .inl ⟨idle, created⟩
  · have same : r' = r := congrArg (·.run) same
    exact .inr ⟨r, hr, same ▸ .refl r⟩
  · have proper := Journal.history_proper (PostgresStore.reachable_wellFormed hs).toWellFormed r
    have coupled := coupled_reachable hs r hr
    refine .inr ⟨r, hr, step.run_identity, step.created, step.priority, fun placed => ?_,
      fun cancelled => ?_⟩
    · by_contra idle
      have count : r.generation = (s.db.history r).attempts.length := coupled.count
      have count' : r'.generation = (s'.db.history r').attempts.length :=
        (coupled_reachable (hs.step h) r' hr').count
      have empty := (step.attempts (List.length_eq_zero_iff.mp (by omega))).1
      rw [empty] at count
      exact absurd placed (by rw [count]; exact lt_irrefl 0)
    · have terminal : (s.db.history r).run.status.terminal := by
        change r.status.terminal
        rw [cancelled]
        rfl
      have kept : r'.status = r.status := History.terminal_step proper coupled terminal step
      rw [kept, cancelled]

/-- A run that was never placed nor cancelled is queued. -/
theorem queued_idle (hs : p.system.Reachable s) {r : RunRow} (hr : r ∈ s.db.runs)
    (idle : ¬0 < r.generation) (uncancelled : r.status ≠ .cancelled) :
    r.generation = 0 ∧ r.status = .queued := by
  have coupled := coupled_reachable hs r hr
  have count : r.generation = (s.db.history r).attempts.length := coupled.count
  have empty : (s.db.history r).attempts = [] := List.length_eq_zero_iff.mp (by omega)
  refine ⟨by omega, (coupled.idle empty).resolve_right uncancelled⟩

theorem Ordered.step (ordered : Ordered s) (queued : Queued s) (hs : p.system.Reachable s)
    (unskipped : Unskipped s e) (h : p.system.step s e = some s') : Ordered s' := by
  have hclock := (p.step_eq h).1
  intro older' holder' younger' hyounger' before priority cpu memory gpus placed'
  rcases run_goes hs h hyounger' with ⟨idle, _⟩ | ⟨younger, hyounger, goes⟩
  · exact absurd placed' (by rw [idle]; exact lt_irrefl 0)
  rcases run_goes hs h holder' with ⟨_, new⟩ | ⟨older, holder, goes'⟩
  · have old := queued.created younger hyounger
    rw [goes.createdAt, new] at before
    exact absurd before (not_lt.mpr (old.trans hclock))
  rw [goes.createdAt, goes'.createdAt] at before
  rw [goes.priority, goes'.priority] at priority
  rw [goes.cpuMillis, goes'.cpuMillis] at cpu
  rw [goes.memoryMib, goes'.memoryMib] at memory
  rw [goes.gpuCount, goes'.gpuCount] at gpus
  by_cases placed : 0 < younger.generation
  · rcases ordered older holder younger hyounger before priority cpu memory gpus placed with h | h
    · exact .inl (goes'.placed h)
    · exact .inr (goes'.cancelled h)
  by_contra behind
  rw [not_or] at behind
  obtain ⟨idle, waiting⟩ := queued_idle hs holder (fun h => behind.1 (goes'.placed h))
    fun h => behind.2 (goes'.cancelled h)
  have first : First e.now e.op.locked s.db younger := by
    have coupled' := coupled_reachable (hs.step h) younger' hyounger'
    have count' : younger'.generation = (s'.db.history younger').attempts.length := coupled'.count
    have coupled := coupled_reachable hs younger hyounger
    have count : younger.generation = (s.db.history younger).attempts.length := coupled.count
    have empty : (s.db.history younger).attempts = [] := List.length_eq_zero_iff.mp (by omega)
    obtain ⟨a', ha'⟩ := List.exists_mem_of_length_pos
      (l := (s'.db.history younger').attempts) (by omega)
    obtain ⟨hmem, hrun⟩ := Journal.mem_attemptsOf.mp ha'
    rw [(p.step_eq h).2] at hmem
    refine placed_first hs hmem hyounger (hrun.trans goes.id) fun a ha hid => ?_
    have member : a ∈ (s.db.history younger).attempts := Journal.mem_attemptsOf.mpr ⟨ha, hid⟩
    rw [empty] at member
    cases member
  have due : older.availableAt ≤ e.now := by
    rw [queued.due older holder idle]
    exact (queued.created older holder).trans hclock
  have beats :=
    first.beats older holder waiting due (unskipped older holder waiting) cpu memory gpus
  rw [queueBefore_iff] at beats
  omega

end Order

/-- As long as no scheduler skips a run that is locked, no run gets its first attempt before an
older one of at least its priority that asks for no more and was not cancelled, whichever of the
schedulers place them. -/
theorem queue_order (p : PostgresStore) {s : PostgresStore.State}
    (run : p.system.Leads Unskipped p.system.init s) {older younger : RunRow}
    (holder : older ∈ s.db.runs) (hyounger : younger ∈ s.db.runs)
    (before : older.createdAt < younger.createdAt) (priority : younger.priority ≤ older.priority)
    (cpu : older.cpuMillis ≤ younger.cpuMillis) (memory : older.memoryMib ≤ younger.memoryMib)
    (gpus : older.gpuCount ≤ younger.gpuCount) (placed : 0 < younger.generation) :
    0 < older.generation ∨ older.status = .cancelled := by
  have both : Queued s ∧ Ordered s := by
    refine run.stable (P := fun s => Queued s ∧ Ordered s) .refl ⟨⟨?_, ?_⟩, ?_⟩ ?_
    · exact fun r hr => absurd hr List.not_mem_nil
    · exact fun r hr => absurd hr List.not_mem_nil
    · exact fun r hr => absurd hr List.not_mem_nil
    · rintro s e s' hs ⟨queued, ordered⟩ unskipped h
      exact ⟨queued.step hs h, ordered.step queued hs unskipped h⟩
  exact both.2 older holder younger hyounger before priority cpu memory gpus placed

instance (s : PostgresStore.State) (e : PostgresStore.Event) : Decidable (Unskipped s e) :=
  inferInstanceAs (Decidable (∀ _ ∈ _, _ → _))

namespace Sample

def youngerId : RandomId := ⟨"00000000000000000000000000000004", by decide⟩

def youngerAttempt : RandomId := ⟨"00000000000000000000000000000005", by decide⟩

/-- Two runs of one shape are submitted and assigned to one worker. -/
def pair : List PostgresStore.Event :=
  [⟨1, .submit runId spec "first" "one"⟩, ⟨2, .submit youngerId spec "second" "two"⟩,
    ⟨3, .registerWorker "worker" "session" ⟨4000, 4096⟩ {}⟩,
    ⟨4, .assign attemptId [] "worker" "session"⟩, ⟨5, .start attemptId.text 1 "runner" ""⟩,
    ⟨6, .assign youngerAttempt [] "worker" "session"⟩]

end Sample

theorem queue_order_pair : ∃ s, Sample.store.system.Leads Unskipped Sample.store.system.init s ∧
    ∃ older ∈ s.db.runs, ∃ younger ∈ s.db.runs, older.createdAt < younger.createdAt ∧
      0 < younger.generation ∧ (0 < older.generation ∨ older.status = .cancelled) := by
  have run : (Sample.store.system.replay (fun s e => decide (Unskipped s e))
      Sample.store.system.init Sample.pair).map (fun s => decide (∃ older ∈ s.db.runs,
        ∃ younger ∈ s.db.runs, older.createdAt < younger.createdAt ∧
          younger.priority ≤ older.priority ∧ older.cpuMillis ≤ younger.cpuMillis ∧
          older.memoryMib ≤ younger.memoryMib ∧ older.gpuCount ≤ younger.gpuCount ∧
          0 < younger.generation)) = some true := by
    decide +kernel
  obtain ⟨s, hs, found⟩ := Option.map_eq_some_iff.mp run
  obtain ⟨older, holder, younger, hyounger, before, priority, cpu, memory, gpus, placed⟩ :=
    of_decide_eq_true found
  have leads : Sample.store.system.Leads Unskipped Sample.store.system.init s :=
    (System.replay_leads hs).mono fun s e h => of_decide_eq_true h
  exact ⟨s, leads, older, holder, younger, hyounger, before, placed,
    queue_order Sample.store leads holder hyounger before priority cpu memory gpus placed⟩

end Runyard
