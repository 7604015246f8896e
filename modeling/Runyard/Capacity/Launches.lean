import Runyard.Capacity.Gpus
import Runyard.Capacity.InventoryLog
import Runyard.Run.Lifetime
import Mathlib.Tactic.MkIffOfInductiveProp

/-!
# Launches and their replay

A worker that lost the reply of `assign` polls again. It gets the oldest launch that it has not
acknowledged, with the devices reserved by the call that created it, and only a worker without
such a launch gets a new attempt.
-/

namespace Runyard

/-- The launch was not acknowledged, and the worker could still carry it out. -/
@[mk_iff] structure Unacknowledged (now : Int) (w : WorkerRow) (a : AttemptRow) : Prop where
  worker : a.workerId = w.id
  starting : a.status = .starting
  runtime : a.runtimeId = none
  inTime : now < a.launchDeadline
  gpus : a.gpuCount = 0 ∨ w.gpuReady ∧ w.gpuFresh now

/-- A queued run that is due and asks for no more than what is left of the worker. -/
@[mk_iff] structure Eligible (now : Int) (w : WorkerRow) (db : Db) (r : RunRow) : Prop where
  member : r ∈ db.runs
  queued : r.status = .queued
  due : r.availableAt ≤ now
  gpus : r.gpuCount ≤ (offeredGpus now w db).length
  cpu : r.cpuMillis ≤ w.cpuMillis - db.reserved w.id (·.cpuMillis)
  memory : r.memoryMib ≤ w.memoryMib - db.reserved w.id (·.memoryMib)

instance (now : Int) (w : WorkerRow) (a : AttemptRow) : Decidable (Unacknowledged now w a) :=
  decidable_of_iff _ (unacknowledged_iff now w a).symm

instance (now : Int) (w : WorkerRow) (db : Db) (r : RunRow) : Decidable (Eligible now w db r) :=
  decidable_of_iff _ (eligible_iff now w db r).symm

/-- What a call of `assign` that returned did: nothing, a replay, or a new attempt. -/
inductive Assigns (timing : Timing) (now : Int) (attempt : RandomId) (locked : List String)
    (w : WorkerRow) (db : Db) : Db → Option Assignment → Prop where
  | idle : Assigns timing now attempt locked w db db none
  | replayed {a : AttemptRow} {r : RunRow} (member : a ∈ db.attempts) :
      Assigns timing now attempt locked w db db (some ⟨a, loadGpuAllocations a.id db, r.spec⟩)
  | created {r : RunRow} {db' : Db} (available : w.available timing now) (undrained : ¬ w.drained)
      (acknowledged : pendingLaunches now w.id (w.gpuAvailable now) db = [])
      (next : nextQueued now locked (fitsWorker (offeredGpus now w db).length
        (w.cpuMillis - db.reserved w.id (·.cpuMillis))
        (w.memoryMib - db.reserved w.id (·.memoryMib))) db = some r)
      (known : db.run? r.id = some r)
      (fresh : ∀ a ∈ db.attempts, a.id ≠ attempt.text)
      (attempts : db'.attempts = db.attempts ++ [newAttempt timing now attempt w.id r]) :
      Assigns timing now attempt locked w db db' (some ⟨newAttempt timing now attempt w.id r,
        loadGpuAllocations attempt.text db', r.spec⟩)

theorem queueBefore_iff {r s : RunRow} : queueBefore r s ↔ s.priority < r.priority ∨
    r.priority = s.priority ∧ (r.createdAt < s.createdAt ∨
      r.createdAt = s.createdAt ∧ r.id ≤ s.id) := by
  rw [queueBefore, Bool.or_eq_true, Bool.and_eq_true, decide_eq_true_eq, decide_eq_true_eq,
    decide_eq_true_eq, createdBefore]

theorem queueBefore_total (r s : RunRow) : queueBefore r s ∨ queueBefore s r := by
  rw [queueBefore_iff, queueBefore_iff]
  rcases le_total r.id s.id with h | h
  · simp only [h, and_true]
    omega
  · simp only [h, and_true]
    omega

theorem queueBefore_trans (r s t : RunRow) (first : queueBefore r s) (second : queueBefore s t) :
    queueBefore r t := by
  rw [queueBefore_iff] at first second ⊢
  have ids : r.id ≤ s.id → s.id ≤ t.id → r.id ≤ t.id := le_trans
  grind

section Calls

variable {p : PostgresStore} {db db' : Db} {now : Int} {attempt : RandomId}
  {locked : List String} {id session : String}

theorem assign_assigns {reply : Option Assignment} (wf : db.toLedger.WellFormed)
    (h : assign p.timing now attempt locked id session db = .ok (db', reply)) :
    ∃ w, db.worker? id = some w ∧ w.id = id ∧ w.session = session ∧
      Assigns p.timing now attempt locked w db db' reply := by
  obtain ⟨w, hworker, h⟩ := Result.bind_ok.mp h
  obtain ⟨hw, rfl, hsession⟩ := requireWorker_ok hworker
  refine ⟨w, hw, rfl, hsession, ?_⟩
  split at h
  · obtain ⟨rfl, rfl⟩ := Prod.mk.inj (Result.pure_ok.mp h)
    exact .idle
  next havailable =>
  split at h
  · next a rest hpending =>
    have ha : a ∈ db.attempts := by
      have hmem : a ∈ pendingLaunches now w.id (w.gpuAvailable now) db := by simp [hpending]
      exact (List.mem_filter.mp ((List.mem_insertionSort _).mp hmem)).1
    split at h
    · cases h
    · obtain ⟨rfl, rfl⟩ := Prod.mk.inj (Result.pure_ok.mp h)
      exact .replayed ha
  next hnone =>
  split at h
  · obtain ⟨rfl, rfl⟩ := Prod.mk.inj (Result.pure_ok.mp h)
    exact .idle
  next hdrained =>
  dsimp only at h
  split at h
  · obtain ⟨rfl, rfl⟩ := Prod.mk.inj (Result.pure_ok.mp h)
    exact .idle
  next r hnext =>
  simp only [Result.bind_ok, Result.pure_ok, Prod.mk.injEq] at h
  obtain ⟨db₁, hactivate, db₂, hreserve, rfl, rfl⟩ := h
  obtain ⟨chosen, _, hplaced⟩ := chosen_of_activate wf.toWellFormed hnext hactivate
  obtain ⟨_, hreserved⟩ := reserveGpus_ok hreserve
  refine .created (by simpa using havailable) hdrained hnone hnext chosen.run chosen.fresh ?_
  rw [hreserved, hplaced]
  rfl

theorem assign_replay {w : WorkerRow} {a : AttemptRow} {rest : List AttemptRow} {r : RunRow}
    (known : db.worker? w.id = some w) (available : w.available p.timing now)
    (pending : pendingLaunches now w.id (w.gpuAvailable now) db = a :: rest)
    (run : db.run? a.runId = some r) :
    assign p.timing now attempt locked w.id w.session db =
      .ok (db, some ⟨a, loadGpuAllocations a.id db, r.spec⟩) := by
  have current : requireWorker w.id w.session db = .ok w := by
    rw [requireWorker, known]
    simp [throwIf]
  have awake : ¬ (!w.available p.timing now) = true := by simp [available]
  refine Result.bind_ok.mpr ⟨w, current, ?_⟩
  rw [if_neg awake]
  split
  · next b others hpending =>
    obtain ⟨rfl, -⟩ := List.cons.inj (pending.symm.trans hpending)
    rw [run]
    exact Result.pure_ok.mpr rfl
  · next hnone =>
    rw [pending] at hnone
    cases hnone

/-- The queue is served in order among the runs that are not locked. -/
theorem nextQueued_first {w : WorkerRow} {r : RunRow}
    (next : nextQueued now locked (fitsWorker (offeredGpus now w db).length
      (w.cpuMillis - db.reserved w.id (·.cpuMillis))
      (w.memoryMib - db.reserved w.id (·.memoryMib))) db = some r) :
    Eligible now w db r ∧ r.id ∉ locked ∧
      ∀ r', Eligible now w db r' → r'.id ∉ locked → queueBefore r r' := by
  have condition : ∀ r', r' ∈ db.runs.filter (fun r => r.status = .queued && r.availableAt ≤ now &&
      fitsWorker (offeredGpus now w db).length (w.cpuMillis - db.reserved w.id (·.cpuMillis))
        (w.memoryMib - db.reserved w.id (·.memoryMib)) r && !locked.contains r.id) ↔
      Eligible now w db r' ∧ r'.id ∉ locked := by
    intro r'
    simp only [fitsWorker, List.mem_filter, Bool.and_eq_true, decide_eq_true_eq,
      Bool.not_eq_true', List.contains_eq_mem, decide_eq_false_iff_not]
    constructor
    · rintro ⟨member, ⟨⟨queued, due⟩, ⟨gpus, cpu⟩, memory⟩, unlocked⟩
      exact ⟨⟨member, queued, due, gpus, cpu, memory⟩, unlocked⟩
    · rintro ⟨⟨member, queued, due, gpus, cpu, memory⟩, unlocked⟩
      exact ⟨member, ⟨⟨queued, due⟩, ⟨gpus, cpu⟩, memory⟩, unlocked⟩
  obtain ⟨eligible, unlocked⟩ := (condition r).mp (Table.best_mem next)
  refine ⟨eligible, unlocked, fun r' heligible hunlocked => ?_⟩
  exact Table.best_beats queueBefore_total queueBefore_trans next r'
    ((condition r').mpr ⟨heligible, hunlocked⟩)

end Calls

/-! ## The launches that a call may replay -/

instance : Std.Total fun a b : AttemptRow => a.createdAt ≤ b.createdAt :=
  ⟨fun a b => le_total a.createdAt b.createdAt⟩

instance : IsTrans AttemptRow fun a b => a.createdAt ≤ b.createdAt :=
  ⟨fun _ _ _ => le_trans⟩

section Pending

variable {db : Db} {now t : Int} {w : WorkerRow} {a : AttemptRow} {rest : List AttemptRow}

theorem pendingLaunches_oldest
    (pending : pendingLaunches now w.id (w.gpuAvailable now) db = a :: rest) :
    ∀ b ∈ pendingLaunches now w.id (w.gpuAvailable now) db, a.createdAt ≤ b.createdAt := by
  have sorted : (pendingLaunches now w.id (w.gpuAvailable now) db).Pairwise
      fun a b => a.createdAt ≤ b.createdAt := List.pairwise_insertionSort _ _
  rw [pending] at sorted ⊢
  intro b hb
  rcases List.mem_cons.mp hb with rfl | hb
  · exact le_refl _
  · exact (List.pairwise_cons.mp sorted).1 b hb

/-- Time only takes launches away, so the one that is replayed is replayed again. -/
theorem pendingLaunches_later (hnow : now ≤ t)
    (pending : pendingLaunches now w.id (w.gpuAvailable now) db = a :: rest)
    (still : a ∈ pendingLaunches t w.id (w.gpuAvailable t) db) :
    ∃ rest', pendingLaunches t w.id (w.gpuAvailable t) db = a :: rest' := by
  have fresh : w.gpuAvailable t → w.gpuAvailable now := by
    simp only [WorkerRow.gpuAvailable, WorkerRow.gpuFresh, Bool.and_eq_true]
    rintro ⟨able, observed⟩
    refine ⟨able, ?_⟩
    split at observed
    · cases observed
    · simp only [decide_eq_true_eq] at observed ⊢
      omega
  have narrowed : pendingLaunches t w.id (w.gpuAvailable t) db =
      (pendingLaunches now w.id (w.gpuAvailable now) db).filter fun b =>
        b ∈ pendingLaunches t w.id (w.gpuAvailable t) db := by
    rw [pendingLaunches, pendingLaunches, Table.filter_insertionSort, List.filter_filter]
    refine congrArg _ (List.filter_congr fun b hb => ?_)
    rw [Bool.eq_iff_iff]
    simp only [List.mem_insertionSort, List.mem_filter, hb, Bool.and_eq_true, Bool.or_eq_true,
      decide_eq_true_eq, true_and]
    constructor
    · rintro ⟨⟨⟨⟨⟨active, worker⟩, starting⟩, runtime⟩, inTime⟩, gpus⟩
      exact ⟨⟨⟨⟨⟨⟨active, worker⟩, starting⟩, runtime⟩, inTime⟩, gpus⟩,
        ⟨⟨⟨⟨active, worker⟩, starting⟩, runtime⟩, by omega⟩, gpus.imp id fresh⟩
    · exact And.left
  rw [pending, List.filter_cons_of_pos (by simpa using still)] at narrowed
  exact ⟨_, narrowed⟩

end Pending

section Reachable

variable {p : PostgresStore} {s s' : PostgresStore.State} {now : Int} {w : WorkerRow}

theorem mem_pendingLaunches (hs : p.system.Reachable s) (known : s.db.worker? w.id = some w)
    {a : AttemptRow} : a ∈ pendingLaunches now w.id (w.gpuAvailable now) s.db ↔
      a ∈ s.db.attempts ∧ Unacknowledged now w a := by
  simp only [pendingLaunches, List.mem_insertionSort, List.mem_filter, Bool.and_eq_true,
    Bool.or_eq_true, decide_eq_true_eq, Option.isNone_iff_eq_none, WorkerRow.gpuAvailable]
  constructor
  · rintro ⟨ha, ⟨⟨⟨⟨-, worker⟩, starting⟩, runtime⟩, inTime⟩, gpus⟩
    exact ⟨ha, worker, starting, runtime, inTime, gpus.imp id fun h => ⟨h.1.2, h.2⟩⟩
  · rintro ⟨ha, worker, starting, runtime, inTime, gpus⟩
    -- A starting attempt is the active one of its run.
    have wf := (PostgresStore.reachable_wellFormed hs).toWellFormed
    obtain ⟨r, hr, hrun⟩ := wf.attemptRun a ha
    have coupled := (coupled_phased_reachable hs r hr).1
    have active := (coupled.live_active (Journal.history_proper wf r)
      (Journal.mem_attemptsOf.mpr ⟨ha, hrun.symm⟩) (by rw [starting]; rfl)).1
    have joined : (s.db.runs.any fun r => r.activeAttempt = some a.id) = true :=
      List.any_eq_true.mpr ⟨r, hr, decide_eq_true active⟩
    exact ⟨ha, ⟨⟨⟨⟨joined, worker⟩, starting⟩, runtime⟩, inTime⟩,
      gpus.imp id fun h => ⟨⟨InventoryLog.ready_capable hs known h.1, h.1⟩, h.2⟩⟩

/-- The call that created an attempt of the worker before `s`, with its reply. -/
def Launched (p : PostgresStore) (s : PostgresStore.State) (worker : String)
    (original : Assignment) : Prop :=
  ∃ s₀ now attempt locked session db, p.system.Reachable s₀ ∧ s₀.clock ≤ now ∧
    (∀ a ∈ s₀.db.attempts, a.id ≠ original.attempt.id) ∧
    assign p.timing now attempt locked worker session s₀.db = .ok (db, some original) ∧
    p.system.Later ⟨db, now⟩ s

theorem Launched.later {worker : String} {original : Assignment}
    (launched : Launched p s worker original) (later : p.system.Later s s') :
    Launched p s' worker original := by
  obtain ⟨s₀, now, attempt, locked, session, db, hs₀, hclock, fresh, hassign, run⟩ := launched
  exact ⟨s₀, now, attempt, locked, session, db, hs₀, hclock, fresh, hassign, run.trans later⟩

/-- Every attempt of a Docker worker was created by a call of `assign`. -/
theorem launched_reachable (hs : p.system.Reachable s) : ∀ a ∈ s.db.placements,
    a.workerId ≠ kubernetesWorker →
      ∃ original, Launched p s a.workerId original ∧ original.attempt.id = a.id := by
  refine System.Leads.stable (P := fun s => ∀ a ∈ s.db.placements, a.workerId ≠ kubernetesWorker →
    ∃ original, Launched p s a.workerId original ∧ original.attempt.id = a.id)
    System.reachable_init hs (by intro a ha; cases ha) ?_
  intro s e s' hs launched _ hstep a' ha' docker
  have later : p.system.Later s s' := .single trivial hstep
  obtain ⟨hclock, rfl⟩ := p.step_eq hstep
  have wf := PostgresStore.reachable_wellFormed hs
  have effect : Effect p e.now _ e.op _ := PostgresStore.commit_effect wf
  by_cases hold : ∃ a ∈ s.db.placements, a.id = a'.id ∧ a.workerId = a'.workerId
  · obtain ⟨a, ha, hid, hworker⟩ := hold
    obtain ⟨original, horiginal, hreply⟩ := launched a ha (hworker ▸ docker)
    exact ⟨original, hworker ▸ horiginal.later later, hreply.trans hid⟩
  rcases effect.placements_from wf a' ha' with
    h | ⟨_, ⟨_, _, _, _, _, h⟩ | ⟨attempt, locked, session, hop, hid⟩⟩
  · exact absurd h hold
  · exact absurd h docker
  have unchanged : (p.commit e.now e.op s.db).attempts ≠ s.db.attempts := by
    intro same
    have hplacements : (p.commit e.now e.op s.db).placements = s.db.placements :=
      congrArg (List.map AttemptRow.placement) same
    exact hold ⟨a', hplacements ▸ ha', rfl, rfl⟩
  rcases p.commit_cases e.now e.op s.db with hsame | hcommit
  · exact absurd (congrArg (fun db : Db => db.attempts) hsame) unchanged
  rw [hop] at hcommit
  obtain ⟨⟨db, reply⟩, hassign, hdb⟩ := Result.map_ok.mp hcommit
  obtain ⟨w, hw, hworker, _, assigns⟩ := assign_assigns wf hassign
  rw [hop, ← hdb] at unchanged
  cases assigns with
  | idle => exact absurd rfl unchanged
  | replayed => exact absurd rfl unchanged
  | created available undrained acknowledged next known fresh attempts =>
    refine ⟨_, ⟨s, e.now, attempt, locked, session, db, hs, hclock, fresh, hassign, ?_⟩, hid.symm⟩
    rw [hop, ← hdb]
    exact .refl

/-- While an attempt is live, its allocations stay as they are. -/
theorem Effect.allocations_live {l l' : Ledger} {op : Op} (wf : l.WellFormed)
    (effect : Effect p now l op l') {a : AttemptRow} (ha : a ∈ l.attempts)
    (live : a.status.live) : l'.allocationsOf a.id = l.allocationsOf a.id := by
  have kept : l'.attemptGpus = l.attemptGpus → l'.allocationsOf a.id = l.allocationsOf a.id := by
    intro gpus
    rw [Ledger.allocationsOf, gpus, Ledger.allocationsOf]
  cases effect.shift wf with
  | still _ gpus | admitted _ _ _ gpus | removed _ _ _ _ gpus => exact kept gpus
  | @assigned _ attempt _ _ _ _ devices _ _ chosen _ _ _ _ _ _ gpus _ =>
    have others : (reservations now attempt.text devices).filter (fun g => g.attemptId = a.id) =
        [] := by
      refine List.filter_eq_nil_iff.mpr fun g hg => ?_
      simpa [(reservations_attempt g hg).1] using (chosen.fresh a ha).symm
    rw [Ledger.allocationsOf, gpus, List.filter_append, others, List.append_nil]
    rfl
  | @stopped _ _ _ b member _ finished _ gpus =>
    have apart : a.id ≠ b.id := fun h => finished (wf.attempts.eq ha member h ▸ live)
    rw [Ledger.allocationsOf, gpus, releaseGpus, Table.filter_update (by intro g _; rfl)]
    refine Table.update_eq_self fun g hg hrelease => ?_
    have hof := of_decide_eq_true (List.mem_filter.mp hg).2
    simp only [Bool.and_eq_true, decide_eq_true_eq] at hrelease
    exact absurd (hof.symm.trans hrelease.1) apart

theorem loadGpuAllocations_later (hs : p.system.Reachable s) (later : p.system.Later s s')
    {a a' : AttemptRow} (ha : a ∈ s.db.attempts) (ha' : a' ∈ s'.db.attempts) (hid : a'.id = a.id)
    (live : a'.status.live) :
    loadGpuAllocations a.id s'.db = loadGpuAllocations a.id s.db := by
  have kept : ∀ a' ∈ s'.db.attempts, a'.id = a.id → a'.status.live →
      s'.db.allocationsOf a.id = s.db.allocationsOf a.id := by
    refine System.Leads.stable (P := fun s' => p.system.Later s s' ∧ ∀ a' ∈ s'.db.attempts,
      a'.id = a.id → a'.status.live → s'.db.allocationsOf a.id = s.db.allocationsOf a.id)
      hs later ⟨.refl, fun _ _ _ _ => rfl⟩ ?_ |>.2
    rintro s₁ e s₂ hs₁ ⟨later₁, kept⟩ _ hstep
    refine ⟨later₁.step trivial hstep, fun a₂ ha₂ hid₂ live₂ => ?_⟩
    obtain ⟨a₁, ha₁, evolved₁⟩ := attempt_later hs later₁ a ha
    obtain ⟨b₂, hb₂, evolved₂⟩ := attempt_later hs₁ (.single trivial hstep) a₁ ha₁
    have same : b₂ = a₂ := (PostgresStore.reachable_wellFormed (hs₁.step hstep)).attempts.eq hb₂ ha₂
      ((evolved₂.identity.id.trans evolved₁.identity.id).trans hid₂.symm)
    have live₁ : a₁.status.live := by
      by_contra finished
      rw [← same, evolved₂.final finished] at live₂
      exact finished live₂
    obtain ⟨_, rfl⟩ := p.step_eq hstep
    have wf := PostgresStore.reachable_wellFormed hs₁
    have effect : Effect p e.now _ e.op _ := PostgresStore.commit_effect wf
    have step := effect.allocations_live wf ha₁ live₁
    rw [evolved₁.identity.id] at step
    exact step.trans (kept a₁ ha₁ evolved₁.identity.id live₁)
  exact congrArg (List.insertionSort _) (kept a' ha' hid live)

theorem spec_later (hs : p.system.Reachable s) (later : p.system.Later s s') {id : String}
    {r : RunRow} (run : s.db.run? id = some r) :
    ∃ r', s'.db.run? id = some r' ∧ r'.spec = r.spec := by
  refine System.Leads.stable (P := fun s' => ∃ r', s'.db.run? id = some r' ∧ r'.spec = r.spec)
    hs later ⟨r, run, rfl⟩ ?_
  rintro s₁ e s₂ hs₁ ⟨r₁, run₁, spec₁⟩ _ hstep
  obtain ⟨_, rfl⟩ := p.step_eq hstep
  have wf := PostgresStore.reachable_wellFormed hs₁
  have effect : Effect p e.now _ e.op _ := PostgresStore.commit_effect wf
  obtain ⟨r₂, run₂, same⟩ := effect.run_kept wf run₁
  exact ⟨r₂, run₂, same.spec.trans spec₁⟩

/-- A live attempt still has the devices and the specification of its first launch. -/
theorem Launched.reply {worker : String} {original : Assignment}
    (launched : Launched p s worker original) {a : AttemptRow} (ha : a ∈ s.db.attempts)
    (hid : original.attempt.id = a.id) (live : a.status.live) {r : RunRow}
    (run : s.db.run? a.runId = some r) :
    original.gpuAllocations = loadGpuAllocations a.id s.db ∧ original.spec = r.spec := by
  obtain ⟨s₀, now, attempt, locked, session, db, hs₀, hclock, fresh, hassign, later⟩ := launched
  have wf₀ := PostgresStore.reachable_wellFormed hs₀
  have committed : p.apply now (.assign attempt locked worker session) s₀.db = .ok db :=
    Result.map_ok.mpr ⟨_, hassign, rfl⟩
  have hs₁ : p.system.Reachable ⟨db, now⟩ := by
    have reachable := p.reachable_commit hs₀ (.assign attempt locked worker session) hclock
    rwa [PostgresStore.commit, committed] at reachable
  have effect : Effect p now s₀.db.toLedger (.assign attempt locked worker session) db.toLedger :=
    assign_effect wf₀ hassign
  obtain ⟨w, hw, rfl, _, assigns⟩ := assign_assigns wf₀ hassign
  cases assigns with
  | replayed member => exact absurd rfl (fresh _ member)
  | @created r₀ _ _ _ _ _ known _ attempts =>
    have hnew : newAttempt p.timing now attempt w.id r₀ ∈ db.attempts := by simp [attempts]
    obtain ⟨a', ha', evolved⟩ := attempt_later hs₁ later _ hnew
    have same : a' = a := (PostgresStore.reachable_wellFormed (hs₁.later later)).attempts.eq ha' ha
      (evolved.identity.id.trans hid)
    subst same
    constructor
    · have kept := loadGpuAllocations_later hs₁ later hnew ha evolved.identity.id live
      rw [← hid]
      exact kept.symm
    · obtain ⟨r₁, run₁, same⟩ := effect.run_kept wf₀ known
      obtain ⟨r', run', spec⟩ := spec_later hs₁ later run₁
      rw [evolved.identity.runId, newAttempt_runId, run'] at run
      obtain rfl := Option.some.inj run
      exact (spec.trans same.spec).symm

/-- A lost launch is replayed as it was first made, and a new one is the next of the queue. -/
theorem launch_replay (p : PostgresStore) {s : PostgresStore.State} (hs : p.system.Reachable s) :
    (∀ now w, s.db.worker? w.id = some w → w.available p.timing now →
      (∃ a ∈ s.db.attempts, Unacknowledged now w a) →
      ∃ a ∈ s.db.attempts, Unacknowledged now w a ∧
        (∀ b ∈ s.db.attempts, Unacknowledged now w b → a.createdAt ≤ b.createdAt) ∧
        ∃ original r, Launched p s w.id original ∧ original.attempt.id = a.id ∧
          s.db.run? a.runId = some r ∧ original.spec = r.spec ∧
          ∀ t attempt locked, now ≤ t → w.available p.timing t → Unacknowledged t w a →
            assign p.timing t attempt locked w.id w.session s.db =
              .ok (s.db, some ⟨a, original.gpuAllocations, r.spec⟩)) ∧
    (∀ now attempt locked id session,
      p.commit now (.assign attempt locked id session) s.db = s.db ∨
      ∃ w r, s.db.worker? id = some w ∧ w.session = session ∧ w.available p.timing now ∧
        ¬ w.drained ∧ (∀ a ∈ s.db.attempts, ¬ Unacknowledged now w a) ∧
        (p.commit now (.assign attempt locked id session) s.db).attempts =
          s.db.attempts ++ [newAttempt p.timing now attempt id r] ∧
        Eligible now w s.db r ∧ r.id ∉ locked ∧
        ∀ r', Eligible now w s.db r' → r'.id ∉ locked → queueBefore r r') := by
  have wf := PostgresStore.reachable_wellFormed hs
  constructor
  · rintro now w known available ⟨b, hb, hpending⟩
    have hmem := (mem_pendingLaunches hs known).mpr ⟨hb, hpending⟩
    obtain ⟨a, rest, pending⟩ := List.exists_cons_of_ne_nil (List.ne_nil_of_mem hmem)
    obtain ⟨ha, unacknowledged⟩ := (mem_pendingLaunches hs known).mp
      (pending ▸ List.mem_cons_self : a ∈ pendingLaunches now w.id (w.gpuAvailable now) s.db)
    have docker : a.placement.workerId ≠ kubernetesWorker := by
      rw [AttemptRow.placement_workerId, unacknowledged.worker]
      exact (seated_reachable hs).not_kubernetes (Table.lookup_mem known).1
    obtain ⟨original, launched, hid⟩ := launched_reachable hs _ (Journal.mem_placements ha) docker
    rw [AttemptRow.placement_workerId, unacknowledged.worker] at launched
    obtain ⟨r, hr, hrun⟩ := wf.attemptRun a ha
    have run : s.db.run? a.runId = some r := hrun ▸ wf.runs.lookup hr
    have live : a.status.live := by
      rw [unacknowledged.starting]
      rfl
    obtain ⟨allocations, spec⟩ := launched.reply ha hid live run
    refine ⟨a, ha, unacknowledged, ?_, original, r, launched, hid, run, spec, ?_⟩
    · intro c hc hcpending
      exact pendingLaunches_oldest pending c ((mem_pendingLaunches hs known).mpr ⟨hc, hcpending⟩)
    · intro t attempt locked hnow available' still
      obtain ⟨rest', pending'⟩ := pendingLaunches_later hnow pending
        ((mem_pendingLaunches hs known).mpr ⟨ha, still⟩)
      rw [assign_replay known available' pending' run, allocations]
  · intro now attempt locked id session
    rcases p.commit_cases now (.assign attempt locked id session) s.db with same | hcommit
    · exact .inl same
    obtain ⟨⟨db, reply⟩, hassign, hdb⟩ := Result.map_ok.mp hcommit
    obtain ⟨w, known, rfl, hsession, assigns⟩ := assign_assigns wf hassign
    rw [← hdb]
    cases assigns with
    | idle => exact .inl rfl
    | replayed => exact .inl rfl
    | created available undrained acknowledged next _ fresh attempts =>
      obtain ⟨eligible, unlocked, first⟩ := nextQueued_first next
      refine .inr ⟨w, _, known, hsession, available, undrained, ?_, attempts, eligible, unlocked,
        first⟩
      intro a ha hpending
      have hmem := (mem_pendingLaunches hs known).mpr ⟨ha, hpending⟩
      rw [acknowledged] at hmem
      cases hmem

theorem launch_replay_assigned : ∃ reply, assign Sample.store.timing 4 Sample.attemptId []
    "worker" "session" Sample.assigned.db = .ok (Sample.assigned.db, some reply) ∧
      reply.attempt.id = Sample.attemptId.text := by
  have worker : ∃ w ∈ Sample.assigned.db.workers, w.id = "worker" ∧ w.session = "session" ∧
      w.available Sample.store.timing 4 ∧ Sample.assigned.db.worker? w.id = some w ∧
      ∃ a ∈ Sample.assigned.db.attempts, Unacknowledged 4 w a := by decide +kernel
  have ids : ∀ a ∈ Sample.assigned.db.attempts, a.id = Sample.attemptId.text := by decide +kernel
  obtain ⟨w, _, hid, hsession, available, known, pending⟩ := worker
  obtain ⟨a, ha, unacknowledged, -, original, r, -, -, -, -, replies⟩ :=
    (launch_replay Sample.store Sample.assigned_reachable).1 4 w known available pending
  have reply := replies 4 Sample.attemptId [] (le_refl _) available unacknowledged
  rw [hid, hsession] at reply
  exact ⟨_, reply, ids a ha⟩

namespace Sample

def secondId : RandomId := ⟨"00000000000000000000000000000003", by decide⟩

/-- Two equal runs are queued for the worker. -/
def queued : PostgresStore.State :=
  ⟨store.commit 3 (.submit secondId spec "other" "fingerprint") registered.db, 3⟩

theorem queued_reachable : store.system.Reachable queued :=
  store.reachable_commit registered_reachable _ (by decide)

end Sample

/-- A run that another transaction holds locked is passed over. -/
theorem launch_order_locked : ∃ s, Sample.store.system.Reachable s ∧
    ∃ w ∈ s.db.workers, ∃ r ∈ s.db.runs, ∃ r' ∈ s.db.runs, Eligible 4 w s.db r' ∧
      (Sample.store.commit 4 (.assign Sample.attemptId [Sample.runId.text] w.id w.session)
        s.db).attempts =
        s.db.attempts ++ [newAttempt Sample.store.timing 4 Sample.attemptId w.id r] ∧
      ¬ queueBefore r r' :=
  ⟨Sample.queued, Sample.queued_reachable, by decide +kernel⟩

end Reachable

end Runyard
