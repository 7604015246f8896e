import Runyard.Capacity.Reservations
import Runyard.Run.Lifetime
import Runyard.Fleet.Processes

/-!
# What a process may rely on about attempts

Decisions to stop and to clean up are taken on rows that were read earlier. What they rely
on stays true: an attempt that is over remains so, and it keeps its worker.
-/

namespace Runyard

/-- The attempt is over. -/
def Journal.Retired (j : Journal) (id : String) : Prop :=
  ∃ a ∈ j.attempts, a.id = id ∧ ¬ a.status.live

/-- The attempt was placed on the worker. -/
def Journal.Placed (j : Journal) (worker id : String) : Prop :=
  ∃ a ∈ j.attempts, a.id = id ∧ a.workerId = worker

/-- A container of the attempt may run on the worker with these devices. -/
structure Ledger.Hosts (l : Ledger) (worker id : String) (devices : List String) : Prop where
  placed : l.Placed worker id
  docker : worker ≠ kubernetesWorker
  reserved : ∀ uuid ∈ devices, ∃ g ∈ l.attemptGpus, g.attemptId = id ∧ g.uuid = uuid

section Later

variable {p : PostgresStore} {s s' : PostgresStore.State} {id worker : String}

theorem retired_later (hs : p.system.Reachable s) (later : p.system.Later s s')
    (retired : s.db.Retired id) : s'.db.Retired id := by
  obtain ⟨a, ha, rfl, finished⟩ := retired
  obtain ⟨a', ha', evolved⟩ := attempt_later hs later a ha
  refine ⟨a', ha', evolved.identity.id, ?_⟩
  rw [evolved.final finished]
  exact finished

theorem placed_later (hs : p.system.Reachable s) (later : p.system.Later s s')
    (placed : s.db.Placed worker id) : s'.db.Placed worker id := by
  obtain ⟨a, ha, rfl, rfl⟩ := placed
  obtain ⟨a', ha', evolved⟩ := attempt_later hs later a ha
  exact ⟨a', ha', evolved.identity.id, evolved.identity.workerId⟩

theorem Effect.allocations_kept {now : Int} {l l' : Ledger} {op : Op} (wf : l.WellFormed)
    (effect : Effect p now l op l') : ∀ g ∈ l.attemptGpus, ∃ g' ∈ l'.attemptGpus,
      g'.attemptId = g.attemptId ∧ g'.uuid = g.uuid := by
  intro g hg
  cases effect.shift wf with
  | still _ gpus | admitted _ _ _ gpus | removed _ _ _ _ gpus =>
    rw [gpus]
    exact ⟨g, hg, rfl, rfl⟩
  | assigned _ _ _ _ _ _ _ _ _ gpus _ =>
    rw [gpus]
    exact ⟨g, List.mem_append_left _ hg, rfl, rfl⟩
  | stopped _ _ _ _ gpus =>
    rw [gpus]
    refine ⟨_, Table.mem_update.mpr ⟨g, hg, rfl⟩, ?_⟩
    split
    · exact ⟨rfl, rfl⟩
    · exact ⟨rfl, rfl⟩

theorem allocation_later (hs : p.system.Reachable s) (later : p.system.Later s s')
    {g : AttemptGpuRow} (hg : g ∈ s.db.attemptGpus) : ∃ g' ∈ s'.db.attemptGpus,
      g'.attemptId = g.attemptId ∧ g'.uuid = g.uuid := by
  refine System.Leads.stable (P := fun s' => ∃ g' ∈ s'.db.attemptGpus,
    g'.attemptId = g.attemptId ∧ g'.uuid = g.uuid) hs later ⟨g, hg, rfl, rfl⟩ ?_
  rintro s₁ e s₂ hs₁ ⟨g₁, hg₁, hattempt, huuid⟩ _ hstep
  obtain ⟨_, rfl⟩ := p.step_eq hstep
  have wf := PostgresStore.reachable_wellFormed hs₁
  have effect : Effect p e.now _ e.op _ := PostgresStore.commit_effect wf
  obtain ⟨g₂, hg₂, hattempt', huuid'⟩ := effect.allocations_kept wf g₁ hg₁
  exact ⟨g₂, hg₂, hattempt'.trans hattempt, huuid'.trans huuid⟩

theorem hosts_later (hs : p.system.Reachable s) (later : p.system.Later s s')
    {devices : List String} (hosts : s.db.Hosts worker id devices) :
    s'.db.Hosts worker id devices := by
  constructor
  · exact placed_later hs later hosts.placed
  · exact hosts.docker
  · intro uuid huuid
    obtain ⟨g, hg, hattempt, hsame⟩ := hosts.reserved uuid huuid
    obtain ⟨g', hg', hattempt', hsame'⟩ := allocation_later hs later hg
    exact ⟨g', hg', hattempt'.trans hattempt, hsame'.trans hsame⟩

/-- An attempt that is over is no run's live attempt. -/
theorem retired_not_live (hs : p.system.Reachable s) (retired : s.db.Retired id) :
    ∀ a ∈ s.db.attempts, a.id = id → ¬ a.status.live := by
  intro a ha hid
  obtain ⟨b, hb, hsame, finished⟩ := retired
  have wf := PostgresStore.reachable_wellFormed hs
  have same : a = b := wf.attempts.eq ha hb (hid.trans hsame.symm)
  rw [same]
  exact finished

theorem Effect.attempts_from {now : Int} {l l' : Ledger} {op : Op} (wf : l.WellFormed)
    (effect : Effect p now l op l') : ∀ a' ∈ l'.attempts, (∃ a ∈ l.attempts, a.id = a'.id) ∨
      op.draws? = some a'.id ∧ a'.cleanupStatus = .pending := by
  intro a' ha'
  rcases effect.placements_from wf _ (Journal.mem_placements ha') with
    ⟨_, hold, hid, _⟩ | ⟨pending, new⟩
  · obtain ⟨a, ha, rfl⟩ := List.mem_map.mp hold
    exact .inl ⟨a, ha, hid⟩
  · refine .inr ⟨?_, pending⟩
    rcases new with ⟨_, _, _, rfl, hid, _⟩ | ⟨_, _, _, rfl, hid⟩
    · exact congrArg some hid.symm
    · exact congrArg some hid.symm

/-- Cleanup is done only of attempts that are over. -/
theorem done_retired (hs : p.system.Reachable s) :
    ∀ a ∈ s.db.attempts, a.cleanupStatus = .done → ¬ a.status.live := by
  refine System.Leads.stable (P := fun s => ∀ a ∈ s.db.attempts, a.cleanupStatus = .done →
    ¬ a.status.live) System.reachable_init hs (by intro a ha; cases ha) ?_
  intro s e s' hs settled _ hstep
  have hs' := hs.step hstep
  have later : p.system.Later s s' := .single trivial hstep
  obtain ⟨_, rfl⟩ := p.step_eq hstep
  have wf := PostgresStore.reachable_wellFormed hs
  have wf' := PostgresStore.reachable_wellFormed hs'
  have effect : Effect p e.now _ e.op _ := PostgresStore.commit_effect wf
  intro a' ha' done
  rcases effect.attempts_from wf a' ha' with ⟨a, ha, hid⟩ | ⟨_, pending⟩
  swap
  · simp [done] at pending
  obtain ⟨b, hb, evolved⟩ := attempt_later hs later a ha
  have same : a' = b := wf'.attempts.eq ha' hb (hid.symm.trans evolved.identity.id.symm)
  have finished : ¬ a.status.live := by
    cases hcleanup : a.cleanupStatus with
    | done => exact settled a ha hcleanup
    | pending => exact (effect.leaves wf ha hcleanup ha' hid.symm (by simp [done])).1
  rw [same, evolved.final finished]
  exact finished

end Later

/-! ## The replies of the store -/

section Replies

variable {p : PostgresStore} {s : PostgresStore.State} {db db' : Db} {now : Int}
  {worker session id : String}

/-- `reconcile` stops what is no attempt, and attempts that are over. -/
theorem reconcileOne_stop (hs : p.system.Reachable s)
    (h : reconcileOne worker id s.db = .ok true) :
    (∀ a ∈ s.db.attempts, a.id ≠ id) ∨ s.db.Retired id := by
  have wf := PostgresStore.reachable_wellFormed hs
  unfold reconcileOne at h
  split at h
  · rename_i hnone
    exact .inl (Table.lookup_none hnone)
  rename_i a ha
  obtain ⟨hmem, hid⟩ := Table.lookup_mem ha
  split at h
  · rename_i hnone
    obtain ⟨r, hr, hrun⟩ := wf.attemptRun a hmem
    exact absurd hrun (Table.lookup_none hnone r hr)
  rename_i r hr
  obtain ⟨_, _, hstop⟩ := Result.bind_ok.mp h
  simp only [Result.pure_ok, Bool.or_eq_true, decide_eq_true_eq, Bool.not_eq_true'] at hstop
  refine .inr ⟨a, hmem, hid, fun live => ?_⟩
  obtain ⟨hrmem, hrid⟩ := Table.lookup_mem hr
  obtain ⟨coupled, _⟩ := coupled_phased_reachable hs r hrmem
  have hhistory : a ∈ (s.db.history r).attempts := Journal.mem_attemptsOf.mpr ⟨hmem, hrid.symm⟩
  have active : r.activeAttempt = some a.id :=
    (coupled.live_active (Journal.history_proper wf.toWellFormed r) hhistory live).1
  rcases hstop with hother | hfinished
  · exact hother (by rw [active, hid]; rfl)
  · simp [live] at hfinished

theorem reconcileAll_stop {observed stop : List String} (hs : p.system.Reachable s)
    (h : reconcileAll worker observed s.db = .ok stop) :
    ∀ id ∈ stop, id ∈ observed ∧ ((∀ a ∈ s.db.attempts, a.id ≠ id) ∨ s.db.Retired id) := by
  induction observed generalizing stop with
  | nil =>
    cases h
    intro id hid
    cases hid
  | cons first rest ih =>
    obtain ⟨decision, hone, h⟩ := Result.bind_ok.mp h
    obtain ⟨others, hothers, h⟩ := Result.bind_ok.mp h
    have tail : ∀ id ∈ others, id ∈ first :: rest ∧
        ((∀ a ∈ s.db.attempts, a.id ≠ id) ∨ s.db.Retired id) := by
      intro id hid
      obtain ⟨hmem, hdecided⟩ := ih hothers id hid
      exact ⟨List.mem_cons_of_mem first hmem, hdecided⟩
    obtain rfl := Result.pure_ok.mp h
    cases decision with
    | false => exact tail
    | true =>
      intro id hid
      rcases List.mem_cons.mp hid with rfl | hid
      · exact ⟨List.mem_cons_self, reconcileOne_stop hs hone⟩
      · exact tail id hid

theorem reconcile_stop {observed stop : List String} (hs : p.system.Reachable s)
    (h : reconcile worker session observed s.db = .ok stop) :
    ∀ id ∈ stop, id ∈ observed ∧ ((∀ a ∈ s.db.attempts, a.id ≠ id) ∨ s.db.Retired id) := by
  obtain ⟨_, _, h⟩ := Result.bind_ok.mp h
  obtain ⟨_, _, h⟩ := Result.bind_ok.mp h
  exact reconcileAll_stop hs h

theorem cleanup_rows {rows : List AttemptRow} (h : cleanup worker session db = .ok rows) :
    ∀ a ∈ rows, db.Placed worker a.id ∧ db.Retired a.id := by
  obtain ⟨_, _, h⟩ := Result.bind_ok.mp h
  obtain rfl := Result.pure_ok.mp h
  intro a ha
  obtain ⟨hmem, hcleanable⟩ := List.mem_filter.mp ha
  simp only [AttemptRow.cleanable, Bool.and_eq_true, decide_eq_true_eq, Bool.not_eq_true',
    Bool.eq_false_iff] at hcleanable
  exact ⟨⟨a, hmem, rfl, hcleanable.1.1⟩, ⟨a, hmem, rfl, hcleanable.2⟩⟩

/-- The work that `assign` hands out is live on its worker, with its devices reserved. -/
theorem assign_work {timing : Timing} {attempt : RandomId} {locked : List String}
    {x : Assignment} (seated : db.toLedger.Seated)
    (h : assign timing now attempt locked worker session db = .ok (db', some x)) :
    (∃ a ∈ db'.attempts, a.id = x.attempt.id ∧ a.status.live) ∧
      db'.Hosts worker x.attempt.id x.devices := by
  have loaded : ∀ (db : Db) (id : String), ∀ uuid ∈ (loadGpuAllocations id db).map (·.uuid),
      ∃ g ∈ db.attemptGpus, g.attemptId = id ∧ g.uuid = uuid := by
    intro db id uuid huuid
    obtain ⟨g, hg, rfl⟩ := List.mem_map.mp huuid
    obtain ⟨hmem, hid⟩ := List.mem_filter.mp ((List.mem_insertionSort _).mp hg)
    exact ⟨g, hmem, of_decide_eq_true hid, rfl⟩
  obtain ⟨w, hworker, h⟩ := Result.bind_ok.mp h
  obtain ⟨hregistered, rfl, _⟩ := requireWorker_ok hworker
  have docker := seated.not_kubernetes (Table.lookup_mem hregistered).1
  split at h
  · cases h
  split at h
  · -- The replay of a launch that was not acknowledged.
    rename_i a _ hpending
    split at h
    · cases h
    cases h
    have hmem : a ∈ pendingLaunches now w.id (w.gpuAvailable now) db := by simp [hpending]
    obtain ⟨hrow, hlaunch⟩ := List.mem_filter.mp ((List.mem_insertionSort _).mp hmem)
    simp only [Bool.and_eq_true, decide_eq_true_eq] at hlaunch
    obtain ⟨⟨⟨⟨⟨_, hplaced⟩, hstarting⟩, _⟩, _⟩, _⟩ := hlaunch
    have live : a.status.live := by
      rw [hstarting]
      rfl
    exact ⟨⟨a, hrow, rfl, live⟩, ⟨a, hrow, rfl, hplaced⟩, docker, loaded _ a.id⟩
  split at h
  · cases h
  dsimp only at h
  split at h
  · cases h
  rename_i r hnext
  obtain ⟨db₁, hactivate, h⟩ := Result.bind_ok.mp h
  obtain ⟨_, hreserve, h⟩ := Result.bind_ok.mp h
  cases h
  have attempts₁ : newAttempt timing now attempt w.id r ∈ db₁.attempts := by
    obtain ⟨db₀, hinsert, hevent⟩ := Result.bind_ok.mp hactivate
    obtain ⟨_, rfl⟩ := insertAttempt_ok hinsert
    obtain ⟨_, _, rfl⟩ := event_ok hevent
    simp [Db.updateRun]
  have hledger := (reserveGpus_ok hreserve).2
  have hattempts : db'.attempts = db₁.attempts := congrArg (·.attempts) hledger
  rw [← hattempts] at attempts₁
  exact ⟨⟨_, attempts₁, rfl, rfl⟩, ⟨_, attempts₁, rfl, rfl⟩, docker, loaded db' attempt.text⟩

theorem admitKubernetes_work {timing : Timing} {attempt : RandomId} {locked : List String}
    {maxActive : Nat} {x : Assignment}
    (h : admitKubernetes timing now attempt locked maxActive db = .ok (db', some x)) :
    db'.Placed kubernetesWorker x.attempt.id := by
  obtain ⟨_, _, h⟩ := Result.bind_ok.mp h
  split at h
  · cases h
  split at h
  · cases h
  rename_i r hnext
  obtain ⟨db₁, hactivate, h⟩ := Result.bind_ok.mp h
  cases h
  obtain ⟨db₀, hinsert, hevent⟩ := Result.bind_ok.mp hactivate
  obtain ⟨_, rfl⟩ := insertAttempt_ok hinsert
  obtain ⟨_, _, rfl⟩ := event_ok hevent
  refine ⟨newAttempt timing now attempt kubernetesWorker r, ?_, rfl, rfl⟩
  simp [Db.updateRun]

theorem mem_kubernetesAttempts {a : AttemptRow} : a ∈ kubernetesAttempts db ↔
    a ∈ db.attempts ∧ a.workerId = kubernetesWorker ∧ a.cleanupStatus = .pending := by
  simp [kubernetesAttempts, Journal.admitted, List.mem_insertionSort]

end Replies

end Runyard
