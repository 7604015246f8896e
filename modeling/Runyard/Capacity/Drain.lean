import Runyard.Capacity.Queue
import Runyard.Capacity.Reservations

/-!
# Draining a worker

A drained worker gets no attempt, whatever its agent does: the flag outlives a restart of the
agent, which registers the worker again. So its reservations only shrink, and once they are gone
the machine can be taken away.
-/

namespace Runyard

section Drained

variable {p : PostgresStore} {db db' : Db} {now : Int} {id : String} {w : WorkerRow}

theorem updateWorker_drained {other : String} {f : WorkerRow → WorkerRow}
    (keeps : ∀ w, (f w).id = w.id) (drains : ∀ w, w.drained → (f w).drained)
    (hw : db.worker? id = some w) (drained : w.drained) :
    ∃ w', (db.updateWorker other f).worker? id = some w' ∧ w'.drained := by
  rw [worker_update keeps, hw]
  refine ⟨if w.id = other then f w else w, rfl, ?_⟩
  split
  · exact drains w drained
  · exact drained

/-- Only `drain_worker` itself takes the flag away. -/
theorem apply_drained {op : Op} (wf : db.toLedger.WellFormed) (h : p.apply now op db = .ok db')
    (hw : db.worker? id = some w) (drained : w.drained) (kept : op ≠ .drainWorker id false) :
    ∃ w', db'.worker? id = some w' ∧ w'.drained := by
  cases hop : op.writesWorkers with
  | false =>
    have same : db'.workers = db.workers := congrArg Inventory.workers (apply_inventory hop h)
    refine ⟨w, ?_, drained⟩
    rw [Ledger.worker?, same]
    exact hw
  | true => cases op with
    | registerWorker other session capacity gpu =>
      simp only [PostgresStore.apply, registerWorker, Result.bind_ok] at h
      obtain ⟨_, _, h⟩ := h
      split at h
      · cases h
        refine ⟨w, ?_, drained⟩
        change Table.lookup (·.id) id (db.workers ++ _) = some w
        rw [Table.lookup_append]
        exact (congrArg (Option.or · _) hw).trans rfl
      · obtain ⟨_, _, h⟩ := Result.bind_ok.mp h
        cases h
        exact updateWorker_drained (by intro w; rfl) (fun _ h => h) hw drained
    | workerHeartbeat other session =>
      obtain ⟨_, _, h⟩ := Result.bind_ok.mp h
      cases h
      exact updateWorker_drained (by intro w; rfl) (fun _ h => h) hw drained
    | drainWorker other flag =>
      simp only [PostgresStore.apply, drainWorker] at h
      split at h
      · cases h
      · cases h
        by_cases here : other = id
        · cases flag with
          | true => exact updateWorker_drained (by intro w; rfl) (fun _ _ => rfl) hw drained
          | false => exact absurd (here ▸ rfl) kept
        · refine ⟨w, ?_, drained⟩
          rw [worker_update_other (by intro w; rfl) (Ne.symm here)]
          exact hw
    | reportGpuInventory other session snapshot =>
      obtain ⟨_, _, _, _, ⟨_, rfl⟩ | ⟨_, rows, rfl, _⟩⟩ := reportGpuInventory_spec wf.devices h
      · exact ⟨w, hw, drained⟩
      · exact updateWorker_drained (by intro w; rfl) (fun _ h => h) hw drained
    | _ => cases hop

/-- No placement on a drained worker is new, and none becomes pending. -/
theorem Effect.drained_placements {l l' : Ledger} {op : Op} (wf : l.WellFormed)
    (seated : l.Seated) (effect : Effect p now l op l') (hw : l.worker? id = some w)
    (drained : w.drained) : ∀ a' ∈ l'.placements, a'.workerId = id →
      ∃ a ∈ l.placements, a.id = a'.id ∧ a.workerId = id ∧
        (a'.cleanupStatus = .pending → a.cleanupStatus = .pending) := by
  obtain ⟨member, hid⟩ := Table.lookup_mem hw
  have cleaned : ∀ b : AttemptRow, b ∈ l.attempts →
      ∀ a' ∈ Table.replace (·.id) b.placement.clean l.placements, a'.workerId = id →
        ∃ a ∈ l.placements, a.id = a'.id ∧ a.workerId = id ∧
          (a'.cleanupStatus = .pending → a.cleanupStatus = .pending) := by
    intro b hb a' ha' here
    rcases Table.mem_replace ha' with rfl | ⟨old, _⟩
    · exact ⟨b.placement, Journal.mem_placements hb, rfl, here, fun pending => by cases pending⟩
    · exact ⟨a', old, rfl, here, fun pending => pending⟩
  intro a' ha' here
  cases effect.shift wf with
  | still placements => exact ⟨a', placements ▸ ha', rfl, here, fun pending => pending⟩
  | @assigned _ _ _ _ v _ _ worker undrained _ _ _ _ _ _ placements =>
    rw [placements] at ha'
    rcases List.mem_append.mp ha' with old | new
    · exact ⟨a', old, rfl, here, fun pending => pending⟩
    · rw [List.mem_singleton.mp new] at here
      have same : v = w := wf.workers.eq (Table.lookup_mem worker).1 member (here.trans hid.symm)
      exact absurd (same ▸ drained) undrained
  | admitted _ _ placements =>
    rw [placements] at ha'
    rcases List.mem_append.mp ha' with old | new
    · exact ⟨a', old, rfl, here, fun pending => pending⟩
    · rw [List.mem_singleton.mp new] at here
      exact absurd (hid.trans here.symm) (seated.not_kubernetes member)
  | stopped hb _ _ placements =>
    rw [placements] at ha'
    exact cleaned _ hb a' ha' here
  | removed hb _ _ placements =>
    rw [placements] at ha'
    exact cleaned _ hb a' ha' here

end Drained

/-- What is left on a worker at one moment was on it before, and reserves no more. -/
structure Shrinks (worker : String) (db db' : Db) : Prop where
  attempts : ∀ a' ∈ db'.placements, a'.workerId = worker → ∃ a ∈ db.placements, a.id = a'.id ∧
    a.workerId = worker ∧ (a'.cleanupStatus = .pending → a.cleanupStatus = .pending)
  cpu : db'.reserved worker (·.cpuMillis) ≤ db.reserved worker (·.cpuMillis)
  memory : db'.reserved worker (·.memoryMib) ≤ db.reserved worker (·.memoryMib)

theorem Shrinks.trans {worker : String} {db db' db'' : Db} (first : Shrinks worker db db')
    (second : Shrinks worker db' db'') : Shrinks worker db db'' where
  attempts a' ha' here := by
    obtain ⟨a, ha, hid, here, pending⟩ := second.attempts a' ha' here
    obtain ⟨b, hb, hid', here', pending'⟩ := first.attempts a ha here
    exact ⟨b, hb, hid'.trans hid, here', fun h => pending' (pending h)⟩
  cpu := second.cpu.trans first.cpu
  memory := second.memory.trans first.memory

theorem drained_step {p : PostgresStore} {s s' : PostgresStore.State} {e : PostgresStore.Event}
    {id : String} {w : WorkerRow} (hs : p.system.Reachable s) (hw : s.db.worker? id = some w)
    (drained : w.drained) (h : p.system.step s e = some s') : Shrinks id s.db s'.db := by
  obtain ⟨_, rfl⟩ := p.step_eq h
  have wf := PostgresStore.reachable_wellFormed hs
  have seated := seated_reachable hs
  obtain ⟨member, hid⟩ := Table.lookup_mem hw
  have docker : id ≠ kubernetesWorker := hid ▸ seated.not_kubernetes member
  have effect : Effect p e.now s.db.toLedger e.op _ := PostgresStore.commit_effect wf
  have shrinks : ∀ column : RunRow → Int, Fixed column → (∀ r : RunRow, r.Demand → 0 ≤ column r) →
      (p.commit e.now e.op s.db).reserved id column ≤ s.db.reserved id column := by
    intro column fixed positive
    rcases effect.reserved_le wf seated fixed (fun r _ => positive r) docker with le | creates
    · exact le
    · obtain ⟨attempt, locked, session, hop, created⟩ := creates
      rw [hop] at effect created
      obtain ⟨v, _, worker, _, undrained, _⟩ := effect.assign_created wf created
      exact absurd drained (Option.some.inj (worker.symm.trans hw) ▸ undrained)
  refine ⟨effect.drained_placements wf seated hw drained, ?_, ?_⟩
  · exact shrinks _ fixed_cpu fun r demand => le_of_lt demand.cpu
  · exact shrinks _ fixed_memory fun r demand => le_of_lt demand.memory

/-- While nobody takes the flag away, a drained worker stays drained, over restarts of its agent as
well. No attempt is placed on it any more, and what it has reserved only shrinks. -/
theorem drained_shrinks (p : PostgresStore) {s s' : PostgresStore.State} {w : WorkerRow}
    (hs : p.system.Reachable s) (hw : w ∈ s.db.workers) (drained : w.drained)
    (run : p.system.Leads (fun _ e => e.op ≠ .drainWorker w.id false) s s') :
    (∃ w' ∈ s'.db.workers, w'.id = w.id ∧ w'.drained) ∧ Shrinks w.id s.db s'.db := by
  have known : s.db.worker? w.id = some w :=
    (PostgresStore.reachable_wellFormed hs).workers.lookup hw
  have both : (∃ w', s'.db.worker? w.id = some w' ∧ w'.drained) ∧ Shrinks w.id s.db s'.db := by
    refine run.stable (P := fun t => (∃ w', t.db.worker? w.id = some w' ∧ w'.drained) ∧
      Shrinks w.id s.db t.db) hs ⟨⟨w, known, drained⟩, ?_⟩ ?_
    · exact ⟨fun a ha here => ⟨a, ha, rfl, here, id⟩, le_refl _, le_refl _⟩
    · rintro t e t' ht ⟨⟨v, hv, drained⟩, shrinks⟩ kept h
      refine ⟨?_, shrinks.trans (drained_step ht hv drained h)⟩
      obtain ⟨_, rfl⟩ := p.step_eq h
      rcases p.commit_cases e.now e.op t.db with same | hcommit
      · exact ⟨v, same.symm ▸ hv, drained⟩
      · exact apply_drained (PostgresStore.reachable_wellFormed ht) hcommit hv drained kept
  obtain ⟨⟨w', hw', drained'⟩, shrinks⟩ := both
  obtain ⟨member, hid⟩ := Table.lookup_mem hw'
  exact ⟨⟨w', member, hid, drained'⟩, shrinks⟩

namespace Sample

def draining : PostgresStore.State :=
  ⟨store.commit 4 (.drainWorker "worker" true) assigned.db, 4⟩

theorem draining_reachable : store.system.Reachable draining :=
  store.reachable_commit assigned_reachable _ (by decide)

/-- The agent registers again and asks for work, and the run is cancelled. -/
def quiet : List PostgresStore.Event :=
  [⟨5, .registerWorker "worker" "other" ⟨8000, 8192⟩ {}⟩, ⟨6, .cancel runId.text⟩,
    ⟨7, .assign youngerAttempt [] "worker" "other"⟩,
    ⟨8, .runtimeReport "worker" "other" attemptId.text "" true⟩]

end Sample

theorem drained_shrinks_quiet : ∃ w ∈ Sample.draining.db.workers, w.drained ∧
    0 < Sample.draining.db.reserved w.id (·.cpuMillis) ∧
    ∃ s, Sample.store.system.Leads (fun _ e => e.op ≠ .drainWorker w.id false)
        Sample.draining s ∧
      s.db.reserved w.id (·.cpuMillis) = 0 ∧
      (∃ w' ∈ s.db.workers, w'.id = w.id ∧ w'.drained) ∧
      Shrinks w.id Sample.draining.db s.db := by
  have workers : ∃ w ∈ Sample.draining.db.workers, w.id = "worker" ∧ w.drained ∧
      0 < Sample.draining.db.reserved w.id (·.cpuMillis) := by decide +kernel
  obtain ⟨w, hw, hid, drained, reserved⟩ := workers
  have run : (Sample.store.system.replay
      (fun _ e => match e.op with | .drainWorker "worker" false => false | _ => true)
      Sample.draining Sample.quiet).map (fun s => s.db.reserved "worker" (·.cpuMillis)) =
      some 0 := by
    decide +kernel
  obtain ⟨s, hs, empty⟩ := Option.map_eq_some_iff.mp run
  have leads : Sample.store.system.Leads (fun _ e => e.op ≠ .drainWorker w.id false)
      Sample.draining s := by
    refine (System.replay_leads hs).mono fun s e kept hop => ?_
    rw [hop, hid] at kept
    cases kept
  exact ⟨w, hw, drained, reserved, s, leads, hid ▸ empty,
    drained_shrinks Sample.store Sample.draining_reachable hw drained leads⟩

end Runyard
