import Runyard.Run.History

/-!
# Placements

Where each attempt runs and whether its cleanup is pending. `Shift` is what a transaction
does to the placements and to the GPU allocations.
-/

namespace Runyard

/-- The columns of an attempt that the schedulers reserve capacity by. -/
structure Placement where
  id : String
  runId : String
  workerId : String
  gpuCount : Int
  cleanupStatus : CleanupStatus

@[simps] def AttemptRow.placement (a : AttemptRow) : Placement :=
  ⟨a.id, a.runId, a.workerId, a.gpuCount, a.cleanupStatus⟩

@[simps] def Placement.clean (a : Placement) : Placement := { a with cleanupStatus := .done }

def Journal.placements (j : Journal) : List Placement := j.attempts.map (·.placement)

theorem Journal.mem_placements {j : Journal} {a : AttemptRow} (h : a ∈ j.attempts) :
    a.placement ∈ j.placements :=
  List.mem_map_of_mem h

theorem Journal.placements_keyed {j : Journal} (wf : j.WellFormed) :
    Table.Keyed (·.id) j.placements := by
  unfold Table.Keyed placements
  rw [List.map_map]
  exact wf.attempts

theorem Move.placement {timing : Timing} {now : Int} {r r' : RunRow} {a a' : AttemptRow} {op : Op}
    {events : List EventRow} (move : Move timing now r a op r' a' events) :
    a'.placement = a.placement := by
  cases move <;> rfl

/-- What a run asks for, as it was validated on submission. -/
structure RunRow.Demand (r : RunRow) : Prop where
  cpu : 0 < r.cpuMillis
  memory : 0 < r.memoryMib
  gpus : r.gpuCount = r.spec.resources.gpuCount
  gpuCount : 0 ≤ r.spec.resources.gpuCount

theorem RunRow.Fresh.demand {now : Int} {r : RunRow} (fresh : r.Fresh now) : r.Demand := by
  have valid := fresh.valid
  simp only [validateSubmission, validate, Result.bind_ok, Result.require_ok] at valid
  obtain ⟨_, ⟨_, _, _, _, _, _, _, _, _, _, _, hcpu, _, hmemory, _, hgpus, _⟩, _⟩ := valid
  simp only [Bool.and_eq_true, decide_eq_true_eq] at hcpu hmemory hgpus
  constructor
  · rw [fresh.cpuMillis]
    exact hcpu.1
  · rw [fresh.memoryMib]
    omega
  · exact fresh.gpuCount
  · exact hgpus.1

theorem RunRow.SameIdentity.demand {r r' : RunRow} (same : r.SameIdentity r') (h : r.Demand) :
    r'.Demand := by
  constructor
  · rw [same.cpuMillis]
    exact h.cpu
  · rw [same.memoryMib]
    exact h.memory
  · rw [same.gpuCount, same.spec]
    exact h.gpus
  · rw [same.spec]
    exact h.gpuCount

theorem History.Step.run_identity {timing : Timing} {now : Int} {h h' : History}
    (step : History.Step timing now h h') : h.run.SameIdentity h'.run := by
  cases step with
  | moved _ move => exact move.run_identity
  | placed | cleaned | cancelled | requeued => exact ⟨rfl, rfl, rfl, rfl, rfl⟩

/-- The effect of a transaction on placements and allocations. -/
inductive Shift (p : PostgresStore) (now : Int) (l : Ledger) : Op → Ledger → Prop where
  | still {op : Op} {l' : Ledger} (placements : l'.placements = l.placements)
      (gpus : l'.attemptGpus = l.attemptGpus) : Shift p now l op l'
  | assigned {l' : Ledger} {attempt : RandomId} {locked : List String} {session : String}
      {w : WorkerRow} {r : RunRow} {devices : List GpuDeviceRow}
      (worker : l.worker? w.id = some w) (undrained : ¬ w.drained)
      (chosen : Chosen now l r attempt)
      (cpu : r.cpuMillis ≤ w.cpuMillis - l.reserved w.id (·.cpuMillis))
      (memory : r.memoryMib ≤ w.memoryMib - l.reserved w.id (·.memoryMib))
      (count : devices.length = r.spec.resources.gpuCount.toNat)
      (distinct : (devices.map (·.uuid)).Nodup)
      (free : ∀ d ∈ devices, d ∈ l.gpuDevices ∧ d.workerId = w.id ∧ ¬ l.allocated d.uuid)
      (placements : l'.placements = l.placements ++
        [⟨attempt.text, r.id, w.id, r.spec.resources.gpuCount, .pending⟩])
      (gpus : l'.attemptGpus = l.attemptGpus ++ reservations now attempt.text devices)
      (workers : l'.workers = l.workers) :
      Shift p now l (.assign attempt locked w.id session) l'
  | admitted {l' : Ledger} {attempt : RandomId} {locked : List String} {maxActive : Nat}
      {r : RunRow} (room : l.admitted.length < maxActive) (chosen : Chosen now l r attempt)
      (placements : l'.placements = l.placements ++
        [⟨attempt.text, r.id, kubernetesWorker, r.spec.resources.gpuCount, .pending⟩])
      (gpus : l'.attemptGpus = l.attemptGpus) :
      Shift p now l (.admitKubernetes attempt locked maxActive) l'
  | stopped {l' : Ledger} {session runtime : String} {a : AttemptRow} (member : a ∈ l.attempts)
      (registered : ∃ w, l.worker? a.workerId = some w) (finished : ¬ a.status.live)
      (placements : l'.placements = Table.replace (·.id) a.placement.clean l.placements)
      (gpus : l'.attemptGpus = releaseGpus now a.id l.attemptGpus) :
      Shift p now l (.runtimeReport a.workerId session a.id runtime true) l'
  | removed {l' : Ledger} {runtime : String} {a : AttemptRow} (member : a ∈ l.attempts)
      (owner : a.workerId = kubernetesWorker) (finished : ¬ a.status.live)
      (placements : l'.placements = Table.replace (·.id) a.placement.clean l.placements)
      (gpus : l'.attemptGpus = l.attemptGpus) :
      Shift p now l (.kubernetesRuntime a.id runtime true) l'

section Effects

variable {p : PostgresStore} {now : Int} {l l' : Ledger} {op : Op}

theorem Effect.shift (wf : l.WellFormed) (effect : Effect p now l op l') :
    Shift p now l op l' := by
  have cleaned : ∀ a : AttemptRow, (Table.replace (·.id) a.clean l.attempts).map (·.placement) =
      Table.replace (·.id) a.placement.clean l.placements := by
    intro a
    have key : ∀ b : AttemptRow, b.placement.id = b.id := fun _ => rfl
    exact Table.map_replace_row (fun b : AttemptRow => b.placement) key a.clean l.attempts
  cases effect with
  | same | submitted | requeued | registered | reregistered | marked | discovered =>
    exact .still rfl rfl
  | @moved _ _ _ a a' _ attempt _ move =>
    refine .still ?_ rfl
    refine Table.map_replace _ fun b hb hid => ?_
    have hba : b = a := wf.attempts.eq hb (Table.lookup_mem attempt).1
      (hid.trans move.attempt_identity.id)
    rw [hba, move.placement]
  | assigned worker undrained chosen cpu memory count distinct free =>
    refine .assigned worker undrained chosen cpu memory count distinct free ?_ rfl rfl
    simp [Ledger.placed, Journal.placements, Journal.place, AttemptRow.placement]
  | admitted room chosen =>
    refine .admitted room chosen ?_ rfl
    simp [Ledger.placed, Journal.placements, Journal.place, AttemptRow.placement]
  | stopped registered attempt owner finished =>
    subst owner
    exact .stopped (Table.lookup_mem attempt).1 registered finished (cleaned _) rfl
  | removed attempt owner finished =>
    exact .removed (Table.lookup_mem attempt).1 owner finished (cleaned _) rfl
  | cancelled _ _ =>
    refine .still ?_ rfl
    exact Table.map_update _ (by intro a _; rfl) _

theorem Effect.devices_kept (effect : Effect p now l op l') : ∀ d ∈ l.gpuDevices,
    ∃ d' ∈ l'.gpuDevices, d'.uuid = d.uuid ∧ d'.workerId = d.workerId := by
  intro d hd
  cases effect with
  | discovered _ _ _ _ found => exact found.kept d hd
  | same | submitted | moved | assigned | admitted | stopped | removed | cancelled | requeued
    | registered | reregistered | marked => exact ⟨d, hd, rfl, rfl⟩

theorem Effect.workers_kept (effect : Effect p now l op l') : ∀ w ∈ l.workers,
    ∃ w' ∈ l'.workers, w'.id = w.id := by
  have replaced : ∀ v : WorkerRow, ∀ w ∈ l.workers,
      ∃ w' ∈ Table.replace (·.id) v l.workers, w'.id = w.id := by
    intro v w hw
    by_cases hid : w.id = v.id
    · exact ⟨v, Table.replace_self ⟨w, hw, hid⟩, hid.symm⟩
    · exact ⟨w, Table.replace_other hw hid, rfl⟩
  intro w hw
  cases effect with
  | registered => exact ⟨w, List.mem_append_left _ hw, rfl⟩
  | reregistered | marked | discovered => exact replaced _ w hw
  | same | submitted | moved | assigned | admitted | stopped | removed | cancelled | requeued =>
    exact ⟨w, hw, rfl⟩

/-- A known run keeps its demand columns. -/
theorem Effect.run_kept (wf : l.WellFormed) (effect : Effect p now l op l') {id : String}
    {r : RunRow} (hr : l.run? id = some r) : ∃ r', l'.run? id = some r' ∧ r.SameIdentity r' := by
  obtain ⟨hmem, hid⟩ := Table.lookup_mem hr
  obtain ⟨r', hr', hid', hhistory⟩ := effect.forward wf r hmem
  have found : l'.run? r'.id = some r' := (effect.wellFormed wf).runs.lookup hr'
  rw [hid', hid] at found
  refine ⟨r', found, ?_⟩
  rcases hhistory with hsame | hstep
  · have hrun : r' = r := congrArg History.run hsame
    rw [hrun]
    exact ⟨rfl, rfl, rfl, rfl, rfl⟩
  · exact hstep.run_identity

/-- A placement was there before, or the transaction draws its identifier. -/
theorem Effect.placements_from (wf : l.WellFormed) (effect : Effect p now l op l') :
    ∀ a' ∈ l'.placements,
      (∃ a ∈ l.placements, a.id = a'.id ∧ a.workerId = a'.workerId) ∨
      a'.cleanupStatus = .pending ∧
        ((∃ attempt locked maxActive, op = .admitKubernetes attempt locked maxActive ∧
            a'.id = attempt.text ∧ a'.workerId = kubernetesWorker) ∨
          ∃ attempt locked session, op = .assign attempt locked a'.workerId session ∧
            a'.id = attempt.text) := by
  intro a' ha'
  cases effect.shift wf with
  | still placements _ => exact .inl ⟨a', placements ▸ ha', rfl, rfl⟩
  | assigned _ _ _ _ _ _ _ _ placements _ _ =>
    rw [placements] at ha'
    rcases List.mem_append.mp ha' with ha' | ha'
    · exact .inl ⟨a', ha', rfl, rfl⟩
    · rw [List.mem_singleton.mp ha']
      exact .inr ⟨rfl, .inr ⟨_, _, _, rfl, rfl⟩⟩
  | admitted _ _ placements _ =>
    rw [placements] at ha'
    rcases List.mem_append.mp ha' with ha' | ha'
    · exact .inl ⟨a', ha', rfl, rfl⟩
    · rw [List.mem_singleton.mp ha']
      exact .inr ⟨rfl, .inl ⟨_, _, _, rfl, rfl, rfl⟩⟩
  | stopped member _ _ placements _ | removed member _ _ placements _ =>
    rw [placements] at ha'
    rcases Table.mem_replace ha' with rfl | ⟨ha', _⟩
    · exact .inl ⟨_, Journal.mem_placements member, rfl, rfl⟩
    · exact .inl ⟨a', ha', rfl, rfl⟩

end Effects

/-- Every worker is a Docker worker, every attempt is on a registered worker or on
Kubernetes, and every run has its validated demand. -/
structure Ledger.Seated (l : Ledger) : Prop where
  docker : ∀ w ∈ l.workers, ¬ startsWith w.id "@"
  seat : ∀ a ∈ l.placements, a.workerId = kubernetesWorker ∨ ∃ w ∈ l.workers, w.id = a.workerId
  demand : ∀ r ∈ l.runs, r.Demand

theorem Ledger.Seated.not_kubernetes {l : Ledger} (seated : l.Seated) {w : WorkerRow}
    (hw : w ∈ l.workers) : w.id ≠ kubernetesWorker := by
  intro hid
  have docker := seated.docker w hw
  rw [hid] at docker
  exact docker (by decide)

section Effects

variable {p : PostgresStore} {now : Int} {l l' : Ledger} {op : Op}

theorem Effect.docker (seated : l.Seated) (effect : Effect p now l op l') :
    ∀ w ∈ l'.workers, ¬ startsWith w.id "@" := by
  have replaced : ∀ v w : WorkerRow, l.worker? w.id = some w → v.id = w.id →
      ∀ w' ∈ Table.replace (·.id) v l.workers, ¬ startsWith w'.id "@" := by
    intro v w hw hid w' hw'
    rcases Table.mem_replace hw' with rfl | ⟨hw', _⟩
    · rw [hid]
      exact seated.docker w (Table.lookup_mem hw).1
    · exact seated.docker w' hw'
  cases effect with
  | registered docker _ _ =>
    intro w hw
    rcases List.mem_append.mp hw with hw | hw
    · exact seated.docker w hw
    · rw [List.mem_singleton.mp hw]
      exact docker
  | reregistered known => exact replaced _ _ known rfl
  | marked known id _ _ => exact replaced _ _ known id
  | discovered known id _ _ _ => exact replaced _ _ known id
  | same | submitted | moved | assigned | admitted | stopped | removed | cancelled | requeued =>
    exact seated.docker

theorem Effect.seated (wf : l.WellFormed) (seated : l.Seated) (effect : Effect p now l op l') :
    l'.Seated := by
  constructor
  · exact effect.docker seated
  · have kept : ∀ a : Placement,
        a.workerId = kubernetesWorker ∨ (∃ w ∈ l.workers, w.id = a.workerId) →
        a.workerId = kubernetesWorker ∨ ∃ w ∈ l'.workers, w.id = a.workerId := by
      rintro a (hkubernetes | ⟨w, hw, hid⟩)
      · exact .inl hkubernetes
      · obtain ⟨w', hw', hid'⟩ := effect.workers_kept w hw
        exact .inr ⟨w', hw', hid'.trans hid⟩
    intro a ha
    refine kept a ?_
    cases effect.shift wf with
    | still placements _ =>
      rw [placements] at ha
      exact seated.seat a ha
    | @assigned _ _ _ _ w _ _ worker _ _ _ _ _ _ _ placements _ _ =>
      rw [placements] at ha
      rcases List.mem_append.mp ha with ha | ha
      · exact seated.seat a ha
      · rw [List.mem_singleton.mp ha]
        exact .inr ⟨w, (Table.lookup_mem worker).1, rfl⟩
    | admitted _ _ placements _ =>
      rw [placements] at ha
      rcases List.mem_append.mp ha with ha | ha
      · exact seated.seat a ha
      · rw [List.mem_singleton.mp ha]
        exact .inl rfl
    | stopped member _ _ placements _ =>
      rw [placements] at ha
      rcases Table.mem_replace ha with rfl | ⟨ha, _⟩
      · have old := seated.seat _ (Journal.mem_placements member)
        exact old
      · exact seated.seat a ha
    | removed member _ _ placements _ =>
      rw [placements] at ha
      rcases Table.mem_replace ha with rfl | ⟨ha, _⟩
      · have old := seated.seat _ (Journal.mem_placements member)
        exact old
      · exact seated.seat a ha
  · intro r' hr'
    cases effect.evolved wf r' hr' with
    | born _ fresh _ _ => exact fresh.demand
    | kept member history =>
      have hrun : r' = _ := congrArg History.run history
      rw [hrun]
      exact seated.demand _ member
    | stepped member _ step => exact step.run_identity.demand (seated.demand _ member)

end Effects

theorem seated_reachable {p : PostgresStore} {s : PostgresStore.State}
    (hs : p.system.Reachable s) : s.db.toLedger.Seated := by
  refine PostgresStore.ledger_invariant (P := fun _ l => l.Seated) ?_ ?_ hs
  · exact ⟨by simp, by simp [Journal.placements], by simp⟩
  · exact fun _ _ _ _ _ _ wf seated effect => effect.seated wf seated

end Runyard
