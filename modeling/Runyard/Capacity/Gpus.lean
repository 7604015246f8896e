import Runyard.Capacity.Placement

/-!
# GPU exclusivity

A device is held by at most one attempt from the assignment of the attempt until its runtime
is reported gone, whatever discovery says about the device in between.
-/

namespace Runyard

namespace Ledger

def allocationsOf (l : Ledger) (attempt : String) : List AttemptGpuRow :=
  l.attemptGpus.filter fun g => g.attemptId = attempt

def unreleased (l : Ledger) : List AttemptGpuRow :=
  l.attemptGpus.filter fun g => g.releasedAt.isNone

/-- The allocations of a Docker attempt are its number of devices of its worker, and
every allocation is held exactly while the cleanup of its attempt is pending. -/
structure GpuSafe (l : Ledger) : Prop where
  exclusive : Table.Keyed (·.uuid) l.unreleased
  count : ∀ a ∈ l.placements, a.workerId ≠ kubernetesWorker →
    ((l.allocationsOf a.id).length : Int) = a.gpuCount
  distinct : ∀ a ∈ l.placements, Table.Keyed (·.uuid) (l.allocationsOf a.id)
  worker : ∀ a ∈ l.placements, ∀ g ∈ l.allocationsOf a.id,
    ∃ d ∈ l.gpuDevices, d.uuid = g.uuid ∧ d.workerId = a.workerId
  held : ∀ g ∈ l.attemptGpus, ∃ a ∈ l.placements, a.id = g.attemptId ∧
    a.workerId ≠ kubernetesWorker ∧ (g.releasedAt = none ↔ a.cleanupStatus = .pending)

end Ledger

theorem reservations_attempt {now : Int} {attempt : String} {devices : List GpuDeviceRow} :
    ∀ g ∈ reservations now attempt devices, g.attemptId = attempt ∧ g.releasedAt = none := by
  intro g hg
  obtain ⟨d, _, rfl⟩ := List.mem_map.mp hg
  exact ⟨rfl, rfl⟩

theorem reservations_uuid {now : Int} {attempt : String} {devices : List GpuDeviceRow} :
    (reservations now attempt devices).map (·.uuid) = devices.map (·.uuid) := by
  simp [reservations]

theorem mem_releaseGpus {now : Int} {attempt : String} {rows : List AttemptGpuRow}
    {g' : AttemptGpuRow} (h : g' ∈ releaseGpus now attempt rows) :
    ∃ g ∈ rows, g'.attemptId = g.attemptId ∧ g'.uuid = g.uuid ∧
      (g'.releasedAt = none ↔ g.releasedAt = none ∧ g.attemptId ≠ attempt) := by
  obtain ⟨g, hg, rfl⟩ := Table.mem_update.mp h
  refine ⟨g, hg, ?_⟩
  by_cases hattempt : g.attemptId = attempt <;> cases hreleased : g.releasedAt <;>
    simp [hattempt, hreleased]

namespace Ledger.GpuSafe

variable {p : PostgresStore} {now : Int} {l l' : Ledger}

theorem still (safe : l.GpuSafe) (placements : l'.placements = l.placements)
    (gpus : l'.attemptGpus = l.attemptGpus)
    (devices : ∀ d ∈ l.gpuDevices, ∃ d' ∈ l'.gpuDevices, d'.uuid = d.uuid ∧
      d'.workerId = d.workerId) : l'.GpuSafe := by
  have hunreleased : l'.unreleased = l.unreleased := by simp [unreleased, gpus]
  have hallocations : ∀ id, l'.allocationsOf id = l.allocationsOf id := by
    intro id
    simp [allocationsOf, gpus]
  constructor
  · rw [hunreleased]
    exact safe.exclusive
  · intro a ha
    rw [placements] at ha
    rw [hallocations]
    exact safe.count a ha
  · intro a ha
    rw [placements] at ha
    rw [hallocations]
    exact safe.distinct a ha
  · intro a ha g hg
    rw [placements] at ha
    rw [hallocations] at hg
    obtain ⟨d, hd, huuid, hworker⟩ := safe.worker a ha g hg
    obtain ⟨d', hd', huuid', hworker'⟩ := devices d hd
    exact ⟨d', hd', huuid'.trans huuid, hworker'.trans hworker⟩
  · intro g hg
    rw [gpus] at hg
    rw [placements]
    exact safe.held g hg

/-- A new attempt, on a Docker worker with fresh reservations of free devices. -/
theorem reserve (safe : l.GpuSafe) {row : Placement} {devices : List GpuDeviceRow}
    (fresh : ∀ a ∈ l.placements, a.id ≠ row.id)
    (docker : ∀ d ∈ devices, row.workerId ≠ kubernetesWorker)
    (pending : row.cleanupStatus = .pending)
    (count : row.workerId ≠ kubernetesWorker → (devices.length : Int) = row.gpuCount)
    (distinct : (devices.map (·.uuid)).Nodup)
    (free : ∀ d ∈ devices, d ∈ l.gpuDevices ∧ d.workerId = row.workerId ∧ ¬ l.allocated d.uuid)
    (placements : l'.placements = l.placements ++ [row])
    (gpus : l'.attemptGpus = l.attemptGpus ++ reservations now row.id devices)
    (kept : ∀ d ∈ l.gpuDevices, ∃ d' ∈ l'.gpuDevices, d'.uuid = d.uuid ∧
      d'.workerId = d.workerId) : l'.GpuSafe := by
  have unheld : ∀ g ∈ l.attemptGpus, g.attemptId ≠ row.id := by
    intro g hg hid
    obtain ⟨a, ha, haid, _⟩ := safe.held g hg
    exact fresh a ha (haid.trans hid)
  have hunreleased : l'.unreleased = l.unreleased ++ reservations now row.id devices := by
    have hall : (reservations now row.id devices).filter (fun g => g.releasedAt.isNone) =
        reservations now row.id devices := by
      refine List.filter_eq_self.mpr fun g hg => ?_
      simp [(reservations_attempt g hg).2]
    rw [unreleased, gpus, List.filter_append, hall]
    rfl
  have hold : ∀ a ∈ l.placements, l'.allocationsOf a.id = l.allocationsOf a.id := by
    intro a ha
    have hnone : (reservations now row.id devices).filter (fun g => g.attemptId = a.id) = [] := by
      refine List.filter_eq_nil_iff.mpr fun g hg => ?_
      simpa [(reservations_attempt g hg).1] using (fresh a ha).symm
    rw [allocationsOf, gpus, List.filter_append, hnone, List.append_nil]
    rfl
  have hnew : l'.allocationsOf row.id = reservations now row.id devices := by
    have hnone : l.attemptGpus.filter (fun g => g.attemptId = row.id) = [] := by
      refine List.filter_eq_nil_iff.mpr fun g hg => ?_
      simpa using unheld g hg
    have hall : (reservations now row.id devices).filter (fun g => g.attemptId = row.id) =
        reservations now row.id devices := by
      refine List.filter_eq_self.mpr fun g hg => ?_
      simp [(reservations_attempt g hg).1]
    rw [allocationsOf, gpus, List.filter_append, hnone, hall, List.nil_append]
  constructor
  · rw [hunreleased]
    unfold Table.Keyed
    rw [List.map_append, reservations_uuid]
    refine List.Nodup.append safe.exclusive distinct ?_
    intro uuid huuid hdevice
    obtain ⟨g, hg, rfl⟩ := List.mem_map.mp huuid
    obtain ⟨d, hd, hdg⟩ := List.mem_map.mp hdevice
    obtain ⟨hmem, hreleased⟩ := List.mem_filter.mp hg
    refine (free d hd).2.2 (List.any_eq_true.mpr ⟨g, hmem, ?_⟩)
    simp [hdg, hreleased]
  · intro a ha hdocker
    rw [placements] at ha
    rcases List.mem_append.mp ha with ha | ha
    · rw [hold a ha]
      exact safe.count a ha hdocker
    · have hrow := List.mem_singleton.mp ha
      rw [hrow] at hdocker
      rw [hrow, hnew]
      simpa [reservations] using count hdocker
  · intro a ha
    rw [placements] at ha
    rcases List.mem_append.mp ha with ha | ha
    · rw [hold a ha]
      exact safe.distinct a ha
    · rw [List.mem_singleton.mp ha, hnew]
      unfold Table.Keyed
      rw [reservations_uuid]
      exact distinct
  · intro a ha g hg
    rw [placements] at ha
    rcases List.mem_append.mp ha with ha | ha
    · rw [hold a ha] at hg
      obtain ⟨d, hd, huuid, hworker⟩ := safe.worker a ha g hg
      obtain ⟨d', hd', huuid', hworker'⟩ := kept d hd
      exact ⟨d', hd', huuid'.trans huuid, hworker'.trans hworker⟩
    · rw [List.mem_singleton.mp ha] at hg ⊢
      rw [hnew] at hg
      obtain ⟨d, hd, rfl⟩ := List.mem_map.mp hg
      obtain ⟨hmem, hworker, _⟩ := free d hd
      obtain ⟨d', hd', huuid', hworker'⟩ := kept d hmem
      exact ⟨d', hd', huuid', hworker'.trans hworker⟩
  · intro g hg
    rw [gpus] at hg
    rw [placements]
    rcases List.mem_append.mp hg with hg | hg
    · obtain ⟨a, ha, held⟩ := safe.held g hg
      exact ⟨a, List.mem_append_left _ ha, held⟩
    · obtain ⟨hid, hreleased⟩ := reservations_attempt g hg
      obtain ⟨d, hd, _⟩ := List.mem_map.mp hg
      exact ⟨row, by simp, hid.symm, docker d hd, by simp [hreleased, pending]⟩

/-- The cleanup of a Docker attempt releases its allocations. -/
theorem release (safe : l.GpuSafe) (keyed : Table.Keyed (·.id) l.placements) {a : Placement}
    (ha : a ∈ l.placements) (placements : l'.placements = Table.replace (·.id) a.clean l.placements)
    (gpus : l'.attemptGpus = releaseGpus now a.id l.attemptGpus)
    (kept : ∀ d ∈ l.gpuDevices, ∃ d' ∈ l'.gpuDevices, d'.uuid = d.uuid ∧
      d'.workerId = d.workerId) : l'.GpuSafe := by
  have origin : ∀ b' ∈ l'.placements, ∃ b ∈ l.placements, b'.id = b.id ∧
      b'.workerId = b.workerId ∧ b'.gpuCount = b.gpuCount := by
    intro b' hb'
    rw [placements] at hb'
    rcases Table.mem_replace hb' with rfl | ⟨hb', _⟩
    · exact ⟨a, ha, rfl, rfl, rfl⟩
    · exact ⟨b', hb', rfl, rfl, rfl⟩
  have hallocations : ∀ id, l'.allocationsOf id = releaseGpus now a.id (l.allocationsOf id) := by
    intro id
    rw [allocationsOf, gpus]
    exact Table.filter_update (by intro g _; rfl) _
  have huuids : ∀ rows, (releaseGpus now a.id rows).map (·.uuid) = rows.map (·.uuid) :=
    fun rows => Table.map_update _ (by intro g _; rfl) rows
  constructor
  · have hsublist : (l'.unreleased.map (·.uuid)).Sublist (l.unreleased.map (·.uuid)) := by
      rw [unreleased, unreleased, gpus]
      generalize l.attemptGpus = rows
      induction rows with
      | nil => exact .slnil
      | cons g rest ih =>
        by_cases hattempt : g.attemptId = a.id <;> cases hreleased : g.releasedAt <;>
          simp_all [releaseGpus]
    exact hsublist.nodup safe.exclusive
  · intro b' hb' hdocker
    obtain ⟨b, hb, hid, hworker, hcount⟩ := origin b' hb'
    rw [hallocations, hid, hcount]
    rw [hworker] at hdocker
    simpa [releaseGpus] using safe.count b hb hdocker
  · intro b' hb'
    obtain ⟨b, hb, hid, _, _⟩ := origin b' hb'
    rw [hallocations, hid]
    unfold Table.Keyed
    rw [huuids]
    exact safe.distinct b hb
  · intro b' hb' g' hg'
    obtain ⟨b, hb, hid, hworker, _⟩ := origin b' hb'
    rw [hallocations, hid] at hg'
    obtain ⟨g, hg, _, huuid, _⟩ := mem_releaseGpus hg'
    obtain ⟨d, hd, hduuid, hdworker⟩ := safe.worker b hb g hg
    obtain ⟨d', hd', huuid', hworker'⟩ := kept d hd
    rw [huuid, hworker]
    exact ⟨d', hd', huuid'.trans hduuid, hworker'.trans hdworker⟩
  · intro g' hg'
    rw [gpus] at hg'
    obtain ⟨g, hg, hattempt, _, hreleased⟩ := mem_releaseGpus hg'
    obtain ⟨b, hb, hid, hdocker, hheld⟩ := safe.held g hg
    rw [placements, hattempt]
    by_cases hcase : b.id = a.id
    · have hba : b = a := keyed.eq hb ha hcase
      refine ⟨a.clean, Table.replace_self ⟨a, ha, rfl⟩, ?_, ?_, ?_⟩
      · rw [← hid, hba]
        rfl
      · rw [hba] at hdocker
        exact hdocker
      · rw [hreleased]
        constructor
        · rintro ⟨_, hne⟩
          exact absurd (hid.symm.trans hcase) hne
        · intro hdone
          cases hdone
    · refine ⟨b, Table.replace_other hb hcase, hid, hdocker, ?_⟩
      rw [hreleased, ← hheld]
      constructor
      · exact fun h => h.1
      · exact fun h => ⟨h, fun hg => hcase (hid.trans hg)⟩

/-- The cleanup of a Kubernetes attempt, which holds no device. -/
theorem remove (safe : l.GpuSafe) (keyed : Table.Keyed (·.id) l.placements) {a : Placement}
    (ha : a ∈ l.placements) (owner : a.workerId = kubernetesWorker)
    (placements : l'.placements = Table.replace (·.id) a.clean l.placements)
    (gpus : l'.attemptGpus = l.attemptGpus)
    (kept : ∀ d ∈ l.gpuDevices, ∃ d' ∈ l'.gpuDevices, d'.uuid = d.uuid ∧
      d'.workerId = d.workerId) : l'.GpuSafe := by
  have unheld : releaseGpus 0 a.id l.attemptGpus = l.attemptGpus := by
    refine Table.update_eq_self ?_
    intro g hg hrelease
    simp only [Bool.and_eq_true, decide_eq_true_eq] at hrelease
    obtain ⟨b, hb, hid, hdocker, _⟩ := safe.held g hg
    have hba : b = a := keyed.eq hb ha (hid.trans hrelease.1)
    exact absurd (hba ▸ owner) hdocker
  exact safe.release keyed ha placements (gpus.trans unheld.symm) kept

end Ledger.GpuSafe

section Effects

variable {p : PostgresStore} {now : Int} {l l' : Ledger} {op : Op}

theorem Effect.gpuSafe (wf : l.WellFormed) (seated : l.Seated) (safe : l.GpuSafe)
    (effect : Effect p now l op l') : l'.GpuSafe := by
  have keyed := Journal.placements_keyed wf.toWellFormed
  have fresh : ∀ attempt : RandomId, (∀ a ∈ l.attempts, a.id ≠ attempt.text) →
      ∀ a ∈ l.placements, a.id ≠ attempt.text := by
    intro attempt hfresh a ha
    obtain ⟨b, hb, rfl⟩ := List.mem_map.mp ha
    exact hfresh b hb
  cases effect.shift wf with
  | still placements gpus => exact safe.still placements gpus effect.devices_kept
  | @assigned _ _ _ _ _ r _ worker _ chosen _ _ count distinct free placements gpus _ =>
    have demand := seated.demand r (Table.lookup_mem chosen.run).1
    have docker := seated.not_kubernetes (Table.lookup_mem worker).1
    refine safe.reserve (fresh _ chosen.fresh) (fun _ _ => docker) rfl ?_ distinct free placements
      gpus effect.devices_kept
    have hpositive := demand.gpuCount
    intro _
    rw [count]
    exact Int.toNat_of_nonneg hpositive
  | @admitted _ attempt _ _ r _ chosen placements gpus =>
    have none_reserved : l'.attemptGpus = l.attemptGpus ++ reservations now attempt.text [] := by
      simp [gpus, reservations]
    exact safe.reserve (fresh _ chosen.fresh) (by simp) rfl (fun h => absurd rfl h) (by simp)
      (by simp) placements none_reserved effect.devices_kept
  | stopped member _ _ placements gpus =>
    exact safe.release keyed (Journal.mem_placements member) placements gpus effect.devices_kept
  | removed member owner _ placements gpus =>
    exact safe.remove keyed (Journal.mem_placements member) owner placements gpus
      effect.devices_kept

end Effects

section Reachable

variable {p : PostgresStore} {s : PostgresStore.State}

theorem gpuSafe_reachable (hs : p.system.Reachable s) : s.db.toLedger.GpuSafe := by
  have both := PostgresStore.ledger_invariant (P := fun _ l => l.Seated ∧ l.GpuSafe)
    ⟨⟨by simp, by simp [Journal.placements], by simp⟩,
      ⟨.nil, by simp [Journal.placements], by simp [Journal.placements],
        by simp [Journal.placements], by simp⟩⟩
    (fun _ _ _ _ _ _ wf safe effect =>
      ⟨effect.seated wf safe.1, effect.gpuSafe wf safe.1 safe.2⟩) hs
  exact both.2

/-- Reserving distinct free devices for an attempt without allocations succeeds. -/
theorem reserveGpus_total {now : Int} {id : String} {count : Nat} {devices : List GpuDeviceRow}
    {db : Db} (enough : count ≤ devices.length) (distinct : (devices.map (·.uuid)).Nodup)
    (unheld : ∀ d ∈ devices, ∀ g ∈ db.attemptGpus, g.attemptId = id → g.uuid ≠ d.uuid)
    (free : ∀ d ∈ devices, ∀ g ∈ db.attemptGpus, g.uuid = d.uuid → g.releasedAt ≠ none) :
    ∃ db', reserveGpus now id count devices db = .ok db' := by
  induction count generalizing devices db with
  | zero => exact ⟨db, rfl⟩
  | succ count ih =>
    cases devices with
    | nil => simp at enough
    | cons d rest =>
      obtain ⟨hhead, htail⟩ := List.nodup_cons.mp distinct
      have apart : ∀ e ∈ rest, d.uuid ≠ e.uuid :=
        fun e he huuid => hhead (List.mem_map.mpr ⟨e, he, huuid.symm⟩)
      have insert : db.insertAttemptGpu ⟨id, d.uuid, d.name, d.memoryMib, now, none⟩ = .ok
          { db with attemptGpus :=
              db.attemptGpus ++ [⟨id, d.uuid, d.name, d.memoryMib, now, none⟩] } := by
        have hkey : (db.attemptGpus.any fun g => g.attemptId = id && g.uuid = d.uuid) = false := by
          rw [List.any_eq_false]
          intro g hg hboth
          simp only [Bool.and_eq_true, decide_eq_true_eq] at hboth
          exact unheld d List.mem_cons_self g hg hboth.1 hboth.2
        have hexclusive : (db.attemptGpus.any fun g =>
            g.uuid = d.uuid && g.releasedAt.isNone) = false := by
          rw [List.any_eq_false]
          intro g hg hboth
          simp only [Bool.and_eq_true, decide_eq_true_eq, Option.isNone_iff_eq_none] at hboth
          exact free d List.mem_cons_self g hg hboth.1 hboth.2
        simp [Db.insertAttemptGpu, hkey, hexclusive]
      simp only [reserveGpus, insert]
      refine ih (by simpa using enough) htail ?_ ?_
      · intro e he g hg hattempt
        rcases List.mem_append.mp hg with hg | hg
        · exact unheld e (List.mem_cons_of_mem d he) g hg hattempt
        · rw [List.mem_singleton.mp hg]
          exact apart e he
      · intro e he g hg huuid
        rcases List.mem_append.mp hg with hg | hg
        · exact free e (List.mem_cons_of_mem d he) g hg huuid
        · rw [List.mem_singleton.mp hg] at huuid
          exact absurd huuid (apart e he)

/-- The faults that reserving GPU devices could raise. -/
def Fault.reservation : Fault → Prop
  | .outOfRange => True
  | .uniqueViolation constraint =>
    constraint = "gpu_exclusive_allocation" ∨ constraint = "attempt_gpus_pkey"
  | .error _ _ => False

theorem requireWorker_fault {id session : String} {db : Db} {e : Fault}
    (h : requireWorker id session db = .error e) : ¬ e.reservation := by
  rw [requireWorker] at h
  split at h
  · cases h
    exact not_false
  · simp only [Result.bind_error, throwIf] at h
    rcases h with h | ⟨_, _, h⟩
    · split at h
      · cases h
        exact not_false
      · cases h
    · cases h

theorem event_fault {now : Int} {id : String} {kind : EventKind} {detail : String} {db : Db}
    {e : Fault} (known : ∃ r ∈ db.runs, r.id = id) (h : event now id kind detail db = .error e) :
    ¬ e.reservation := by
  simp only [event] at h
  split at h
  · rename_i hnone
    obtain ⟨r, hr, hid⟩ := known
    have absent := Table.lookup_none hnone
    have counted : (if r.id = id then r.count now else r) ∈
        (db.updateRun id fun r => r.count now).runs :=
      Table.mem_update.mpr ⟨r, hr, by simp⟩
    refine absurd ?_ (absent _ counted)
    simp [hid]
  · rw [Db.insertEvent] at h
    split at h
    · cases h
      simp [Fault.reservation]
    · cases h

theorem activate_fault {timing : Timing} {now : Int} {attempt : RandomId} {worker detail : String}
    {r : RunRow} {db : Db} {e : Fault} (hr : r ∈ db.runs)
    (h : activate timing now attempt worker r detail db = .error e) : ¬ e.reservation := by
  simp only [activate, Result.bind_error] at h
  rcases h with h | ⟨db₁, hinsert, h⟩
  · rw [Db.insertAttempt] at h
    split at h
    · cases h
      simp [Fault.reservation]
    split at h
    · cases h
      simp [Fault.reservation]
    · cases h
  · obtain ⟨_, rfl⟩ := insertAttempt_ok hinsert
    refine event_fault ⟨_, Table.mem_update.mpr ⟨r, hr, rfl⟩, ?_⟩ h
    simp

theorem assign_fault {now : Int} {attempt : RandomId} {locked : List String}
    {id session : String} {e : Fault} (hs : p.system.Reachable s)
    (h : assign p.timing now attempt locked id session s.db = .error e) : ¬ e.reservation := by
  have wf := PostgresStore.reachable_wellFormed hs
  have safe := gpuSafe_reachable hs
  rcases Result.bind_error.mp h with h | ⟨w, hworker, h⟩
  · exact requireWorker_fault h
  split at h
  · cases h
  split at h
  · rename_i a _ hpending
    have ha : a ∈ s.db.attempts := by
      have hmem : a ∈ pendingLaunches now id (w.gpuAvailable now) s.db := by simp [hpending]
      exact (List.mem_filter.mp ((List.mem_insertionSort _).mp hmem)).1
    obtain ⟨r, hr, hrun⟩ := wf.attemptRun a ha
    have found : s.db.run? a.runId = some r := hrun ▸ wf.runs.lookup hr
    rw [found] at h
    cases h
  split at h
  · cases h
  dsimp only at h
  split at h
  · cases h
  rename_i r hnext
  obtain ⟨hr, _, _, hfits⟩ := nextQueued_ok wf.toWellFormed hnext
  have hmem := (Table.lookup_mem hr).1
  rcases Result.bind_error.mp h with h | ⟨db₁, hactivate, h⟩
  · exact activate_fault hmem h
  obtain ⟨fresh, hledger⟩ := activate_ok wf.toWellFormed hr hactivate
  have hgpus : db₁.attemptGpus = s.db.attemptGpus := by
    rw [hledger]
    rfl
  have demand := (seated_reachable hs).demand r hmem
  simp only [fitsWorker, Bool.and_eq_true, decide_eq_true_eq] at hfits
  have enough : r.spec.resources.gpuCount.toNat ≤ (offeredGpus now w s.db).length := by
    have hgpuFits := hfits.1.1
    rw [demand.gpus] at hgpuFits
    omega
  have unheld : ∀ g ∈ s.db.attemptGpus, g.attemptId ≠ attempt.text := by
    intro g hg hid
    obtain ⟨a, ha, haid, _⟩ := safe.held g hg
    obtain ⟨b, hb, rfl⟩ := List.mem_map.mp ha
    exact fresh b hb (haid.trans hid)
  obtain ⟨db₂, hreserve⟩ : ∃ db', reserveGpus now attempt.text r.spec.resources.gpuCount.toNat
      (offeredGpus now w s.db) db₁ = .ok db' := by
    refine reserveGpus_total enough (offeredGpus_distinct wf) ?_ ?_
    · intro d _ g hg hattempt
      rw [hgpus] at hg
      exact absurd hattempt (unheld g hg)
    · intro d hd g hg huuid hreleased
      rw [hgpus] at hg
      refine (mem_offeredGpus hd).2.2 (List.any_eq_true.mpr ⟨g, hg, ?_⟩)
      simp [huuid, hreleased]
  simp only [hreserve, Result.bind_error] at h
  rcases h with h | ⟨_, _, h⟩
  · cases h
  · cases h

/-- GPU exclusivity in every reachable state, and that reserving devices raises no fault. -/
theorem gpu_exclusivity (p : PostgresStore) {s : PostgresStore.State}
    (hs : p.system.Reachable s) :
    (∀ g ∈ s.db.attemptGpus, ∀ g' ∈ s.db.attemptGpus, g.uuid = g'.uuid → g.releasedAt = none →
      g'.releasedAt = none → g = g') ∧
    (∀ a ∈ s.db.attempts, a.workerId ≠ kubernetesWorker →
      let held := s.db.attemptGpus.filter fun g => g.attemptId = a.id
      (held.length : Int) = a.gpuCount ∧ (held.map (·.uuid)).Nodup ∧
        ∀ g ∈ held, ∃ d ∈ s.db.gpuDevices, d.uuid = g.uuid ∧ d.workerId = a.workerId) ∧
    (∀ g ∈ s.db.attemptGpus, ∃ a ∈ s.db.attempts, a.id = g.attemptId ∧
      (g.releasedAt = none ↔ a.cleanupStatus = .pending)) ∧
    ∀ now attempt locked id session e,
      assign p.timing now attempt locked id session s.db = .error e →
      e ≠ .outOfRange ∧ e ≠ .uniqueViolation "gpu_exclusive_allocation" ∧
        e ≠ .uniqueViolation "attempt_gpus_pkey" := by
  have safe := gpuSafe_reachable hs
  refine ⟨?_, ?_, ?_, ?_⟩
  · intro g hg g' hg' huuid hreleased hreleased'
    refine safe.exclusive.eq ?_ ?_ huuid
    · exact List.mem_filter.mpr ⟨hg, by simp [hreleased]⟩
    · exact List.mem_filter.mpr ⟨hg', by simp [hreleased']⟩
  · intro a ha docker held
    have hplacement := Journal.mem_placements ha
    exact ⟨safe.count _ hplacement docker, safe.distinct _ hplacement, safe.worker _ hplacement⟩
  · intro g hg
    obtain ⟨a, ha, hid, _, hheld⟩ := safe.held g hg
    obtain ⟨b, hb, rfl⟩ := List.mem_map.mp ha
    exact ⟨b, hb, hid, hheld⟩
  · intro now attempt locked id session e h
    have harmless := assign_fault hs h
    refine ⟨?_, ?_, ?_⟩
    · rintro rfl
      exact harmless trivial
    · rintro rfl
      exact harmless (.inl rfl)
    · rintro rfl
      exact harmless (.inr rfl)

end Reachable

namespace Sample

def gpuRegistered : PostgresStore.State :=
  ⟨store.commit 1 (.registerWorker "worker" "session" ⟨4000, 4096⟩ ⟨"engine", true⟩) {}, 1⟩

def gpuDiscovered : PostgresStore.State :=
  ⟨store.commit 2 (.reportGpuInventory "worker" "session"
    ⟨1, true, [⟨"GPU-0", "device", 16384, true, ""⟩]⟩) gpuRegistered.db, 2⟩

def gpuSubmitted : PostgresStore.State :=
  ⟨store.commit 3 (.submit runId { spec with resources := { gpuCount := 1 } } "key" "fingerprint")
    gpuDiscovered.db, 3⟩

def gpuAssigned : PostgresStore.State :=
  ⟨store.commit 4 (.assign attemptId [] "worker" "session") gpuSubmitted.db, 4⟩

theorem gpuAssigned_reachable : store.system.Reachable gpuAssigned :=
  store.reachable_commit (store.reachable_commit (store.reachable_commit (store.reachable_commit
    System.reachable_init _ (by decide)) _ (by decide)) _ (by decide)) _ (by decide)

end Sample

theorem gpu_exclusivity_assigned : ∃ g ∈ Sample.gpuAssigned.db.attemptGpus,
    g.releasedAt = none ∧ ∃ a ∈ Sample.gpuAssigned.db.attempts, a.id = g.attemptId ∧
      (g.releasedAt = none ↔ a.cleanupStatus = .pending) := by
  have held : ∃ g ∈ Sample.gpuAssigned.db.attemptGpus, g.releasedAt = none := by decide +kernel
  obtain ⟨g, hg, hreleased⟩ := held
  exact ⟨g, hg, hreleased, (gpu_exclusivity Sample.store Sample.gpuAssigned_reachable).2.2.1 g hg⟩

end Runyard
