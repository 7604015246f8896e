import Runyard.Capacity.Gpus
import Runyard.Capacity.InventoryLog
import Runyard.Store.Capacity
import Mathlib.Algebra.BigOperators.Ring.Finset

/-!
# The views of GPU capacity

The list of workers, the totals and the scheduler count devices with queries of their own. They
agree because every present device and every held allocation belongs to one registered worker.
-/

namespace Runyard

/-- The pages of `workers`, each one after the last worker of the page before. -/
def workerPages (timing : Timing) (now limit : Int) (db : Db) : Nat → String → List Worker
  | 0, _ => []
  | n + 1, after =>
    let page := workers timing now limit after db
    page ++ workerPages timing now limit db n ((page.getLast?.map (·.id)).getD after)

/-- The worker as `workers` returns it. -/
def WorkerRow.listed (w : WorkerRow) (timing : Timing) (now : Int) (db : Db) : Worker :=
  loadWorkerGpus (w.worker timing now db) db

/-- The device could be assigned if its worker may be. -/
def Ledger.spare (l : Ledger) (d : GpuDeviceRow) : Bool :=
  d.present && d.eligible && !l.allocated d.uuid

/-- The worker may be given GPU work. -/
def WorkerRow.offers (w : WorkerRow) (timing : Timing) (now : Int) : Bool :=
  w.gpuAvailable now && w.available timing now && !w.drained

/-- The worker whose attempt the allocation was made for. -/
def Ledger.holder (l : Ledger) (g : AttemptGpuRow) : String :=
  ((l.attempt? g.attemptId).map (·.workerId)).getD ""

section Rows

variable {timing : Timing} {now limit : Int} {db : Db} {w : WorkerRow}

@[simp] theorem listed_id : (w.listed timing now db).id = w.id := rfl

@[simp] theorem listed_drained : (w.listed timing now db).drained = w.drained := rfl

@[simp] theorem listed_available :
    (w.listed timing now db).available = w.available timing now := rfl

theorem listed_capacity : (w.listed timing now db).capacity.gpuCount =
    db.gpuDevices.countP fun d => d.workerId = w.id && (d.present && d.eligible) := by
  have hsort := List.perm_insertionSort (fun d e : GpuDeviceRow => d.uuid ≤ e.uuid)
    (db.gpuDevices.filter fun d => d.workerId = w.id && d.present)
  have counted := (hsort.countP_eq (·.eligible)).trans List.countP_filter
  have same : (db.gpuDevices.countP fun d => d.eligible && (d.workerId = w.id && d.present)) =
      db.gpuDevices.countP fun d => d.workerId = w.id && (d.present && d.eligible) := by
    refine List.countP_congr fun d _ => ?_
    simp only [Bool.and_eq_true]
    tauto
  calc (w.listed timing now db).capacity.gpuCount
      = 0 + ((List.insertionSort (fun d e : GpuDeviceRow => d.uuid ≤ e.uuid)
          (db.gpuDevices.filter fun d => d.workerId = w.id && d.present)).countP
            (·.eligible) : Nat) := rfl
    _ = _ := by rw [counted, same, zero_add]

theorem listed_reserved : (w.listed timing now db).reserved.gpuCount =
    db.attemptGpus.countP fun g => db.heldBy w.id g := rfl

theorem listed_availableGpus : (w.listed timing now db).availableGpus =
    if w.offers timing now then
      ((db.gpuDevices.countP fun d => d.workerId = w.id && db.spare d : Nat) : Int) else 0 := by
  have condition : (w.gpuReady && w.gpuCapable && w.gpuFresh now && w.available timing now &&
      !w.drained) = w.offers timing now := by
    simp only [WorkerRow.offers, WorkerRow.gpuAvailable]
    cases w.gpuReady <;> cases w.gpuCapable <;> simp
  have unfolded : (w.listed timing now db).availableGpus =
      if w.gpuReady && w.gpuCapable && w.gpuFresh now && w.available timing now && !w.drained then
        ((db.gpuDevices.countP fun d => d.workerId = w.id && d.present && d.eligible &&
          !db.allocated d.uuid : Nat) : Int) else 0 := rfl
  rw [unfolded, condition]
  simp only [Ledger.spare, Bool.and_assoc]

theorem freeGpus_length : (freeGpus w.id db).length =
    db.gpuDevices.countP fun d => d.workerId = w.id && db.spare d := by
  rw [freeGpus, List.length_insertionSort, ← List.countP_eq_length_filter]
  simp only [Ledger.spare, Bool.and_assoc]

theorem workerPages_eq (after : String) (n : Nat) : workerPages timing now limit db n after =
    (Cursor.pages (·.id) (max 1 (min limit 200)).toNat
      (db.workers.insertionSort fun v w => v.id ≤ w.id) n after).map
        fun w => w.listed timing now db := by
  induction n generalizing after with
  | zero => rfl
  | succ n ih =>
    rw [workerPages, Cursor.pages, List.map_append, ih, workers]
    congr 2
    rw [Cursor.position, List.getLast?_map, Option.map_map]
    rfl

end Rows

section Reachable

variable {p : PostgresStore} {s : PostgresStore.State}

theorem worker_named (hs : p.system.Reachable s) : ∀ w ∈ s.db.workers, w.id ≠ "" := by
  intro w hw
  obtain ⟨t, ht, rfl⟩ := InventoryLog.logged hs
  have recorded := InventoryLog.recorded_reachable ht w.id
  have known := (PostgresStore.reachable_wellFormed hs).workers.lookup hw
  refine (recorded.begun fun hnil => ?_).1
  have hworker := recorded.worker
  rw [hnil, Ledger.worker?, known] at hworker
  cases hworker

/-- A present device belongs to a registered worker. -/
theorem device_owner (hs : p.system.Reachable s) : ∀ d ∈ s.db.gpuDevices, d.present →
    ∃ w ∈ s.db.workers, w.id = d.workerId := by
  intro d hd present
  obtain ⟨t, ht, rfl⟩ := InventoryLog.logged hs
  have recorded := InventoryLog.recorded_reachable ht d.workerId
  have shown := (recorded.devices d.device).mp ⟨d, hd, rfl, present, rfl⟩
  have started : t.history d.workerId ≠ [] := by
    intro hnil
    rw [hnil] at shown
    cases shown
  have hworker := recorded.worker
  rw [Accepted.discovery] at hworker
  obtain ⟨registration, hregistration⟩ := Option.ne_none_iff_exists'.mp (recorded.begun started).2
  rw [hregistration, Option.map_some] at hworker
  obtain ⟨w, known, -⟩ := Option.map_eq_some_iff.mp hworker
  exact ⟨w, Table.lookup_mem known⟩

/-- An allocation was made for an attempt of a registered worker. -/
theorem allocation_owner (hs : p.system.Reachable s) : ∀ g ∈ s.db.attemptGpus,
    (∃ w ∈ s.db.workers, w.id = s.db.holder g) ∧
    ∀ v, s.db.heldBy v g ↔ s.db.holder g = v ∧ g.releasedAt.isNone := by
  intro g hg
  have wf := PostgresStore.reachable_wellFormed hs
  obtain ⟨a, ha, hid, docker, -⟩ := (gpuSafe_reachable hs).held g hg
  obtain ⟨b, hb, rfl⟩ := List.mem_map.mp ha
  have found : s.db.attempt? g.attemptId = some b := hid ▸ wf.attempts.lookup hb
  have holds : s.db.holder g = b.workerId := by
    rw [Ledger.holder, found]
    rfl
  rw [holds]
  refine ⟨((seated_reachable hs).seat _ ha).resolve_left docker, fun v => ?_⟩
  simp only [Ledger.heldBy, List.any_eq_true, Bool.and_eq_true, decide_eq_true_eq]
  refine and_congr_left fun _ => ⟨?_, fun h => ⟨b, hb, hid, h⟩⟩
  rintro ⟨c, hc, hcid, rfl⟩
  rw [wf.attempts.eq hc hb (hcid.trans hid.symm)]

variable {now limit : Int}

/-- Enough pages list every worker once. -/
theorem workerPages_all (hs : p.system.Reachable s) {n : Nat} (enough : s.db.workers.length ≤ n) :
    workerPages p.timing now limit s.db n "" =
      (s.db.workers.insertionSort fun v w => v.id ≤ w.id).map
        fun w => w.listed p.timing now s.db := by
  have wf := PostgresStore.reachable_wellFormed hs
  rw [workerPages_eq, Cursor.pages_all]
  · exact Cursor.increasing_sort wf.workers
  · intro w hw
    exact empty_lt (worker_named hs w ((List.mem_insertionSort _).mp hw))
  · omega
  · rw [List.length_insertionSort]
    exact enough

theorem sum_workerPages (hs : p.system.Reachable s) {n : Nat} (enough : s.db.workers.length ≤ n)
    {β : Type} (owner : β → String) (offers : WorkerRow → Bool) (q : β → Bool) (rows : List β)
    (column : Worker → Int) (reads : ∀ w ∈ s.db.workers, column (w.listed p.timing now s.db) =
      if offers w then ((rows.countP fun b => owner b = w.id && q b : Nat) : Int) else 0) :
    ((workerPages p.timing now limit s.db n "").map column).sum =
      (rows.countP fun b => q b && s.db.workers.any fun w => w.id = owner b && offers w : Nat) := by
  have wf := PostgresStore.reachable_wellFormed hs
  have hsort := List.perm_insertionSort (fun v w : WorkerRow => v.id ≤ w.id) s.db.workers
  rw [workerPages_all hs enough, List.map_map, (hsort.map _).sum_eq,
    ← Table.sum_owned owner offers q wf.workers rows, Nat.cast_list_sum, List.map_map]
  refine congrArg List.sum (List.map_congr_left fun w hw => ?_)
  rw [Function.comp_apply, Function.comp_apply, reads w hw]
  push_cast
  rfl

/-- The list of workers, the totals and the scheduler agree on the devices. -/
theorem gpu_capacity_views (p : PostgresStore) {s : PostgresStore.State}
    (hs : p.system.Reachable s) (now : Int) :
    (∀ limit n, s.db.workers.length ≤ n →
      ((workerPages p.timing now limit s.db n "").map (·.capacity.gpuCount)).sum =
          (gpuCapacity p.timing now s.db).capacity ∧
        ((workerPages p.timing now limit s.db n "").map (·.reserved.gpuCount)).sum =
          (gpuCapacity p.timing now s.db).reserved ∧
        ((workerPages p.timing now limit s.db n "").map (·.availableGpus)).sum =
          (gpuCapacity p.timing now s.db).available ∧
        ((workerPages p.timing now limit s.db n "").map (·.id)).Perm (s.db.workers.map (·.id)) ∧
        (∀ v ∈ workerPages p.timing now limit s.db n "",
          0 ≤ v.availableGpus ∧ v.availableGpus ≤ v.capacity.gpuCount ∧
          ∃ w ∈ s.db.workers, w.id = v.id ∧ (¬ v.drained → v.available →
            v.availableGpus = (offeredGpus now w s.db).length))) ∧
    0 ≤ (gpuCapacity p.timing now s.db).available ∧
    (gpuCapacity p.timing now s.db).available ≤ (gpuCapacity p.timing now s.db).capacity := by
  have wf := PostgresStore.reachable_wellFormed hs
  refine ⟨fun limit n enough => ⟨?_, ?_, ?_, ?_, ?_⟩, ?_, ?_⟩
  · rw [sum_workerPages hs enough (·.workerId) (fun _ => true) (fun d => d.present && d.eligible)
      s.db.gpuDevices (·.capacity.gpuCount) (fun w _ => listed_capacity)]
    refine congrArg Nat.cast (List.countP_congr fun d hd => ?_)
    simp only [Bool.and_true, Bool.and_eq_true, List.any_eq_true, decide_eq_true_eq,
      and_iff_left_iff_imp]
    exact fun h => device_owner hs d hd h.1
  · have held : ∀ w ∈ s.db.workers, (w.listed p.timing now s.db).reserved.gpuCount =
        s.db.attemptGpus.countP fun g => s.db.holder g = w.id && g.releasedAt.isNone := by
      intro w _
      rw [listed_reserved]
      refine congrArg Nat.cast (List.countP_congr fun g hg => ?_)
      rw [(allocation_owner hs g hg).2 w.id, Bool.and_eq_true, decide_eq_true_eq]
    rw [sum_workerPages hs enough s.db.holder (fun _ => true) (fun g => g.releasedAt.isNone)
      s.db.attemptGpus (·.reserved.gpuCount) held]
    refine congrArg Nat.cast (List.countP_congr fun g hg => ?_)
    simp only [Bool.and_true, Bool.and_eq_true, List.any_eq_true, decide_eq_true_eq,
      and_iff_left_iff_imp]
    exact fun _ => (allocation_owner hs g hg).1
  · rw [sum_workerPages hs enough (·.workerId) (fun w => w.offers p.timing now)
      (fun d => s.db.spare d) s.db.gpuDevices (·.availableGpus) (fun w _ => listed_availableGpus)]
    refine congrArg Nat.cast (List.countP_congr fun d hd => ?_)
    simp only [Ledger.spare, WorkerRow.offers, WorkerRow.gpuAvailable, Bool.and_eq_true,
      List.any_eq_true, decide_eq_true_eq]
    tauto
  · have hsort := List.perm_insertionSort (fun v w : WorkerRow => v.id ≤ w.id) s.db.workers
    rw [workerPages_all hs enough, List.map_map]
    exact hsort.map _
  · intro v hv
    rw [workerPages_all hs enough] at hv
    obtain ⟨w, hw, rfl⟩ := List.mem_map.mp hv
    rw [List.mem_insertionSort] at hw
    have fewer : (s.db.gpuDevices.countP fun d => d.workerId = w.id && s.db.spare d) ≤
        s.db.gpuDevices.countP fun d => d.workerId = w.id && (d.present && d.eligible) := by
      refine List.countP_mono_left fun d _ => ?_
      simp only [Ledger.spare, Bool.and_eq_true]
      exact fun h => ⟨h.1, h.2.1⟩
    rw [listed_availableGpus, listed_capacity]
    refine ⟨?_, ?_, w, hw, rfl, fun undrained available => ?_⟩
    · split
      · exact Int.natCast_nonneg _
      · exact le_refl _
    · split
      · exact Int.ofNat_le.mpr fewer
      · exact Int.natCast_nonneg _
    · rw [listed_drained] at undrained
      rw [listed_available] at available
      have offers : w.offers p.timing now = w.gpuAvailable now := by
        simp [WorkerRow.offers, available, undrained]
      rw [offers, offeredGpus]
      split
      · rw [freeGpus_length]
      · rfl
  · exact Int.natCast_nonneg _
  · refine Int.ofNat_le.mpr (List.countP_mono_left fun d _ => ?_)
    simp only [Bool.and_eq_true]
    exact fun h => ⟨h.1.1.2, h.1.2⟩

theorem gpu_capacity_views_shared : ∃ s, Sample.store.system.Reachable s ∧
    (gpuCapacity Sample.store.timing 4 s.db).available = 1 ∧
    ((workerPages Sample.store.timing 4 1 s.db 2 "").map (·.availableGpus)).sum = 1 := by
  have counted : (Sample.discovery Sample.shared).map (fun t =>
      ((gpuCapacity Sample.store.timing 4 t.store.db).available, t.store.db.workers.length)) =
        some (1, 2) := by decide +kernel
  obtain ⟨t, ht, facts⟩ := Option.map_eq_some_iff.mp counted
  obtain ⟨available, size⟩ := Prod.mk.inj facts
  have reachable := InventoryLog.embeds.reachable (System.replay_reachable ht)
  have views := (gpu_capacity_views Sample.store reachable 4).1 1 2 (by omega)
  exact ⟨_, reachable, available, views.2.2.1.trans available⟩

end Reachable

end Runyard
