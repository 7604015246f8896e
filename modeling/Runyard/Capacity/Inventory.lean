import Runyard.Ledger.Frame

/-!
# GPU inventory

What registrations and discovery reports leave in the tables of workers and devices. The
history of a worker is the list of its accepted calls; the discovery columns of its row and its
present devices are functions of that history, whatever else happens in between.
-/

namespace Runyard

/-- The tables of discovery. -/
structure Inventory where
  workers : List WorkerRow
  devices : List GpuDeviceRow

def Db.inventory (db : Db) : Inventory := ⟨db.workers, db.gpuDevices⟩

theorem inventory_frame : Db.Frame Db.inventory where
  runs _ _ _ := rfl
  attempts _ _ := rfl
  events _ _ := rfl
  attemptGpus _ _ := rfl

theorem inventory_of_ledger {db db' : Db} (h : db'.toLedger = db.toLedger) :
    db'.inventory = db.inventory :=
  congrArg (fun l : Ledger => (⟨l.workers, l.gpuDevices⟩ : Inventory)) h

section Frame

variable {p : PostgresStore} {db db' : Db} {now : Int}

theorem insertRun_inventory {row : RunRow} (h : db.insertRun row = .ok db') :
    db'.inventory = db.inventory := by
  obtain ⟨_, rfl⟩ := insertRun_ok h
  rfl

theorem insertSweepRuns_inventory {sweep : String} {randomId : Nat → RandomId} {i : Nat}
    {runs : List RunSpec} (h : insertSweepRuns now sweep randomId i runs db = .ok db') :
    db'.inventory = db.inventory := by
  induction runs generalizing i db with
  | nil =>
    cases h
    rfl
  | cons run rest ih =>
    simp only [insertSweepRuns, Result.bind_ok] at h
    obtain ⟨_, _, db₁, hinsert, db₂, hevent, hrest⟩ := h
    rw [ih hrest, inventory_frame.event hevent, insertRun_inventory hinsert]

/-- Only the calls of agents and the draining of a worker write the tables of discovery. -/
theorem apply_inventory {op : Op} (other : op.writesWorkers = false)
    (h : p.apply now op db = .ok db') : db'.inventory = db.inventory := by
  cases hop : op.writesAside with
  | false => exact inventory_frame.apply hop other h
  | true => cases op with
    | submit =>
      obtain ⟨⟨db₁, r⟩, hcall, rfl⟩ := Result.map_ok.mp h
      obtain ⟨_, _, hcall⟩ := Result.bind_ok.mp hcall
      split at hcall
      · obtain ⟨_, _, hcall⟩ := Result.bind_ok.mp hcall
        split at hcall
        · cases hcall
        · cases hcall
          rfl
      · simp only [Result.bind_ok, Result.pure_ok, Prod.mk.injEq] at hcall
        obtain ⟨db₁, hrun, db₂, hsubmission, db₃, hevent, rfl, _⟩ := hcall
        rw [inventory_frame.event hevent,
          inventory_of_ledger (insertSubmission_ledger hsubmission), insertRun_inventory hrun]
    | submitSweep =>
      obtain ⟨⟨db₁, r⟩, hcall, rfl⟩ := Result.map_ok.mp h
      rw [submitSweep] at hcall
      split at hcall
      · simp only [Result.bind_ok, Result.pure_ok, Prod.mk.injEq] at hcall
        obtain ⟨_, _, _, _, rfl, _⟩ := hcall
        rfl
      · simp only [Result.bind_ok, Result.pure_ok, Prod.mk.injEq] at hcall
        obtain ⟨db₁, hsweep, db₂, hruns, _, _, rfl, _⟩ := hcall
        exact (insertSweepRuns_inventory hruns).trans
          (inventory_of_ledger (insertSweep_ledger hsweep))
    | rerun =>
      obtain ⟨⟨db₁, r⟩, hcall, rfl⟩ := Result.map_ok.mp h
      simp only [rerun] at hcall
      split at hcall
      · obtain ⟨_, _, hcall⟩ := Result.bind_ok.mp hcall
        split at hcall
        · cases hcall
        · cases hcall
          rfl
      · split at hcall
        · cases hcall
        · simp only [Result.bind_ok, Result.pure_ok, Prod.mk.injEq] at hcall
          obtain ⟨_, _, _, _, db₁, hrun, db₂, hsubmission, db₃, hevent, rfl, _⟩ := hcall
          rw [inventory_frame.event hevent,
            inventory_of_ledger (insertSubmission_ledger hsubmission), insertRun_inventory hrun]
    | report =>
      obtain ⟨⟨db₁, x⟩, hcall, rfl⟩ := Result.map_ok.mp h
      simp only [report, Result.bind_ok] at hcall
      obtain ⟨_, _, _, _, _, _, ⟨db₂, next⟩, hinsert, hreturn⟩ := hcall
      simp only [Result.pure_ok, Prod.mk.injEq] at hreturn
      obtain ⟨rfl, _⟩ := hreturn
      have hrecords := inventory_of_ledger (insertRecords_ledger hinsert)
      exact hrecords
    | publishArtifact =>
      obtain ⟨⟨db₁, x⟩, hcall, rfl⟩ := Result.map_ok.mp h
      exact inventory_of_ledger (publishArtifact_ledger hcall)
    | _ => cases hop

end Frame

/-! ## Devices -/

/-- The device is present at the worker. -/
def Shows (rows : List GpuDeviceRow) (worker : String) (device : GpuDevice) : Prop :=
  ∃ d ∈ rows, d.workerId = worker ∧ d.present ∧ d.device = device

section Devices

variable {db db' : Db} {now : Int} {worker : String}

theorem shows_hide (rows : List GpuDeviceRow) (worker other : String) (device : GpuDevice) :
    Shows (Table.update (fun d => d.workerId = worker) (fun d => d.hide) rows) other device ↔
      other ≠ worker ∧ Shows rows other device := by
  constructor
  · rintro ⟨d', hd', hworker, hpresent, hdevice⟩
    obtain ⟨d, hd, rfl⟩ := Table.mem_update.mp hd'
    by_cases hsame : d.workerId = worker
    · simp [hsame] at hpresent
    · simp only [hsame, decide_false, Bool.false_eq_true, if_false] at hworker hpresent hdevice
      exact ⟨fun h => hsame (hworker.trans h), d, hd, hworker, hpresent, hdevice⟩
  · rintro ⟨hother, d, hd, hworker, hpresent, hdevice⟩
    have hkept : ¬ decide (d.workerId = worker) := by simpa [hworker] using hother
    exact ⟨d, Table.mem_update_of_not _ hd hkept, hworker, hpresent, hdevice⟩

/-- Recording a device replaces what the worker showed under its UUID; a UUID that another
worker recorded is refused. -/
theorem upsertDevice_shows {x : GpuDevice} (keyed : Table.Keyed (·.uuid) db.gpuDevices)
    (h : upsertDevice now worker x db = .ok db') :
    ∃ rows, db' = { db with gpuDevices := rows } ∧ Table.Keyed (·.uuid) rows ∧
      (∀ d ∈ db.gpuDevices, d.uuid = x.uuid → d.workerId = worker) ∧
      (∀ d ∈ db.gpuDevices, ∃ d' ∈ rows, d'.uuid = d.uuid ∧ d'.workerId = d.workerId) ∧
      ∀ v device, Shows rows v device ↔ v = worker ∧ device = x ∨
        device.uuid ≠ x.uuid ∧ Shows db.gpuDevices v device := by
  rw [upsertDevice] at h
  split at h
  · next habsent =>
    cases h
    have fresh := Table.lookup_none habsent
    refine ⟨_, rfl, keyed.append fresh, fun d hd h => absurd h (fresh d hd), ?_, ?_⟩
    · exact fun d hd => ⟨d, List.mem_append_left _ hd, rfl, rfl⟩
    · intro v device
      constructor
      · rintro ⟨d, hd, hworker, hpresent, rfl⟩
        rcases List.mem_append.mp hd with hd | hd
        · exact .inr ⟨fresh d hd, d, hd, hworker, hpresent, rfl⟩
        · rw [List.mem_singleton.mp hd] at hworker ⊢
          exact .inl ⟨hworker.symm, rfl⟩
      · rintro (⟨rfl, rfl⟩ | ⟨_, d, hd, hworker, hpresent, hdevice⟩)
        · exact ⟨_, List.mem_append_right _ (List.mem_singleton_self _), rfl, rfl, rfl⟩
        · exact ⟨d, List.mem_append_left _ hd, hworker, hpresent, hdevice⟩
  · next old hold =>
    simp only [Result.bind_ok, Result.throwIf_ok, Result.pure_ok, exists_and_left,
      exists_const, decide_eq_true_eq, Decidable.not_not, ne_eq] at h
    obtain ⟨howner, rfl⟩ := h
    obtain ⟨holdmem, hid⟩ := Table.lookup_mem hold
    have is_old : ∀ d ∈ db.gpuDevices, d.uuid = x.uuid → d = old :=
      fun d hd h => keyed.eq hd holdmem (h.trans hid.symm)
    refine ⟨_, rfl, keyed.update (by intro d _; rfl), ?_, ?_, ?_⟩
    · intro d hd h
      rw [is_old d hd h]
      exact howner
    · intro d hd
      refine ⟨_, Table.mem_update.mpr ⟨d, hd, rfl⟩, ?_⟩
      split
      · exact ⟨rfl, rfl⟩
      · exact ⟨rfl, rfl⟩
    · intro v device
      constructor
      · rintro ⟨d', hd', hworker, hpresent, rfl⟩
        obtain ⟨d, hd, rfl⟩ := Table.mem_update.mp hd'
        by_cases hsame : d.uuid = x.uuid
        · simp only [hsame, decide_true, if_true, GpuDeviceRow.observe_workerId] at hworker ⊢
          rw [is_old d hd hsame, howner] at hworker
          refine .inl ⟨hworker.symm, ?_⟩
          rw [GpuDeviceRow.device, GpuDeviceRow.observe_uuid, hsame]
          rfl
        · simp only [hsame, decide_false, Bool.false_eq_true, if_false] at hworker hpresent ⊢
          exact .inr ⟨hsame, d, hd, hworker, hpresent, rfl⟩
      · rintro (⟨rfl, rfl⟩ | ⟨hother, d, hd, hworker, hpresent, rfl⟩)
        · refine ⟨old.observe now device, ?_, howner, rfl, ?_⟩
          · exact Table.mem_update.mpr ⟨old, holdmem, if_pos (decide_eq_true hid)⟩
          · rw [GpuDeviceRow.device, GpuDeviceRow.observe_uuid, hid]
            rfl
        · have hkept : ¬ decide (d.uuid = x.uuid) := by
            simpa [GpuDeviceRow.device] using hother
          exact ⟨d, Table.mem_update_of_not _ hd hkept, hworker, hpresent, rfl⟩

theorem upsertDevices_shows {xs : List GpuDevice} (keyed : Table.Keyed (·.uuid) db.gpuDevices)
    (distinct : (xs.map (·.uuid)).Nodup) (h : upsertDevices now worker xs db = .ok db') :
    ∃ rows, db' = { db with gpuDevices := rows } ∧ Table.Keyed (·.uuid) rows ∧
      (∀ d ∈ db.gpuDevices, d.uuid ∈ xs.map (·.uuid) → d.workerId = worker) ∧
      ∀ v device, Shows rows v device ↔ v = worker ∧ device ∈ xs ∨
        device.uuid ∉ xs.map (·.uuid) ∧ Shows db.gpuDevices v device := by
  induction xs generalizing db with
  | nil =>
    simp only [upsertDevices, Except.ok.injEq] at h
    subst h
    exact ⟨_, rfl, keyed, by simp, by simp⟩
  | cons x xs ih =>
    obtain ⟨hfresh, hrest⟩ := List.nodup_cons.mp distinct
    obtain ⟨db₁, hupsert, htail⟩ := Result.bind_ok.mp h
    obtain ⟨rows₁, rfl, keyed₁, owned₁, kept₁, shows₁⟩ := upsertDevice_shows keyed hupsert
    obtain ⟨rows, rfl, keyed', owned, shows⟩ := ih keyed₁ hrest htail
    refine ⟨rows, rfl, keyed', ?_, ?_⟩
    · intro d hd huuid
      rcases List.mem_cons.mp huuid with huuid | huuid
      · exact owned₁ d hd huuid
      · obtain ⟨d', hd', hsame, hworker⟩ := kept₁ d hd
        rw [← hworker]
        exact owned d' hd' (hsame ▸ huuid)
    · intro v device
      rw [shows, shows₁, List.map_cons, List.mem_cons, List.mem_cons, not_or]
      constructor
      · rintro (⟨hv, hmem⟩ | ⟨hother, ⟨hv, rfl⟩ | ⟨hne, hshown⟩⟩)
        · exact .inl ⟨hv, .inr hmem⟩
        · exact .inl ⟨hv, .inl rfl⟩
        · exact .inr ⟨⟨hne, hother⟩, hshown⟩
      · rintro (⟨hv, rfl | hmem⟩ | ⟨⟨hne, hother⟩, hshown⟩)
        · exact .inr ⟨hfresh, .inl ⟨hv, rfl⟩⟩
        · exact .inl ⟨hv, hmem⟩
        · exact .inr ⟨hother, .inr ⟨hne, hshown⟩⟩

theorem checkDevices_distinct {devices : List GpuDevice} {unique : List String} {u : Unit}
    (h : checkDevices devices unique = .ok u) :
    (devices.map (·.uuid)).Nodup ∧ ∀ d ∈ devices, d.uuid ∉ unique := by
  induction devices generalizing unique with
  | nil => exact ⟨List.nodup_nil, by simp⟩
  | cons x xs ih =>
    rw [checkDevices] at h
    split at h
    · cases h
    · next hvalid =>
      simp only [Bool.or_eq_true, not_or, List.contains_iff_mem] at hvalid
      obtain ⟨hrest, hseen⟩ := ih h
      constructor
      · refine List.nodup_cons.mpr ⟨?_, hrest⟩
        rintro hmem
        obtain ⟨d, hd, huuid⟩ := List.mem_map.mp hmem
        exact hseen d hd (huuid ▸ List.mem_cons_self)
      · intro d hd
        rcases List.mem_cons.mp hd with rfl | hd
        · exact hvalid.2
        · exact fun hmem => hseen d hd (List.mem_cons_of_mem _ hmem)

end Devices

/-! ## Workers -/

/-- What a worker's row says about discovery. -/
structure Discovery where
  session : String
  capable : Bool
  ready : Bool
  sequence : Int
  deriving DecidableEq

def WorkerRow.discovery (w : WorkerRow) : Discovery :=
  ⟨w.session, w.gpuCapable, w.gpuReady, w.gpuSequence⟩

section Workers

variable {p : PostgresStore} {db db' : Db} {now : Int} {id session : String}

theorem worker_update {f : WorkerRow → WorkerRow} (keeps : ∀ w, (f w).id = w.id) (other : String) :
    (db.updateWorker id f).worker? other =
      (db.worker? other).map fun w => if w.id = id then f w else w := by
  have hlookup := Table.lookup_update (k := other) (p := fun w => w.id = id) (f := f)
    (fun w _ => keeps w) db.workers
  simpa [Db.updateWorker, Ledger.worker?] using hlookup

theorem worker_update_self {f : WorkerRow → WorkerRow} (keeps : ∀ w, (f w).id = w.id)
    {w : WorkerRow} (hw : db.worker? id = some w) :
    (db.updateWorker id f).worker? id = some (f w) := by
  rw [worker_update keeps, hw, Option.map_some, if_pos (Table.lookup_mem hw).2]

theorem worker_update_other {f : WorkerRow → WorkerRow} (keeps : ∀ w, (f w).id = w.id)
    {other : String} (hne : other ≠ id) :
    (db.updateWorker id f).worker? other = db.worker? other := by
  rw [worker_update keeps]
  cases hw : db.worker? other with
  | none => rfl
  | some w =>
    have hid : w.id ≠ id := fun h => hne ((Table.lookup_mem hw).2.symm.trans h)
    rw [Option.map_some, if_neg hid]

theorem discovery_update {f : WorkerRow → WorkerRow} (keeps : ∀ w, (f w).id = w.id)
    (same : ∀ w, (f w).discovery = w.discovery) (other : String) :
    ((db.updateWorker id f).worker? other).map WorkerRow.discovery =
      (db.worker? other).map WorkerRow.discovery := by
  rw [worker_update keeps]
  cases db.worker? other with
  | none => rfl
  | some w =>
    by_cases hid : w.id = id
    · simp [hid, same]
    · simp [hid]

theorem registerWorker_spec {capacity : Capacity} {gpu : GpuRegistration}
    (h : registerWorker now id session capacity gpu db = .ok db') : id ≠ "" ∧
    ((db'.worker? id).map WorkerRow.discovery = some ⟨session, gpu.capable, false, 0⟩) ∧
      (∀ other, other ≠ id → db'.worker? other = db.worker? other) ∧
      db'.gpuDevices = db.gpuDevices := by
  simp only [registerWorker, Result.bind_ok, Result.throwIf_ok] at h
  obtain ⟨_, hvalid, h⟩ := h
  have named : id ≠ "" := fun hid => hvalid (by simp [hid])
  refine ⟨named, ?_⟩
  split at h
  · next hnone =>
    cases h
    refine ⟨?_, ?_, rfl⟩
    · rw [Ledger.worker?] at hnone
      rw [Ledger.worker?, Table.lookup_append, hnone]
      simp [Table.lookup, WorkerRow.discovery]
    · intro other hne
      rw [Ledger.worker?, Table.lookup_append]
      simp [Table.lookup, Ne.symm hne, Ledger.worker?]
  · next w hw =>
    obtain ⟨_, _, h⟩ := Result.bind_ok.mp h
    cases h
    refine ⟨?_, fun other hne => worker_update_other (by intro w; rfl) hne, rfl⟩
    rw [worker_update_self (by intro w; rfl) hw]
    rfl

theorem workerHeartbeat_spec (h : workerHeartbeat now id session db = .ok db') (other : String) :
    (db'.worker? other).map WorkerRow.discovery = (db.worker? other).map WorkerRow.discovery ∧
      db'.gpuDevices = db.gpuDevices := by
  obtain ⟨_, _, h⟩ := Result.bind_ok.mp h
  cases h
  exact ⟨discovery_update (by intro w; rfl) (by intro w; rfl) other, rfl⟩

theorem drainWorker_spec {drained : Bool} (h : drainWorker id drained db = .ok db')
    (other : String) :
    (db'.worker? other).map WorkerRow.discovery = (db.worker? other).map WorkerRow.discovery ∧
      db'.gpuDevices = db.gpuDevices := by
  rw [drainWorker] at h
  split at h
  · cases h
  cases h
  exact ⟨discovery_update (by intro w; rfl) (by intro w; rfl) other, rfl⟩

/-- A report that returns was made in the current session of a capable worker. One with an old
sequence number changes nothing, one without readiness only the row of the worker. A ready one
replaces what the worker shows, and no other worker has recorded its devices. -/
theorem reportGpuInventory_spec {snapshot : GpuSnapshot}
    (keyed : Table.Keyed (·.uuid) db.gpuDevices)
    (h : reportGpuInventory now id session snapshot db = .ok db') :
    ∃ w, db.worker? id = some w ∧ w.session = session ∧ w.gpuCapable ∧
      (snapshot.sequence ≤ w.gpuSequence ∧ db' = db ∨
        w.gpuSequence < snapshot.sequence ∧ ∃ rows,
          db' = { db.updateWorker id (fun w => w.observe now snapshot) with gpuDevices := rows } ∧
          (snapshot.ready = false → rows = db.gpuDevices) ∧
          (snapshot.ready → (∀ d ∈ db.gpuDevices, d.uuid ∈ snapshot.devices.map (·.uuid) →
              d.workerId = id) ∧
            ∀ v device, Shows rows v device ↔ v = id ∧ device ∈ snapshot.devices ∨
              v ≠ id ∧ Shows db.gpuDevices v device)) := by
  simp only [reportGpuInventory, Result.bind_ok, Result.throwIf_ok, exists_and_left,
    exists_const, Bool.not_eq_true', Bool.not_eq_false] at h
  obtain ⟨_, u, hchecked, w, hworker, hcapable, h⟩ := h
  obtain ⟨hw, _, hsession⟩ := requireWorker_ok hworker
  refine ⟨w, hw, hsession, hcapable, ?_⟩
  split at h
  · next hold => exact .inl ⟨hold, (Result.pure_ok.mp h).symm⟩
  next hnew =>
  refine .inr ⟨by omega, ?_⟩
  split at h
  · next hready =>
    obtain ⟨db₁, hdevices, hreturn⟩ := Result.bind_ok.mp h
    obtain rfl := Result.pure_ok.mp hreturn
    have hsort := List.perm_insertionSort (fun d e : GpuDevice => d.uuid ≤ e.uuid) snapshot.devices
    have hmap := hsort.map (·.uuid)
    obtain ⟨rows, rfl, -, owned, shows⟩ := upsertDevices_shows
      (keyed.update (by intro d _; rfl)) (hmap.nodup_iff.mpr (checkDevices_distinct hchecked).1)
      hdevices
    have owner : ∀ d ∈ db.gpuDevices, d.uuid ∈ snapshot.devices.map (·.uuid) →
        d.workerId = id := by
      intro d hd huuid
      by_contra hother
      have hkept : ¬ decide (d.workerId = id) := by simpa using hother
      exact hother (owned d (Table.mem_update_of_not _ hd hkept) (hmap.mem_iff.mpr huuid))
    refine ⟨rows, rfl, by simp [hready], fun _ => ⟨owner, fun v device => ?_⟩⟩
    rw [shows, shows_hide, hsort.mem_iff]
    constructor
    · rintro (hmem | ⟨-, hshown⟩)
      · exact .inl hmem
      · exact .inr hshown
    · rintro (hmem | ⟨hother, d, hd, howner, hpresent, rfl⟩)
      · exact .inl hmem
      · refine .inr ⟨fun huuid => ?_, hother, d, hd, howner, hpresent, rfl⟩
        exact hother (howner.symm.trans (owner d hd (hmap.mem_iff.mp huuid)))
  · next hready =>
    obtain rfl := Result.pure_ok.mp h
    exact ⟨db.gpuDevices, rfl, fun _ => rfl, fun h => absurd h hready⟩

end Workers

end Runyard
