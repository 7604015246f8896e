import Runyard.Capacity.Inventory
import Runyard.Capacity.Placement

/-!
# The history of a worker's inventory

The store with the list of the registrations and reports that it accepted. In every state the
discovery columns of a worker say what its last registration and its last report said, and its
present devices are those of its last ready report.
-/

namespace Runyard

/-- A call about a worker that the store accepted. -/
inductive Accepted where
  | registered (session : String) (capable : Bool)
  | reported (snapshot : GpuSnapshot)
  deriving DecidableEq

namespace Accepted

/-- The session and the capability of the last registration. -/
def registration (history : List Accepted) : Option (String × Bool) :=
  history.foldl (fun last call => match call with
    | .registered session capable => some (session, capable)
    | .reported _ => last) none

/-- The reports accepted since the last registration, oldest first. -/
def reports (history : List Accepted) : List GpuSnapshot :=
  history.foldl (fun reports call => match call with
    | .registered _ _ => []
    | .reported snapshot => reports ++ [snapshot]) []

/-- The devices of the last ready report, in whatever session. -/
def lastReady (history : List Accepted) : List GpuDevice :=
  history.foldl (fun devices call => match call with
    | .registered _ _ => devices
    | .reported snapshot => if snapshot.ready then snapshot.devices else devices) []

/-- What the row of the worker has to say. -/
def discovery (history : List Accepted) : Option Discovery :=
  (registration history).map fun (session, capable) =>
    ⟨session, capable, ((reports history).getLast?.map (·.ready)).getD false,
      ((reports history).getLast?.map (·.sequence)).getD 0⟩

section Append

variable (history : List Accepted) (session : String) (capable : Bool) (snapshot : GpuSnapshot)

@[simp] theorem registration_registered :
    registration (history ++ [.registered session capable]) = some (session, capable) := by
  simp [registration]

@[simp] theorem registration_reported :
    registration (history ++ [.reported snapshot]) = registration history := by
  simp [registration]

@[simp] theorem reports_registered :
    reports (history ++ [.registered session capable]) = [] := by
  simp [reports]

@[simp] theorem reports_reported :
    reports (history ++ [.reported snapshot]) = reports history ++ [snapshot] := by
  simp [reports]

@[simp] theorem lastReady_registered :
    lastReady (history ++ [.registered session capable]) = lastReady history := by
  simp [lastReady]

@[simp] theorem lastReady_reported : lastReady (history ++ [.reported snapshot]) =
    if snapshot.ready then snapshot.devices else lastReady history := by
  simp [lastReady]

end Append

end Accepted

namespace InventoryLog

structure State where
  store : PostgresStore.State
  /-- The accepted calls with the workers that they are about, oldest first. -/
  log : List (String × Accepted) := []

/-- The calls about one worker. -/
def State.history (s : State) (id : String) : List Accepted :=
  (s.log.filter fun e => e.1 = id).map (·.2)

/-- What a call that returned adds to the log. A report with an old number is ignored. -/
def entry (db : Db) : Op → Option (String × Accepted)
  | .registerWorker id session _ gpu => some (id, .registered session gpu.capable)
  | .reportGpuInventory worker _ snapshot =>
    if (db.worker? worker).any fun w => w.gpuSequence < snapshot.sequence then
      some (worker, .reported snapshot)
    else none
  | _ => none

variable (p : PostgresStore)

def step (s : State) (e : PostgresStore.Event) : Option State :=
  (p.system.step s.store e).map fun store =>
    ⟨store, s.log ++ match p.apply e.now e.op s.store.db with
      | .ok _ => (entry s.store.db e.op).toList
      | .error _ => []⟩

def system : System State PostgresStore.Event where
  init := ⟨p.system.init, []⟩
  step := step p

variable {p}

theorem embeds : (system p).Embeds p.system (·.store) where
  init := rfl
  step s e s' _ h := by
    obtain ⟨store, hstore, rfl⟩ := Option.map_eq_some_iff.mp h
    exact .inr ⟨e, hstore⟩

/-- The tables of discovery are what the history of the worker says. -/
structure Recorded (db : Db) (id : String) (history : List Accepted) : Prop where
  worker : (db.worker? id).map WorkerRow.discovery = Accepted.discovery history
  increasing : (Accepted.reports history).Pairwise fun a b => a.sequence < b.sequence
  begun : history ≠ [] → id ≠ "" ∧ Accepted.registration history ≠ none
  able : ∀ session capable, Accepted.registration history = some (session, capable) →
    Accepted.reports history ≠ [] → capable
  devices : ∀ device, Shows db.gpuDevices id device ↔ device ∈ Accepted.lastReady history

namespace Recorded

variable {db db' : Db} {now : Int} {id : String} {history : List Accepted}

theorem keep (recorded : Recorded db id history)
    (worker : (db'.worker? id).map WorkerRow.discovery = (db.worker? id).map WorkerRow.discovery)
    (devices : ∀ device, Shows db'.gpuDevices id device ↔ Shows db.gpuDevices id device) :
    Recorded db' id history :=
  ⟨worker.trans recorded.worker, recorded.increasing, recorded.begun, recorded.able,
    fun device => (devices device).trans (recorded.devices device)⟩

theorem register (recorded : Recorded db id history) {session : String} {capable : Bool}
    (named : id ≠ "")
    (worker : (db'.worker? id).map WorkerRow.discovery = some ⟨session, capable, false, 0⟩)
    (devices : db'.gpuDevices = db.gpuDevices) :
    Recorded db' id (history ++ [.registered session capable]) := by
  constructor
  · rw [worker]
    simp [Accepted.discovery]
  · simp
  · simpa using named
  · simp
  · rw [devices, Accepted.lastReady_registered]
    exact recorded.devices

theorem report (recorded : Recorded db id history) {snapshot : GpuSnapshot} {w : WorkerRow}
    (known : db.worker? id = some w) (able : w.gpuCapable)
    (newer : w.gpuSequence < snapshot.sequence)
    (observed : db'.worker? id = some (w.observe now snapshot))
    (unready : snapshot.ready = false → db'.gpuDevices = db.gpuDevices)
    (ready : snapshot.ready → ∀ device, Shows db'.gpuDevices id device ↔
      device ∈ snapshot.devices) :
    Recorded db' id (history ++ [.reported snapshot]) := by
  have hworker := recorded.worker
  rw [known, Option.map_some, Accepted.discovery] at hworker
  obtain ⟨⟨session, capable⟩, hregistration, hdiscovery⟩ := Option.map_eq_some_iff.mp hworker.symm
  simp only [WorkerRow.discovery, Discovery.mk.injEq] at hdiscovery
  obtain ⟨hsession, hcapable, -, hsequence⟩ := hdiscovery
  constructor
  · rw [observed]
    simp [Accepted.discovery, hregistration, WorkerRow.discovery, hsession, hcapable]
  · rw [Accepted.reports_reported]
    refine List.pairwise_append.mpr ⟨recorded.increasing, List.pairwise_singleton _ _, ?_⟩
    intro old hold new hnew
    rw [List.mem_singleton.mp hnew]
    obtain ⟨before, last, hlast⟩ :=
      (List.eq_nil_or_concat' (Accepted.reports history)).resolve_left (List.ne_nil_of_mem hold)
    have increasing := recorded.increasing
    rw [hlast] at hold hsequence increasing
    simp only [List.getLast?_concat, Option.map_some, Option.getD_some] at hsequence
    rcases List.mem_append.mp hold with hold | hold
    · have := (List.pairwise_append.mp increasing).2.2 old hold last (List.mem_singleton_self _)
      omega
    · rw [List.mem_singleton.mp hold]
      omega
  · have started : history ≠ [] := by
      rintro rfl
      cases hregistration
    intro _
    rw [Accepted.registration_reported]
    exact recorded.begun started
  · intro session' capable' hlast _
    rw [Accepted.registration_reported, hregistration] at hlast
    cases hlast
    rw [hcapable]
    exact able
  · rw [Accepted.lastReady_reported]
    cases hready : snapshot.ready with
    | true => simpa using ready hready
    | false =>
      rw [unready hready]
      exact recorded.devices

end Recorded

theorem State.history_append (s : State) (store : PostgresStore.State)
    (entries : List (String × Accepted)) (id : String) :
    State.history ⟨store, s.log ++ entries⟩ id =
      s.history id ++ (entries.filter fun e => e.1 = id).map (·.2) := by
  simp [State.history]

theorem entry_none {op : Op} {db : Db} (other : op.writesWorkers = false) : entry db op = none := by
  cases op with
  | registerWorker | reportGpuInventory => cases other
  | _ => rfl

/-- A committed transaction keeps the history of every worker recorded. -/
theorem recorded_apply {now : Int} {op : Op} {db db' : Db} {history : List Accepted} {id : String}
    (keyed : Table.Keyed (·.uuid) db.gpuDevices) (h : p.apply now op db = .ok db')
    (recorded : Recorded db id history) : Recorded db' id
      (history ++ ((entry db op).toList.filter fun e => e.1 = id).map (·.2)) := by
  cases hop : op.writesWorkers with
  | false =>
    have same := apply_inventory hop h
    rw [entry_none hop, Option.toList_none, List.filter_nil, List.map_nil, List.append_nil]
    have workers : db'.workers = db.workers := congrArg Inventory.workers same
    have devices : db'.gpuDevices = db.gpuDevices := congrArg Inventory.devices same
    refine recorded.keep ?_ fun device => by rw [devices]
    simp only [Ledger.worker?, workers]
  | true => cases op with
    | registerWorker worker session capacity gpu =>
      obtain ⟨named, self, others, devices⟩ := registerWorker_spec h
      by_cases hid : worker = id
      · subst hid
        simpa [entry] using recorded.register named self devices
      · have kept := recorded.keep (congrArg _ (others id (Ne.symm hid)))
          (fun device => by rw [devices])
        simpa [entry, hid] using kept
    | workerHeartbeat worker session =>
      obtain ⟨same, devices⟩ := workerHeartbeat_spec h id
      have kept := recorded.keep same (fun device => by rw [devices])
      simpa [entry] using kept
    | drainWorker worker drained =>
      obtain ⟨same, devices⟩ := drainWorker_spec h id
      have kept := recorded.keep same (fun device => by rw [devices])
      simpa [entry] using kept
    | reportGpuInventory worker session snapshot =>
      obtain ⟨w, known, -, able, ⟨old, rfl⟩ | ⟨newer, rows, rfl, unready, ready⟩⟩ :=
        reportGpuInventory_spec keyed h
      · have stale : ¬ w.gpuSequence < snapshot.sequence := by omega
        simpa [entry, known, stale] using recorded
      · by_cases hid : worker = id
        · subst hid
          have reported : Recorded { db.updateWorker worker (fun w => w.observe now snapshot) with
              gpuDevices := rows } worker (history ++ [.reported snapshot]) := by
            refine recorded.report known able newer
              (worker_update_self (by intro w; rfl) known) unready fun hready device => ?_
            simpa using (ready hready).2 worker device
          simpa [entry, known, newer] using reported
        · have kept : Recorded { db.updateWorker worker (fun w => w.observe now snapshot) with
              gpuDevices := rows } id history := by
            refine recorded.keep (congrArg _ (worker_update_other (by intro w; rfl)
              (Ne.symm hid))) fun device => ?_
            cases hready : snapshot.ready with
            | false => rw [unready hready]
            | true => simpa [Ne.symm hid] using (ready hready).2 id device
          simpa [entry, known, newer, hid] using kept
    | _ => cases hop

theorem recorded_reachable {s : State} (hs : (system p).Reachable s) (id : String) :
    Recorded s.store.db id (s.history id) := by
  refine System.Leads.stable (P := fun s => Recorded s.store.db id (s.history id))
    System.reachable_init hs ?_ ?_
  · constructor
    · rfl
    · exact .nil
    · exact fun h => absurd rfl h
    · intro session capable hlast
      cases hlast
    · simp [Shows, system, PostgresStore.system, State.history, Accepted.lastReady]
  · intro s e s' hs recorded _ h
    obtain ⟨store, hstore, rfl⟩ := Option.map_eq_some_iff.mp h
    obtain ⟨_, rfl⟩ := p.step_eq hstore
    have keyed := (PostgresStore.reachable_wellFormed (embeds.reachable hs)).devices
    rw [State.history_append]
    cases happly : p.apply e.now e.op s.store.db with
    | error fault => simpa [PostgresStore.commit, happly] using recorded
    | ok db' => simpa [PostgresStore.commit, happly] using recorded_apply keyed happly recorded

/-- Every run of the store has a log. -/
theorem logged {s : PostgresStore.State} (hs : p.system.Reachable s) :
    ∃ t, (system p).Reachable t ∧ t.store = s := by
  refine System.Leads.stable (P := fun s => ∃ t, (system p).Reachable t ∧ t.store = s)
    System.reachable_init hs ⟨_, System.reachable_init, rfl⟩ ?_
  rintro s e s' _ ⟨t, ht, rfl⟩ _ h
  exact ⟨_, ht.step (e := e) (Option.map_eq_some_iff.mpr ⟨s', h, rfl⟩), rfl⟩

/-- Only a worker that has enabled GPU execution is ready. -/
theorem ready_capable {s : PostgresStore.State} (hs : p.system.Reachable s) {id : String}
    {w : WorkerRow} (known : s.db.worker? id = some w) (ready : w.gpuReady) : w.gpuCapable := by
  obtain ⟨t, ht, rfl⟩ := logged hs
  have recorded := recorded_reachable ht id
  have hworker := recorded.worker
  rw [known, Option.map_some, Accepted.discovery] at hworker
  obtain ⟨⟨session, capable⟩, hregistration, hdiscovery⟩ := Option.map_eq_some_iff.mp hworker.symm
  simp only [WorkerRow.discovery, Discovery.mk.injEq] at hdiscovery
  obtain ⟨-, hcapable, hready, -⟩ := hdiscovery
  rw [← hcapable]
  refine recorded.able session capable hregistration fun hnone => ?_
  rw [ready, hnone] at hready
  cases hready

/-- A recorded device stays with its worker. -/
theorem devices_later {s s' : PostgresStore.State} (hs : p.system.Reachable s)
    (later : p.system.Later s s') : ∀ d ∈ s.db.gpuDevices,
      ∃ d' ∈ s'.db.gpuDevices, d'.uuid = d.uuid ∧ d'.workerId = d.workerId := by
  refine later.relation hs (R := fun s s' => ∀ d ∈ s.db.gpuDevices,
    ∃ d' ∈ s'.db.gpuDevices, d'.uuid = d.uuid ∧ d'.workerId = d.workerId) ?_ ?_ ?_
  · exact fun _ d hd => ⟨d, hd, rfl, rfl⟩
  · intro a b c first second d hd
    obtain ⟨d', hd', huuid, hworker⟩ := first d hd
    obtain ⟨d'', hd'', huuid', hworker'⟩ := second d' hd'
    exact ⟨d'', hd'', huuid'.trans huuid, hworker'.trans hworker⟩
  · intro s e s' hs _ h
    obtain ⟨_, rfl⟩ := p.step_eq h
    have effect : Effect p e.now _ e.op _ :=
      PostgresStore.commit_effect (PostgresStore.reachable_wellFormed hs)
    exact effect.devices_kept

/-- The store refuses the report, or has seen a newer one. -/
def Refused (db : Db) (worker session : String) (snapshot : GpuSnapshot) : Prop :=
  ∀ w, db.worker? worker = some w → w.session ≠ session ∨ ¬ w.gpuCapable ∨
    snapshot.sequence ≤ w.gpuSequence ∨ snapshot.ready ∧ ∃ d ∈ db.gpuDevices,
      d.uuid ∈ snapshot.devices.map (·.uuid) ∧ d.workerId ≠ worker

theorem report_commit {db : Db} {worker session : String} {snapshot : GpuSnapshot} {now : Int}
    (keyed : Table.Keyed (·.uuid) db.gpuDevices) :
    (p.commit now (.reportGpuInventory worker session snapshot) db).attemptGpus =
        db.attemptGpus ∧
      (snapshot.ready = false →
        (p.commit now (.reportGpuInventory worker session snapshot) db).gpuDevices =
          db.gpuDevices) ∧
      (Refused db worker session snapshot →
        p.commit now (.reportGpuInventory worker session snapshot) db = db) := by
  rcases p.commit_cases now (.reportGpuInventory worker session snapshot) db with same | h
  · rw [same]
    exact ⟨rfl, fun _ => rfl, fun _ => rfl⟩
  · generalize p.commit now (.reportGpuInventory worker session snapshot) db = db' at h ⊢
    obtain ⟨w, known, current, capable, ⟨_, rfl⟩ | ⟨newer, rows, rfl, unready, ready⟩⟩ :=
      reportGpuInventory_spec keyed h
    · exact ⟨rfl, fun _ => rfl, fun _ => rfl⟩
    · refine ⟨rfl, unready, fun refused => ?_⟩
      rcases refused w known with stale | unable | old | ⟨hready, d, hd, huuid, foreign⟩
      · exact absurd current stale
      · exact absurd capable unable
      · omega
      · exact absurd ((ready hready).1 d hd huuid) foreign

end InventoryLog

open InventoryLog

/-- The inventory of every worker is that of its last accepted report. -/
theorem gpu_inventory_last_writer (p : PostgresStore) {s : InventoryLog.State}
    (hs : (InventoryLog.system p).Reachable s) :
    (∀ id, (Accepted.reports (s.history id)).Pairwise (fun a b => a.sequence < b.sequence) ∧
      (s.store.db.worker? id).map WorkerRow.discovery = Accepted.discovery (s.history id) ∧
      ∀ device, Shows s.store.db.gpuDevices id device ↔
        device ∈ Accepted.lastReady (s.history id)) ∧
    (∀ s', (InventoryLog.system p).Later s s' → ∀ d ∈ s.store.db.gpuDevices,
      ∃ d', Table.lookup (·.uuid) d.uuid s'.store.db.gpuDevices = some d' ∧
        d'.workerId = d.workerId) ∧
    (∀ now worker session snapshot,
      (p.commit now (.reportGpuInventory worker session snapshot) s.store.db).attemptGpus =
          s.store.db.attemptGpus ∧
        (snapshot.ready = false →
          (p.commit now (.reportGpuInventory worker session snapshot) s.store.db).gpuDevices =
            s.store.db.gpuDevices) ∧
        (Refused s.store.db worker session snapshot →
          p.commit now (.reportGpuInventory worker session snapshot) s.store.db =
            s.store.db)) := by
  have keyed := (PostgresStore.reachable_wellFormed (embeds.reachable hs)).devices
  refine ⟨fun id => ?_, fun s' later d hd => ?_, fun _ _ _ _ => report_commit keyed⟩
  · obtain ⟨worker, increasing, -, -, devices⟩ := recorded_reachable hs id
    exact ⟨increasing, worker, devices⟩
  · have reachable' := embeds.reachable (hs.later later)
    obtain ⟨d', hd', huuid, hworker⟩ :=
      devices_later (embeds.reachable hs) (embeds.later hs later) d hd
    have found := (PostgresStore.reachable_wellFormed reachable').devices.lookup hd'
    rw [huuid] at found
    exact ⟨d', found, hworker⟩

namespace Sample

def gpu : GpuDevice := ⟨"GPU-0", "gpu", 1024, true, ""⟩

def registers (now : Int) (worker : String) : PostgresStore.Event :=
  ⟨now, .registerWorker worker "session" ⟨4000, 4096⟩ ⟨"engine", true⟩⟩

def discovers (now : Int) (worker : String) (sequence : Int) (ready : Bool) : PostgresStore.Event :=
  ⟨now, .reportGpuInventory worker "session" ⟨sequence, ready, [gpu]⟩⟩

def discovery (events : List PostgresStore.Event) : Option InventoryLog.State :=
  (InventoryLog.system store).replay (fun _ _ => true) (InventoryLog.system store).init events

/-- The first worker has a device, the second one is registered. -/
def shared : List PostgresStore.Event :=
  [registers 1 "first", discovers 2 "first" 2 true, registers 3 "second"]

end Sample

theorem gpu_inventory_last_writer_shared : ∃ s, (InventoryLog.system Sample.store).Reachable s ∧
    s.history "first" = [.registered "session" true, .reported ⟨2, true, [Sample.gpu]⟩] ∧
    (s.store.db.worker? "first").map WorkerRow.discovery = some ⟨"session", true, true, 2⟩ ∧
    Shows s.store.db.gpuDevices "first" Sample.gpu := by
  have recorded : (Sample.discovery Sample.shared).map (fun s => s.history "first") =
      some [.registered "session" true, .reported ⟨2, true, [Sample.gpu]⟩] := by decide +kernel
  obtain ⟨s, hs, history⟩ := Option.map_eq_some_iff.mp recorded
  have reachable := System.replay_reachable hs
  obtain ⟨-, worker, devices⟩ := (gpu_inventory_last_writer Sample.store reachable).1 "first"
  refine ⟨s, reachable, history, ?_, (devices Sample.gpu).mpr ?_⟩
  · rw [worker, history]
    decide
  · rw [history]
    decide

/-- A report without readiness is accepted whatever devices it names, and a registration that
repeats the session restarts the numbers. -/
theorem gpu_inventory_foreign :
    (∃ s, (InventoryLog.system Sample.store).Reachable s ∧
      (∃ d ∈ s.store.db.gpuDevices, d.uuid = Sample.gpu.uuid ∧ d.workerId ≠ "second") ∧
      Sample.store.commit 4 (.reportGpuInventory "second" "session" ⟨1, false, [Sample.gpu]⟩)
        s.store.db ≠ s.store.db) ∧
    ∃ s, (InventoryLog.system Sample.store).Reachable s ∧
      s.history "first" = [.registered "session" true, .reported ⟨2, true, [Sample.gpu]⟩,
        .registered "session" true, .reported ⟨1, true, [Sample.gpu]⟩] := by
  constructor
  · have foreign : ∃ s, Sample.discovery Sample.shared = some s ∧
        (∃ d ∈ s.store.db.gpuDevices, d.uuid = Sample.gpu.uuid ∧ d.workerId ≠ "second") ∧
        Sample.store.commit 4 (.reportGpuInventory "second" "session" ⟨1, false, [Sample.gpu]⟩)
          s.store.db ≠ s.store.db := by
      refine ⟨_, rfl, ?_, ?_⟩
      · decide +kernel
      · decide +kernel
    obtain ⟨s, hs, facts⟩ := foreign
    exact ⟨s, System.replay_reachable hs, facts⟩
  · have repeated : (Sample.discovery [Sample.registers 1 "first",
        Sample.discovers 2 "first" 2 true, Sample.registers 3 "first",
        Sample.discovers 4 "first" 1 true]).map (fun s => s.history "first") =
        some [.registered "session" true, .reported ⟨2, true, [Sample.gpu]⟩,
          .registered "session" true, .reported ⟨1, true, [Sample.gpu]⟩] := by decide +kernel
    obtain ⟨s, hs, history⟩ := Option.map_eq_some_iff.mp repeated
    exact ⟨s, System.replay_reachable hs, history⟩

end Runyard
