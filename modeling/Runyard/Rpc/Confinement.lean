import Runyard.Rpc.Services
import Runyard.Artifacts.Quotas
import Runyard.Artifacts.Integrity
import Runyard.Ledger.Records

/-!
# What a credential is good for

A call with the capability of an attempt acts on this attempt and its run, and on nothing else. The
HMAC of the signing key is taken to be injective.
-/

namespace Runyard

/-- The attempt and the generation that the call of a runner carries. -/
def Op.identity? : Op → Option (String × Int)
  | .start id generation _ _ => some (id, generation)
  | op => op.owner?.map fun owner => (owner.1, owner.2.1)

/-- Only the attempt `id`, its run and its outputs may differ. -/
structure Confined (id run : String) (db db' : Db) : Prop where
  runs : ∀ other, other ≠ run → db'.run? other = db.run? other
  attempts : ∀ other, other ≠ id → db'.attempt? other = db.attempt? other
  events : ∀ other, other ≠ run → db'.eventsOf other = db.eventsOf other
  telemetry : ∀ other, other ≠ id → db'.recordsOf other = db.recordsOf other
  artifacts : ∀ other, other ≠ id → db'.artifactsOf other = db.artifactsOf other
  births : db'.births = db.births
  workers : db'.workers = db.workers
  gpuDevices : db'.gpuDevices = db.gpuDevices
  attemptGpus : db'.attemptGpus = db.attemptGpus
  submissions : db'.submissions = db.submissions
  sweeps : db'.sweeps = db.sweeps

section Owners

variable {p : PostgresStore} {db db' : Db} {now : Int} {op : Op} {id : String} {generation : Int}

theorem Op.requests_of_identity (h : op.identity? = some (id, generation)) :
    op.requests = false := by
  cases op <;> simp_all [Op.identity?, Op.requests, Op.owner?]

/-- No call of a runner touches workers or their devices. -/
theorem owner_workers (hop : op.identity? = some (id, generation))
    (h : p.apply now op db = .ok db') :
    db'.workers = db.workers ∧ db'.gpuDevices = db.gpuDevices := by
  have frame : Db.Frame fun db => (db.workers, db.gpuDevices) :=
    ⟨fun _ _ _ => rfl, fun _ _ => rfl, fun _ _ => rfl, fun _ _ => rfl⟩
  have inside : op.writesAside = false → op.writesWorkers = false →
      db'.workers = db.workers ∧ db'.gpuDevices = db.gpuDevices :=
    fun aside worker => Prod.mk.inj (frame.apply aside worker h)
  cases op with
  | start | heartbeat | beginFinalization | verifyOwner | finish => exact inside rfl rfl
  | report id generation caller records =>
    obtain ⟨⟨db₁, sequence⟩, hreport, rfl⟩ := Result.map_ok.mp h
    simp only [report, Result.bind_ok] at hreport
    obtain ⟨_, _, _, _, _, _, ⟨db₂, next⟩, hinsert, hreturn⟩ := hreport
    obtain ⟨rfl, _⟩ := Prod.mk.inj (Result.pure_ok.mp hreturn)
    have same : db₂.toLedger = db.toLedger := insertRecords_ledger hinsert
    change db₂.workers = db.workers ∧ db₂.gpuDevices = db.gpuDevices
    exact ⟨congrArg Ledger.workers same, congrArg Ledger.gpuDevices same⟩
  | publishArtifact value generation caller =>
    obtain ⟨⟨db₁, row⟩, hpublish, rfl⟩ := Result.map_ok.mp h
    have same := publishArtifact_ledger hpublish
    exact ⟨congrArg Ledger.workers same, congrArg Ledger.gpuDevices same⟩
  | submit | submitSweep | rerun | registerWorker | workerHeartbeat | drainWorker
    | reportGpuInventory | assign | runtimeReport | admitKubernetes | kubernetesStopped
    | kubernetesRuntime | cancel | recoverRequeue | recoverAttempt => cases hop

theorem Move.identity {r r' : RunRow} {a a' : AttemptRow} {events : List EventRow}
    (move : Move p.timing now r a op r' a' events) (hop : op.identity? = some (id, generation)) :
    a.id = id ∧ r.generation = generation := by
  cases move with
  | claimed | renewed | acknowledged | finalizing | completed =>
    cases hop
    exact ⟨rfl, rfl⟩
  | failed _ cause =>
    cases cause with
    | reported =>
      cases hop
      exact ⟨rfl, rfl⟩
    | launchTimeout | timeout | finalizationTimeout | leaseExpired | stoppedLate | stopped =>
      cases hop
  | launched | jobLaunched => cases hop

/-- A call of a runner rewrites its attempt and the run of it, or nothing of the ledger. -/
theorem owner_moves (wf : db.toLedger.WellFormed) (hop : op.identity? = some (id, generation))
    (h : p.apply now op db = .ok db') :
    db'.toLedger = db.toLedger ∨ ∃ r r' a a' events, db.attempt? a.id = some a ∧
      db.run? a.runId = some r ∧ Move p.timing now r a op r' a' events ∧
      db'.toLedger = { db.toLedger with toJournal := db.put r' a' events } := by
  have effect := apply_effect wf h
  obtain ⟨births, -, -⟩ := apply_requests (Op.requests_of_identity hop) h
  obtain ⟨workers, devices⟩ := owner_workers hop h
  have births' : db'.toLedger.runs.map RunRow.birth = db.toLedger.runs.map RunRow.birth := births
  have workers' : db'.toLedger.workers = db.toLedger.workers := workers
  have devices' : db'.toLedger.gpuDevices = db.toLedger.gpuDevices := devices
  clear births workers devices
  generalize db'.toLedger = l' at *
  cases effect with
  | same => exact .inl rfl
  | @submitted _ rows detail =>
    have none : rows = [] := by
      have lengths := congrArg List.length births'
      simp only [List.length_map, List.length_append] at lengths
      exact List.length_eq_zero_iff.mp (by omega)
    subst none
    simp
  | moved attempt run move => exact .inr ⟨_, _, _, _, _, attempt, run, move, rfl⟩
  | marked =>
    dsimp only at workers'
    exact .inl (by rw [workers'])
  | discovered =>
    dsimp only at workers' devices'
    exact .inl (by rw [workers', devices'])
  | assigned | admitted | stopped | removed | cancelled | requeued | registered | reregistered =>
    cases hop

theorem lookup_replace_other {α : Type} {key : α → String} {row : α} {rows : List α} {k : String}
    (other : k ≠ key row) :
    Table.lookup key k (Table.replace key row rows) = Table.lookup key k rows := by
  have keeps : ∀ r, decide (key r = key row) → key row = key r :=
    fun r hr => (of_decide_eq_true hr).symm
  rw [Table.replace, Table.lookup_update keeps]
  cases found : Table.lookup key k rows with
  | none => rfl
  | some r =>
    have apart : key r ≠ key row := (Table.lookup_mem found).2 ▸ other
    simp [apart]

/-- What a call of a runner rewrites of the ledger is confined to its attempt. -/
theorem put_confined {r r' : RunRow} {a a' : AttemptRow} {events : List EventRow}
    (run : db.run? a.runId = some r) (move : Move p.timing now r a op r' a' events) :
    (∀ other, other ≠ a.runId → (db.put r' a' events).run? other = db.run? other) ∧
      (∀ other, other ≠ a.id → (db.put r' a' events).attempt? other = db.attempt? other) ∧
      ∀ other, other ≠ a.runId → (db.put r' a' events).eventsOf other = db.eventsOf other := by
  have named : r.id = a.runId := (Table.lookup_mem run).2
  refine ⟨?_, ?_, ?_⟩
  · intro other apart
    refine lookup_replace_other ?_
    rw [move.run_identity.id, named]
    exact apart
  · intro other apart
    refine lookup_replace_other ?_
    rw [move.attempt_identity.id]
    exact apart
  · intro other apart
    have none : events.filter (fun e => e.runId = other) = [] := by
      refine List.filter_eq_nil_iff.mpr fun e he => ?_
      rw [move.events_run e he, named, decide_eq_true_eq]
      exact apart.symm
    rw [Journal.eventsOf, Journal.put, List.filter_append, none, List.append_nil]
    rfl

theorem publish_confined {value : Artifact} {caller : String}
    (h : p.apply now (.publishArtifact value generation caller) db = .ok db') {other : String}
    (apart : other ≠ value.attemptId) : db'.artifactsOf other = db.artifactsOf other := by
  obtain ⟨⟨db₁, row⟩, hpublish, rfl⟩ := Result.map_ok.mp h
  rcases publishArtifact_cases hpublish with ⟨rfl, _⟩ | ⟨hinsert, _⟩
  · rfl
  · have rows : db₁.artifacts = db.artifacts ++ [value] :=
      congrArg Aside.artifacts (insertArtifact_aside hinsert)
    rw [Db.artifactsOf, rows, List.filter_append]
    simp [Db.artifactsOf, apart.symm]

/-- A call that changes something found the attempt that it names alive, with its generation. -/
theorem owner_fence {s : PostgresStore.State} (hs : p.system.Reachable s)
    (hop : op.identity? = some (id, generation)) (h : p.apply now op s.db = .ok db')
    (changed : db' ≠ s.db) :
    ∃ a, s.db.attempt? id = some a ∧ a.generation = generation ∧ ¬ a.Ended now := by
  cases howner : op.owner? with
  | some owner =>
    obtain ⟨id', generation', caller⟩ := owner
    have same : id' = id ∧ generation' = generation := by
      cases op <;> simp_all [Op.identity?, Op.owner?]
    obtain ⟨rfl, rfl⟩ := same
    rcases owner_call howner h with ⟨x, hx⟩ | ⟨_, hsame⟩
    · obtain ⟨⟨a, r, hattempt, _, _, _, hgeneration, _⟩, _, hattempt', alive⟩ :=
        owned_unexpired hs hx
      rw [hattempt] at hattempt'
      cases hattempt'
      exact ⟨x.attempt, hattempt, hgeneration, alive⟩
    · exact absurd hsame changed
  | none =>
    cases op with
    | start id' generation' caller nodeName =>
      cases hop
      obtain ⟨⟨db₁, x⟩, hstart, rfl⟩ := Result.map_ok.mp h
      have wf := (PostgresStore.reachable_wellFormed hs).toWellFormed
      obtain ⟨y, locked, active, hgeneration, _⟩ := start_ok wf hstart
      obtain ⟨hr, ha⟩ := locked.history
      have same := (coupled_reachable hs y.run hr).generation_of_active
        (Journal.history_proper wf y.run) ha active
      obtain ⟨a, hattempt, _, alive, _⟩ := start_not_ended hs hstart
      have found := locked.attempt
      rw [locked.same, hattempt] at found
      cases found
      exact ⟨y.attempt, hattempt, same.trans hgeneration, alive⟩
    | heartbeat | report | beginFinalization | verifyOwner | publishArtifact | finish =>
      cases howner
    | submit | submitSweep | rerun | registerWorker | workerHeartbeat | drainWorker
      | reportGpuInventory | assign | runtimeReport | admitKubernetes | kubernetesStopped
      | kubernetesRuntime | cancel | recoverRequeue | recoverAttempt => cases hop

/-- Nothing is changed besides the attempt, its run and its outputs. -/
theorem owner_confined {s : PostgresStore.State} (hs : p.system.Reachable s)
    (hop : op.identity? = some (id, generation)) (h : p.apply now op s.db = .ok db')
    {a : AttemptRow} (ha : s.db.attempt? id = some a) : Confined id a.runId s.db db' := by
  have wf := PostgresStore.reachable_wellFormed hs
  obtain ⟨births, submissions, sweeps⟩ := apply_requests (Op.requests_of_identity hop) h
  obtain ⟨workers, devices⟩ := owner_workers hop h
  have committed : p.commit now op s.db = db' := by rw [PostgresStore.commit, h]
  have telemetry : ∀ other, other ≠ id → db'.recordsOf other = s.db.recordsOf other := by
    intro other apart
    rw [← committed]
    refine commit_recordsOf fun reports => apart ?_
    cases op <;> simp_all [Op.identity?, Op.owner?, Op.reports?]
  have artifacts : ∀ other, other ≠ id → db'.artifactsOf other = s.db.artifactsOf other := by
    intro other apart
    cases publishes : op.publishes with
    | false => rw [Db.artifactsOf, apply_artifacts publishes h, Db.artifactsOf]
    | true =>
      cases op with
      | publishArtifact value generation' caller =>
        cases hop
        exact publish_confined h apart
      | _ => cases publishes
  rcases owner_moves wf hop h with same | ⟨r, r', b, a', events, hb, hr, move, moved⟩
  · exact ⟨fun _ _ => congrArg (Journal.run? ·.toJournal _) same,
      fun _ _ => congrArg (Journal.attempt? ·.toJournal _) same,
      fun _ _ => congrArg (Journal.eventsOf ·.toJournal _) same, telemetry, artifacts, births,
      workers, devices, congrArg Ledger.attemptGpus same, submissions, sweeps⟩
  · obtain ⟨rfl, -⟩ := move.identity hop
    rw [hb] at ha
    cases ha
    obtain ⟨runs, attempts, history⟩ := put_confined hr move
    have gpus : db'.toLedger.attemptGpus = s.db.attemptGpus := by rw [moved]
    have journal : db'.toJournal = s.db.put r' a' events := congrArg Ledger.toJournal moved
    exact ⟨fun other apart => journal ▸ runs other apart,
      fun other apart => journal ▸ attempts other apart,
      fun other apart => journal ▸ history other apart, telemetry, artifacts, births, workers,
      devices, gpus, submissions, sweeps⟩

end Owners

/-! ## Capabilities -/

theorem append_separated {α : Type} {separator : α} {xs xs' ys ys' : List α}
    (h : xs ++ separator :: ys = xs' ++ separator :: ys') (absent : separator ∉ ys)
    (absent' : separator ∉ ys') : xs = xs' ∧ ys = ys' := by
  rcases List.append_eq_append_iff.mp h with ⟨more, rfl, rest⟩ | ⟨more, rfl, rest⟩
  · cases more with
    | nil => exact ⟨(List.append_nil _).symm, (List.cons.inj rest).2⟩
    | cons first more =>
      obtain ⟨-, rfl⟩ := List.cons.inj rest
      exact absurd (List.mem_append_right _ List.mem_cons_self) absent
  · cases more with
    | nil => exact ⟨List.append_nil _, (List.cons.inj rest).2.symm⟩
    | cons first more =>
      obtain ⟨-, rfl⟩ := List.cons.inj rest
      exact absurd (List.mem_append_right _ List.mem_cons_self) absent'

section Digits

theorem not_in_digits {ch : Char} (other : ¬ ch.isDigit) (n : Nat) : ch ∉ n.repr.toList := by
  intro h
  rw [Nat.toList_repr] at h
  exact other (Nat.isDigit_of_mem_toDigits (by decide) (by decide) h)

theorem digits_inj {m n : Nat} (h : m.repr.toList = n.repr.toList) : m = n := by
  rw [Nat.toList_repr, Nat.toList_repr] at h
  have values := congrArg (Nat.ofDigitChars 10 · 0) h
  rwa [Nat.ofDigitChars_ten_toDigits, Nat.ofDigitChars_ten_toDigits] at values

theorem negative_digits (n : Nat) :
    (toString (Int.negSucc n)).toList = '-' :: (n + 1).repr.toList := by
  change ("-" ++ (n + 1).repr).toList = _
  rw [String.toList_append]
  rfl

theorem colon_not_in_generation (generation : Int) : ':' ∉ (toString generation).toList := by
  cases generation with
  | ofNat n => exact not_in_digits (by decide) n
  | negSucc n =>
    rw [negative_digits, List.mem_cons, not_or]
    exact ⟨by decide, not_in_digits (by decide) (n + 1)⟩

theorem generation_inj {g g' : Int} (h : (toString g).toList = (toString g').toList) : g = g' := by
  have apart (m n : Nat) : m.repr.toList ≠ '-' :: (n + 1).repr.toList := by
    intro same
    refine @not_in_digits '-' (by decide) m ?_
    rw [same]
    exact List.mem_cons_self
  cases g with
  | ofNat m =>
    cases g' with
    | ofNat n => exact congrArg Int.ofNat (digits_inj h)
    | negSucc n =>
      rw [negative_digits] at h
      exact absurd h (apart m n)
  | negSucc m =>
    rw [negative_digits] at h
    cases g' with
    | ofNat n => exact absurd h.symm (apart n m)
    | negSucc n =>
      rw [negative_digits] at h
      exact congrArg Int.negSucc (Nat.succ.inj (digits_inj (List.cons.inj h).2))

end Digits

/-- The text names the attempt and the generation, whatever characters the attempt has. -/
theorem capabilityText_inj {id id' : String} {generation generation' : Int}
    (h : capabilityText id generation = capabilityText id' generation') :
    id = id' ∧ generation = generation' := by
  have texts := congrArg String.toList h
  simp only [capabilityText, String.toList_append, List.append_assoc] at texts
  have tails := List.append_cancel_left texts
  obtain ⟨ids, generations⟩ := append_separated tails (colon_not_in_generation generation)
    (colon_not_in_generation generation')
  exact ⟨String.toList_injective ids, generation_inj generations⟩

/-! ## The handlers -/

/-- The transaction of a handler of `AttemptRpc`. -/
def AttemptRequest.op (owner : Owner) : AttemptRequest → Op
  | .start => .start owner.attemptId owner.generation owner.instanceId owner.nodeName
  | .heartbeat => .heartbeat owner.attemptId owner.generation owner.instanceId
  | .report records => .report owner.attemptId owner.generation owner.instanceId records
  | .beginFinalization => .beginFinalization owner.attemptId owner.generation owner.instanceId
  | .complete exitCode reason finalSequence =>
    .finish owner.attemptId owner.generation owner.instanceId exitCode reason finalSequence

theorem AttemptRequest.op_identity (request : AttemptRequest) (owner : Owner) :
    (request.op owner).identity? = some (owner.attemptId, owner.generation) := by
  cases request <;> rfl

namespace RpcServer

section Handlers

variable {c : RpcServer} {now : Int} {context : ServerContext} {db db' : Db}

theorem authenticate_ok {token : String} (h : authenticate context token = .ok ()) :
    token ≠ "" ∧ context.authorization = some ("Bearer " ++ token) := by
  simp only [authenticate, Result.bind_ok, Result.throwIf_ok, exists_const] at h
  simpa using h.1

theorem serveAttempt_ok {owner : Owner} {request : AttemptRequest} {reply : AttemptReply}
    (h : c.serveAttempt now owner request db = .ok (db', reply)) :
    c.store.apply now (request.op owner) db = .ok db' := by
  cases request with
  | start =>
    obtain ⟨⟨db₁, a⟩, hstart, hreturn⟩ := Result.bind_ok.mp h
    cases hreturn
    exact Result.map_ok.mpr ⟨_, hstart, rfl⟩
  | report records =>
    obtain ⟨⟨db₁, sequence⟩, hreport, hreturn⟩ := Result.bind_ok.mp h
    cases hreturn
    exact Result.map_ok.mpr ⟨_, hreport, rfl⟩
  | heartbeat | beginFinalization | complete =>
    obtain ⟨db₁, happly, hreturn⟩ := Result.bind_ok.mp h
    cases hreturn
    exact happly

theorem serveAgent_ok {worker : WorkerIdentity} {request : AgentRequest} {reply : AgentReply}
    (h : c.serveAgent now worker request db = .ok (db', reply)) :
    db' = db ∨ ∃ op, c.store.apply now op db = .ok db' := by
  cases request with
  | reconcile attempts =>
    obtain ⟨_, _, hreturn⟩ := Result.bind_ok.mp h
    cases hreturn
    exact .inl rfl
  | register capacity gpu =>
    obtain ⟨db₁, happly, hreturn⟩ := Result.bind_ok.mp h
    cases hreturn
    exact .inr ⟨.registerWorker worker.id worker.session capacity gpu, happly⟩
  | reportGpuInventory snapshot =>
    obtain ⟨_, _, hrest⟩ := Result.bind_ok.mp h
    obtain ⟨db₁, happly, hreturn⟩ := Result.bind_ok.mp hrest
    cases hreturn
    exact .inr ⟨.reportGpuInventory worker.id worker.session snapshot, happly⟩
  | heartbeat =>
    obtain ⟨db₁, happly, hreturn⟩ := Result.bind_ok.mp h
    cases hreturn
    exact .inr ⟨.workerHeartbeat worker.id worker.session, happly⟩
  | poll attempt locked =>
    obtain ⟨_, _, hrest⟩ := Result.bind_ok.mp h
    obtain ⟨⟨db₁, x⟩, hassign, hreturn⟩ := Result.bind_ok.mp hrest
    cases hreturn
    exact .inr ⟨.assign attempt locked worker.id worker.session,
      Result.map_ok.mpr ⟨_, hassign, rfl⟩⟩
  | reportRuntime attempt runtime stopped =>
    obtain ⟨db₁, happly, hreturn⟩ := Result.bind_ok.mp h
    cases hreturn
    exact .inr ⟨.runtimeReport worker.id worker.session attempt runtime stopped, happly⟩

/-- An attempt's RPC leaves the database alone, or it carried the capability of its owner. -/
theorem attemptRpc_cases (owner : Owner) (request : AttemptRequest) :
    (c.attemptRpc now context owner request db).1 = db ∨
    context.authorization =
        some ("Bearer " ++ c.capability owner.attemptId owner.generation) ∧
      c.store.apply now (request.op owner) db =
        .ok (c.attemptRpc now context owner request db).1 := by
  rw [attemptRpc]
  cases h : (do
      c.authorizeAttempt context owner
      c.serveAttempt now owner request db : Result (Db × AttemptReply)) with
  | error e => exact .inl rfl
  | ok result =>
    obtain ⟨⟨⟩, hauthorize, hserve⟩ := Result.bind_ok.mp h
    exact .inr ⟨(authenticate_ok hauthorize).2, serveAttempt_ok hserve⟩

theorem attemptRpc_ok {owner : Owner} {request : AttemptRequest} {reply : AttemptReply}
    (h : (c.attemptRpc now context owner request db).2 = .ok reply) :
    c.store.apply now (request.op owner) db =
      .ok (c.attemptRpc now context owner request db).1 := by
  rw [attemptRpc] at h ⊢
  cases hwork : (do
      c.authorizeAttempt context owner
      c.serveAttempt now owner request db : Result (Db × AttemptReply)) with
  | error e =>
    rw [hwork] at h
    cases h
  | ok result =>
    obtain ⟨⟨⟩, _, hserve⟩ := Result.bind_ok.mp hwork
    exact serveAttempt_ok hserve

theorem agentRpc_cases (worker : WorkerIdentity) (request : AgentRequest) :
    (c.agentRpc now context worker request db).1 = db ∨
    context.authorization = some ("Bearer " ++ c.workerToken) ∧
      ∃ op, c.store.apply now op db = .ok (c.agentRpc now context worker request db).1 := by
  rw [agentRpc]
  cases h : (do
      c.authorizeAgent context
      c.serveAgent now worker request db : Result (Db × AgentReply)) with
  | error e => exact .inl rfl
  | ok result =>
    obtain ⟨⟨⟩, hauthorize, hserve⟩ := Result.bind_ok.mp h
    obtain ⟨⟨⟩, hauthenticate, _⟩ := Result.bind_ok.mp hauthorize
    rcases serveAgent_ok hserve with same | happly
    · exact .inl same
    · exact .inr ⟨(authenticate_ok hauthenticate).2, happly⟩

theorem beginUpload_ok {owner : Owner} {relative : String}
    (h : c.beginUpload now context owner relative db = .ok db') :
    db' = db ∧ context.authorization =
      some ("Bearer " ++ c.capability owner.attemptId owner.generation) := by
  obtain ⟨⟨⟩, hauthorize, hrest⟩ := Result.bind_ok.mp h
  obtain ⟨_, _, hverify⟩ := Result.bind_ok.mp hrest
  obtain ⟨_, _, hreturn⟩ := Result.bind_ok.mp hverify
  exact ⟨(Result.pure_ok.mp hreturn).symm, (authenticate_ok hauthorize).2⟩

end Handlers

/-! ## Calls of the artifact service -/

/-- The call of `publish` that the step belongs to. -/
def publishNumber : ArtifactService.Act → Option Nat
  | .verify _ number | .put number | .putFails number _ | .record _ number | .interrupt number =>
    some number
  | _ => none

/-- What an inner step of the artifact service can do to the store, the blobs and the calls of
`publish`. -/
inductive ServiceMoves (c : ArtifactService) (s : ArtifactService.State)
    (act : ArtifactService.Act) (s' : ArtifactService.State) : Prop where
  | quiet (publishes : s'.publishes = s.publishes) (store : s'.store = s.store)
      (blobs : s'.blobs = s.blobs)
  | moved {number : Nat} {call : Publish} {stage : PublishStage}
      (named : publishNumber act = some number) (here : s.publishes[number]? = some call)
      (publishes : s'.publishes = (s.advance number stage).publishes)
      (store : s'.store = s.store)
      (blobs : s'.blobs = s.blobs ∨
        s'.blobs = Function.update s.blobs (c.artifact call).storageKey (some call.file))
  | transacted {number : Nat} {call : Publish} {stage : PublishStage} {now : Int} {op : Op}
      (named : publishNumber act = some number) (here : s.publishes[number]? = some call)
      (publishes : s'.publishes = (s.advance number stage).publishes)
      (clock : s.store.clock ≤ now) (identity : op.identity? = some (call.attempt, call.generation))
      (store : s'.store = ⟨c.store.commit now op s.store.db, now⟩) (blobs : s'.blobs = s.blobs)

section Service

open ArtifactService

variable {c : ArtifactService} {s s' : ArtifactService.State} {act : ArtifactService.Act}

theorem note_calls (number : Nat) (row : Artifact) (before : List Artifact) :
    (s.note number row before).publishes = s.publishes ∧
      (s.note number row before).blobs = s.blobs := by
  unfold ArtifactService.State.note
  split
  · exact ⟨rfl, rfl⟩
  · exact ⟨rfl, rfl⟩

theorem service_moves (hinner : inner act) (h : c.step s act = some s') :
    ServiceMoves c s act s' := by
  cases act with
  | other | publish => cases hinner
  | verify now number =>
    obtain ⟨call, hcall, h⟩ := Option.bind_eq_some_iff.mp h
    split at h
    · cases h
    next clock =>
      cases h
      exact .transacted rfl (publishAt_some hcall).1 rfl (not_lt.mp clock) rfl rfl rfl
  | put number =>
    obtain ⟨call, hcall, h⟩ := Option.bind_eq_some_iff.mp h
    cases h
    exact .moved rfl (publishAt_some hcall).1 rfl rfl (.inr rfl)
  | putFails number stored =>
    obtain ⟨call, hcall, h⟩ := Option.bind_eq_some_iff.mp h
    have here := (publishAt_some hcall).1
    cases h
    cases stored with
    | true => exact @ServiceMoves.moved c s _ _ number call .failed rfl here rfl rfl (.inr rfl)
    | false => exact @ServiceMoves.moved c s _ _ number call .failed rfl here rfl rfl (.inl rfl)
  | record now number =>
    obtain ⟨call, hcall, h⟩ := Option.bind_eq_some_iff.mp h
    split at h
    · cases h
    next clock =>
      cases h
      obtain ⟨calls, blobs⟩ := note_calls (s := c.execute now (.publishArtifact (c.artifact call)
        call.generation call.caller) (s.advance number _)) number (c.artifact call)
        s.store.db.artifacts
      exact .transacted rfl (publishAt_some hcall).1 calls (not_lt.mp clock) rfl
        (note_store _ _ _) blobs
  | interrupt number =>
    rw [ArtifactService.step] at h
    split at h
    next open_ =>
      cases h
      obtain ⟨stage, -, hstage⟩ := List.any_eq_true.mp open_
      obtain ⟨call, hcall⟩ := Option.isSome_iff_exists.mp hstage
      exact .moved rfl (publishAt_some hcall).1 rfl rfl (.inl rfl)
    · cases h
  | lookup id =>
    rw [ArtifactService.step] at h
    split at h
    · cases h
      exact .quiet rfl rfl rfl
    · cases h
      exact .quiet rfl rfl rfl
  | check number | get number bytes =>
    obtain ⟨call, _, h⟩ := Option.bind_eq_some_iff.mp h
    cases h
    exact .quiet rfl rfl rfl
  | install number =>
    rw [ArtifactService.step] at h
    split at h
    · split at h
      · cases h
        exact .quiet rfl rfl rfl
      · cases h
        exact .quiet rfl rfl rfl
    · cases h
  | abort number =>
    rw [ArtifactService.step] at h
    split at h
    · split at h
      · cases h
      · cases h
        exact .quiet rfl rfl rfl
    · cases h

end Service

/-! ## Whole runs -/

/-- An upload carries the capability of its owner, and every call of `publish` belongs to one. -/
structure Sound (c : RpcServer) (s : State) : Prop where
  store : c.store.system.Reachable s.service.store
  authorized : ∀ u ∈ s.uploads, u.authorization =
    some ("Bearer " ++ c.capability u.owner.attemptId u.owner.generation)
  published : ∀ (m : Nat) (call : Publish), s.service.publishes[m]? = some call →
    ∃ (k : Nat) (u : Upload), s.uploads[k]? = some u ∧ u.stage = .publishing m ∧
      call.attempt = u.owner.attemptId ∧ call.generation = u.owner.generation

section Runs

variable {c : RpcServer} {s s' : State} {act : Act}

theorem Sound.transacted (sound : Sound c s) {now : Int} {db : Db}
    (clock : s.service.store.clock ≤ now)
    (h : db = s.db ∨ ∃ op, c.store.apply now op s.db = .ok db) :
    Sound c { s with service := { s.service with store := ⟨db, now⟩ } } := by
  have committed : ∃ op, db = c.store.commit now op s.service.store.db := by
    rcases h with rfl | ⟨op, happly⟩
    · exact ⟨.verifyOwner "" 0 "", c.store.commit_verifyOwner.symm⟩
    · refine ⟨op, ?_⟩
      change c.store.apply now op s.service.store.db = .ok db at happly
      rw [PostgresStore.commit, happly]
  obtain ⟨op, rfl⟩ := committed
  exact ⟨c.store.reachable_commit sound.store op clock, sound.authorized, sound.published⟩

/-- An upload that reads goes on, with its owner. -/
theorem Sound.reads (sound : Sound c s) {number : Nat} {u : Upload} {f : Upload → Upload}
    (here : s.uploads[number]? = some u) (reading : u.stage = .reading)
    (keeps : ∀ u, (f u).owner = u.owner ∧ (f u).authorization = u.authorization) :
    Sound c (s.setUpload number f) := by
  refine ⟨sound.store, ?_, ?_⟩
  · intro v hv
    obtain ⟨k, hk⟩ := List.mem_iff_getElem?.mp hv
    rw [State.setUpload, List.getElem?_modify] at hk
    obtain ⟨w, hw, rfl⟩ := Option.map_eq_some_iff.mp hk
    have authorized := sound.authorized w (List.mem_of_getElem? hw)
    split
    · rw [(keeps w).1, (keeps w).2]
      exact authorized
    · exact authorized
  · intro m call hcall
    obtain ⟨k, v, hv, stage, same⟩ := sound.published m call hcall
    refine ⟨k, v, ?_, stage, same⟩
    have apart : number ≠ k := by
      rintro rfl
      rw [here] at hv
      cases hv
      rw [reading] at stage
      cases stage
    rw [State.setUpload, List.getElem?_modify_ne _ _ apart]
    exact hv

/-- The end of the stream begins a call of `publish` for the owner. -/
theorem Sound.publishes (sound : Sound c s) {number : Nat} {u : Upload}
    (here : s.uploads[number]? = some u) (reading : u.stage = .reading) :
    Sound c ({ s with service := { s.service with
        publishes := s.service.publishes ++ [{ u.call with
          stage := if (c.artifacts.inspect u.call).isOk then .checked else .failed }] }
      }.setUpload number fun u => { u with stage := .publishing s.service.publishes.length }) := by
  have moved := sound.reads here reading
    (f := fun u => { u with stage := .publishing s.service.publishes.length }) fun _ => ⟨rfl, rfl⟩
  refine ⟨moved.store, moved.authorized, ?_⟩
  intro m call hcall
  rcases Nat.lt_or_ge m s.service.publishes.length with old | new
  · exact moved.published m call ((List.getElem?_append_left old).symm.trans hcall)
  · have last : m = s.service.publishes.length := by
      have within := (List.getElem?_eq_some_iff.mp hcall).1
      simp only [State.setUpload, List.length_append, List.length_singleton] at within
      omega
    subst last
    rw [State.setUpload, List.getElem?_concat_length] at hcall
    cases hcall
    refine ⟨number, { u with stage := .publishing s.service.publishes.length }, ?_, rfl, rfl, rfl⟩
    rw [State.setUpload, List.getElem?_modify_eq, here]
    rfl

/-- A call of `publish` goes on, with its owner. -/
theorem Sound.advanced (sound : Sound c s) {calls : List Publish} {number : Nat}
    {stage : PublishStage} (publishes : calls = (s.service.advance number stage).publishes) :
    ∀ (m : Nat) (call : Publish), calls[m]? = some call →
      ∃ (k : Nat) (u : Upload), s.uploads[k]? = some u ∧ u.stage = .publishing m ∧
        call.attempt = u.owner.attemptId ∧ call.generation = u.owner.generation := by
  intro m call hcall
  rw [publishes, ArtifactService.State.advance, List.getElem?_modify] at hcall
  obtain ⟨before, hbefore, rfl⟩ := Option.map_eq_some_iff.mp hcall
  obtain ⟨k, u, hu, here, same⟩ := sound.published m before hbefore
  refine ⟨k, u, hu, here, ?_⟩
  split
  · exact same
  · exact same

theorem Sound.step (sound : Sound c s) (h : c.step s act = some s') : Sound c s' := by
  cases act with
  | other now op =>
    obtain ⟨service, hservice, rfl⟩ := Option.map_eq_some_iff.mp h
    obtain ⟨hguard, hnext⟩ := Option.ite_none_left_eq_some.mp hservice
    simp only [Bool.or_eq_true, not_or, decide_eq_true_eq, not_lt] at hguard
    cases hnext
    exact ⟨c.store.reachable_commit sound.store op hguard.2, sound.authorized, sound.published⟩
  | agent now context worker request =>
    obtain ⟨hclock, hnext⟩ := Option.ite_none_left_eq_some.mp h
    cases hnext
    refine sound.transacted (not_lt.mp hclock) ?_
    rcases agentRpc_cases (c := c) worker request with same | ⟨_, happly⟩
    · exact .inl same
    · exact .inr happly
  | attempt now context owner request =>
    obtain ⟨hclock, hnext⟩ := Option.ite_none_left_eq_some.mp h
    cases hnext
    refine sound.transacted (not_lt.mp hclock) ?_
    rcases attemptRpc_cases (c := c) owner request with same | ⟨_, happly⟩
    · exact .inl same
    · exact .inr ⟨_, happly⟩
  | upload now context owner relative checksum data =>
    obtain ⟨hclock, hnext⟩ := Option.ite_none_left_eq_some.mp h
    split at hnext
    next db hbegin =>
      obtain ⟨rfl, authorization⟩ := beginUpload_ok hbegin
      cases hnext
      have moved := sound.transacted (not_lt.mp hclock) (.inl rfl)
      refine ⟨moved.store, ?_, ?_⟩
      · intro u hu
        rcases List.mem_append.mp hu with hu | hu
        · exact sound.authorized u hu
        · rw [List.mem_singleton.mp hu]
          exact authorization
      · intro m call hcall
        obtain ⟨k, u, hu, rest⟩ := sound.published m call hcall
        exact ⟨k, u, List.getElem?_append_left (List.getElem?_eq_some_iff.mp hu).1 ▸ hu, rest⟩
    · cases hnext
      exact sound
  | chunk number data =>
    obtain ⟨u, here, hnext⟩ := Option.bind_eq_some_iff.mp h
    obtain ⟨reading, hnext⟩ := Option.ite_none_left_eq_some.mp hnext
    cases hnext
    exact sound.reads here (not_not.mp reading) fun _ => ⟨rfl, rfl⟩
  | close number cancelled =>
    obtain ⟨u, here, hnext⟩ := Option.bind_eq_some_iff.mp h
    obtain ⟨reading, hnext⟩ := Option.ite_none_left_eq_some.mp hnext
    split at hnext
    · cases hnext
      exact sound.reads here (not_not.mp reading) fun _ => ⟨rfl, rfl⟩
    · cases hnext
      exact sound.publishes here (not_not.mp reading)
  | abort number =>
    obtain ⟨u, here, hnext⟩ := Option.bind_eq_some_iff.mp h
    obtain ⟨reading, hnext⟩ := Option.ite_none_left_eq_some.mp hnext
    cases hnext
    exact sound.reads here (not_not.mp reading) fun _ => ⟨rfl, rfl⟩
  | service act =>
    obtain ⟨hinner, hnext⟩ := Option.ite_none_right_eq_some.mp h
    obtain ⟨service, hservice, rfl⟩ := Option.map_eq_some_iff.mp hnext
    cases service_moves hinner hservice with
    | quiet publishes store blobs =>
      exact ⟨store ▸ sound.store, sound.authorized, publishes ▸ sound.published⟩
    | moved _ _ publishes store _ =>
      exact ⟨store ▸ sound.store, sound.authorized, sound.advanced publishes⟩
    | transacted _ _ publishes clock _ store _ =>
      refine ⟨?_, sound.authorized, sound.advanced publishes⟩
      rw [store]
      exact c.store.reachable_commit sound.store _ clock

theorem sound {blobs files : String → Option Bytes} (hs : (c.system blobs files).Reachable s) :
    Sound c s := by
  refine hs.invariant (P := Sound c) ?_ ?_
  · refine ⟨System.reachable_init, ?_, ?_⟩
    · exact fun u hu => absurd hu List.not_mem_nil
    · exact fun m call hcall => by cases hcall
  · exact fun _ _ _ sound h => sound.step h

/-- The credential that a step is taken with. -/
def Carries (s : State) (token : String) : Act → Prop
  | .agent _ context _ _ | .attempt _ context _ _ | .upload _ context _ _ _ _ =>
    context.authorization = some ("Bearer " ++ token)
  | .chunk number _ | .close number _ | .abort number =>
    ∃ u, s.uploads[number]? = some u ∧ u.authorization = some ("Bearer " ++ token)
  | .service act => ∃ u ∈ s.uploads, ∃ number, publishNumber act = some number ∧
    u.stage = .publishing number ∧ u.authorization = some ("Bearer " ++ token)
  | .other _ _ => False

def Act.rpc : Act → Bool
  | .other _ _ => false
  | _ => true

/-- Of all credentials, the token can only be the capability of one of these attempts. -/
def Limited (c : RpcServer) (held : Set (String × Int)) (token : String) : Prop :=
  token ≠ c.workerToken ∧ ∀ id generation, token = c.capability id generation →
    ∃ x ∈ held, token = c.capability x.1 x.2

theorem Limited.held {held : Set (String × Int)} {id : String} {generation : Int}
    (injective : Function.Injective (c.sign c.signingKey))
    (h : Limited c held (c.capability id generation)) : (id, generation) ∈ held := by
  obtain ⟨⟨id', generation'⟩, hx, same⟩ := h.2 id generation rfl
  obtain ⟨rfl, rfl⟩ := capabilityText_inj (injective same)
  exact hx

/-- A transaction of a runner that holds the attempt is confined to it. -/
theorem Sound.confined (sound : Sound c s) {held : Set (String × Int)} {id : String}
    {generation : Int} (now : Int) {op : Op} (hop : op.identity? = some (id, generation))
    (hheld : (id, generation) ∈ held) :
    c.store.commit now op s.db = s.db ∨ ∃ x ∈ held, ∃ a, s.db.attempt? x.1 = some a ∧
      a.generation = x.2 ∧ ¬ a.Ended now ∧
      Confined x.1 a.runId s.db (c.store.commit now op s.db) := by
  by_cases same : c.store.commit now op s.db = s.db
  · exact .inl same
  · rcases c.store.commit_cases now op s.db with unchanged | happly
    · exact absurd unchanged same
    · obtain ⟨a, ha, hgeneration, alive⟩ := owner_fence sound.store hop happly same
      exact .inr ⟨(id, generation), hheld, a, ha, hgeneration, alive,
        owner_confined sound.store hop happly ha⟩

/-- A party that knows no worker token and of all capabilities only those of some attempts can by
no RPC change anything but the rows of a live one of these attempts, of its run and of its outputs,
and blobs under the names of these attempts. -/
theorem capability_confined {blobs files : String → Option Bytes} {held : Set (String × Int)}
    (injective : Function.Injective (c.sign c.signingKey))
    (hs : (c.system blobs files).Reachable s) (rpc : act.rpc)
    (h : (c.system blobs files).step s act = some s')
    (limited : ∀ token, Carries s token act → Limited c held token) :
    (s'.db = s.db ∨ ∃ x ∈ held, ∃ a, s.db.attempt? x.1 = some a ∧ a.generation = x.2 ∧
      ¬ a.Ended s'.service.store.clock ∧ Confined x.1 a.runId s.db s'.db) ∧
    ∀ key, s'.service.blobs key ≠ s.service.blobs key →
      ∃ x ∈ held, ∃ rest, key = x.1 ++ "/" ++ rest := by
  have sound := sound hs
  change c.step s act = some s' at h
  have silent : ∀ {t : State}, t.db = s.db → t.service.blobs = s.service.blobs →
      (t.db = s.db ∨ ∃ x ∈ held, ∃ a, s.db.attempt? x.1 = some a ∧ a.generation = x.2 ∧
        ¬ a.Ended t.service.store.clock ∧ Confined x.1 a.runId s.db t.db) ∧
      ∀ key, t.service.blobs key ≠ s.service.blobs key →
        ∃ x ∈ held, ∃ rest, key = x.1 ++ "/" ++ rest :=
    fun hdb hblobs => ⟨.inl hdb, fun key changed => absurd (congrFun hblobs key) changed⟩
  cases act with
  | other => cases rpc
  | agent now context worker request =>
    obtain ⟨-, hnext⟩ := Option.ite_none_left_eq_some.mp h
    cases hnext
    rcases agentRpc_cases (c := c) worker request with same | ⟨carried, _⟩
    · exact silent same rfl
    · exact absurd rfl (limited c.workerToken carried).1
  | attempt now context owner request =>
    obtain ⟨-, hnext⟩ := Option.ite_none_left_eq_some.mp h
    cases hnext
    rcases attemptRpc_cases (c := c) owner request with same | ⟨carried, happly⟩
    · exact silent same rfl
    · have hheld := (limited _ carried).held injective
      have committed : c.store.commit now (request.op owner) s.db =
          (c.attemptRpc now context owner request s.db).1 := by
        rw [PostgresStore.commit, happly]
      have confined := sound.confined now (request.op_identity owner) hheld
      rw [committed] at confined
      exact ⟨confined, fun key changed => absurd rfl changed⟩
  | upload now context owner relative checksum data =>
    obtain ⟨-, hnext⟩ := Option.ite_none_left_eq_some.mp h
    split at hnext
    next db hbegin =>
      obtain ⟨rfl, -⟩ := beginUpload_ok hbegin
      cases hnext
      exact silent rfl rfl
    · cases hnext
      exact silent rfl rfl
  | chunk number data =>
    obtain ⟨u, -, hnext⟩ := Option.bind_eq_some_iff.mp h
    obtain ⟨-, hnext⟩ := Option.ite_none_left_eq_some.mp hnext
    cases hnext
    exact silent rfl rfl
  | close number cancelled =>
    obtain ⟨u, -, hnext⟩ := Option.bind_eq_some_iff.mp h
    obtain ⟨-, hnext⟩ := Option.ite_none_left_eq_some.mp hnext
    split at hnext
    · cases hnext
      exact silent rfl rfl
    · cases hnext
      exact silent rfl rfl
  | abort number =>
    obtain ⟨u, -, hnext⟩ := Option.bind_eq_some_iff.mp h
    obtain ⟨-, hnext⟩ := Option.ite_none_left_eq_some.mp hnext
    cases hnext
    exact silent rfl rfl
  | service act =>
    obtain ⟨hinner, hnext⟩ := Option.ite_none_right_eq_some.mp h
    obtain ⟨service, hservice, rfl⟩ := Option.map_eq_some_iff.mp hnext
    have owned {number : Nat} {call : Publish} (named : publishNumber act = some number)
        (here : s.service.publishes[number]? = some call) :
        (call.attempt, call.generation) ∈ held := by
      obtain ⟨k, u, hu, stage, attempt, generation⟩ := sound.published number call here
      have member := List.mem_of_getElem? hu
      have carried : Carries s (c.capability u.owner.attemptId u.owner.generation)
          (.service act) := ⟨u, member, number, named, stage, sound.authorized u member⟩
      rw [attempt, generation]
      exact (limited _ carried).held injective
    cases service_moves hinner hservice with
    | quiet _ store hblobs => exact silent (congrArg (·.db) store) hblobs
    | @moved number call _ named here _ store hblobs =>
      refine ⟨.inl (congrArg (·.db) store), fun key changed => ?_⟩
      rcases hblobs with same | written
      · exact absurd (congrFun same key) changed
      · have there : key = (c.artifacts.artifact call).storageKey := by
          by_contra elsewhere
          refine changed ?_
          change service.blobs key = _
          rw [written, Function.update_of_ne elsewhere]
        refine ⟨_, owned named here,
          c.artifacts.store.sha256 call.relative ++ "-" ++ c.artifacts.digest call.file, ?_⟩
        rw [there]
        simp only [ArtifactService.artifact, String.append_assoc]
    | @transacted number call _ now op named here _ _ identity store hblobs =>
      refine ⟨?_, fun key changed => absurd (congrFun hblobs key) changed⟩
      have confined := sound.confined now identity (owned named here)
      have hdb : service.store.db = c.store.commit now op s.db := congrArg (·.db) store
      have hclock : service.store.clock = now := congrArg (·.clock) store
      change service.store.db = s.db ∨ ∃ x ∈ held, ∃ a, s.db.attempt? x.1 = some a ∧
        a.generation = x.2 ∧ ¬ a.Ended service.store.clock ∧
        Confined x.1 a.runId s.db service.store.db
      rw [hdb, hclock]
      exact confined

end Runs

/-! ## A small server -/

namespace Sample

def server : RpcServer where
  artifacts := ArtifactService.Sample.service
  sign secret message := secret ++ message
  signingKey := "key"
  workerToken := "worker"

def attempt : String := Runyard.Sample.attemptId.text

def agent : ServerContext := ⟨some "Bearer worker", true, false⟩

def runner : ServerContext := ⟨some ("Bearer " ++ server.capability attempt 1), true, false⟩

def owner : Owner := ⟨attempt, 1, "runner", ""⟩

def events : List Act :=
  [.other 1 (.submit Runyard.Sample.runId Runyard.Sample.spec "key" "fingerprint"),
    .agent 2 agent ⟨"worker", "session"⟩ (.register ⟨4000, 4096⟩ {}),
    .agent 3 agent ⟨"worker", "session"⟩ (.poll Runyard.Sample.attemptId []),
    .attempt 4 runner owner .start]

def finalizing : Act := .attempt 5 runner owner .beginFinalization

def system : System State Act := server.system (fun _ => none) fun _ => none

theorem finalized : (system.replay (fun _ _ => true) system.init events).bind (fun s =>
    (system.step s finalizing).map fun s' =>
      (s.db.runs.map (·.status), s'.db.runs.map (·.status))) =
    some ([.running], [.finalizing]) := by decide +kernel

end Sample

/-- The runner of an attempt begins its finalization. -/
theorem capability_confined_finalizing :
    ∃ s s' a, Sample.system.Reachable s ∧ Sample.system.step s Sample.finalizing = some s' ∧
      s'.db ≠ s.db ∧ Confined Sample.attempt a s.db s'.db := by
  obtain ⟨s, hreplay, hnext⟩ := Option.bind_eq_some_iff.mp Sample.finalized
  obtain ⟨s', hstep, hfacts⟩ := Option.map_eq_some_iff.mp hnext
  obtain ⟨before, after⟩ := Prod.mk.inj hfacts
  have hs := System.replay_reachable hreplay
  have changed : s'.db ≠ s.db := by
    intro same
    rw [same, before] at after
    cases after
  have injective : Function.Injective (Sample.server.sign Sample.server.signingKey) :=
    fun _ _ h => (String.append_right_inj _).mp h
  have limited : ∀ token, Carries s token Sample.finalizing →
      Limited Sample.server {(Sample.attempt, 1)} token := by
    intro token carried
    have same : Sample.server.capability Sample.attempt 1 = token :=
      (String.append_right_inj _).mp (Option.some.inj carried)
    subst same
    exact ⟨by decide +kernel, fun _ _ _ => ⟨_, rfl, rfl⟩⟩
  obtain ⟨same | ⟨x, hx, a, -, -, -, confined⟩, -⟩ :=
    capability_confined injective hs rfl hstep limited
  · exact absurd same changed
  · cases hx
    exact ⟨s, s', a.runId, hs, hstep, changed, confined⟩

end RpcServer

end Runyard
