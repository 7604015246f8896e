import Runyard.Ledger.Records
import Runyard.Run.Lifetime
import Runyard.Store.Queries
import Runyard.Cursor

/-!
# The telemetry log

The persisted sequences of an attempt are 1, 2, ... up to the acknowledged one, whatever
batches its owner reports. A reader that continues after the last sequence it received
therefore follows the log without a gap.
-/

namespace Runyard

/-- The log of every attempt is contiguous and its row counts the records. -/
structure Gapless (db : Db) : Prop where
  counted : ∀ a ∈ db.attempts, a.ackSequence = (db.recordsOf a.id).length
  contiguous : ∀ id, (db.recordsOf id).map (·.sequence) = upTo (db.recordsOf id).length
  absent : ∀ id, (∀ a ∈ db.attempts, a.id ≠ id) → db.recordsOf id = []

/-- The database with more records of one attempt. -/
def Db.extend (id : String) (accepted : List Telemetry) (db : Db) : Db :=
  { db with telemetry := db.telemetry ++ accepted.map fun r => ⟨id, r⟩ }

theorem Db.extend_nil (id : String) (db : Db) : db.extend id [] = db := by
  simp [Db.extend]

theorem Db.extend_recordsOf (id : String) (accepted : List Telemetry) (db : Db) :
    (db.extend id accepted).recordsOf id = db.recordsOf id ++ accepted := by
  simp [Db.recordsOf, Db.extend, List.filter_map, Function.comp_def]

section Report

variable {db db' : Db} {id : String}

theorem sequences_append {records accepted : List Telemetry}
    (hrecords : records.map (·.sequence) = upTo records.length)
    (haccepted : accepted.map (·.sequence) =
      (upTo accepted.length).map fun i => (records.length : Int) + i) :
    (records ++ accepted).map (·.sequence) = upTo (records ++ accepted).length := by
  have shifted : ∀ n m, upTo n ++ (upTo m).map (fun i => (n : Int) + i) = upTo (n + m) := by
    intro n m
    induction m with
    | zero => simp [upTo]
    | succ m ih =>
      rw [upTo_succ, List.map_append, ← List.append_assoc, ih, ← Nat.add_assoc, upTo_succ]
      simp
      omega
  rw [List.map_append, hrecords, haccepted, List.length_append, shifted]

/-- Sequences are contiguous, so the next one is free: the insert meets no stored key. -/
theorem insertTelemetry_next (contiguous : (db.recordsOf id).map (·.sequence) =
      upTo (db.recordsOf id).length) {r : Telemetry}
    (next : r.sequence = (db.recordsOf id).length + 1) :
    db.insertTelemetry ⟨id, r⟩ = .ok (db.extend id [r]) := by
  have free : ¬ db.telemetry.any fun t => t.attemptId = id && t.record.sequence = r.sequence := by
    intro taken
    simp only [List.any_eq_true, Bool.and_eq_true, decide_eq_true_eq] at taken
    obtain ⟨t, ht, hid, hsequence⟩ := taken
    have hmem : t.record ∈ db.recordsOf id :=
      List.mem_map_of_mem (List.mem_filter.mpr ⟨ht, by simpa using hid⟩)
    have hupTo : t.record.sequence ∈ upTo (db.recordsOf id).length := by
      rw [← contiguous]
      exact List.mem_map_of_mem hmem
    have := upTo_bound hupTo
    omega
  rw [Db.insertTelemetry, if_neg free]
  rfl

/-- What the loop of `report` accepts: a run of the batch that continues the log, each record
the first of the batch with its sequence. -/
structure Accepts (records accepted : List Telemetry) (n : Nat) : Prop where
  part : accepted.Sublist records
  continues : accepted.map (·.sequence) = (upTo accepted.length).map fun i => (n : Int) + i
  first : ∀ r ∈ accepted, records.find? (fun x => x.sequence = r.sequence) = some r

theorem Accepts.above {records accepted : List Telemetry} {n : Nat}
    (accepts : Accepts records accepted n) {r : Telemetry} (hr : r ∈ accepted) :
    (n : Int) < r.sequence := by
  have hmem : r.sequence ∈ (upTo accepted.length).map fun i => (n : Int) + i := by
    rw [← accepts.continues]
    exact List.mem_map_of_mem hr
  obtain ⟨i, hi, hsum⟩ := List.mem_map.mp hmem
  have := upTo_bound hi
  omega

theorem Accepts.none (records : List Telemetry) (n : Nat) : Accepts records [] n :=
  ⟨List.nil_sublist _, rfl, by simp⟩

theorem Accepts.skip {records accepted : List Telemetry} {n : Nat} {r : Telemetry}
    (accepts : Accepts records accepted n) (old : r.sequence ≤ n) :
    Accepts (r :: records) accepted n := by
  refine ⟨accepts.part.cons r, accepts.continues, fun x hx => ?_⟩
  have habove := accepts.above hx
  rw [List.find?_cons_of_neg (by simp only [decide_eq_true_eq]; omega)]
  exact accepts.first x hx

theorem Accepts.take {records accepted : List Telemetry} {n : Nat} {r : Telemetry}
    (accepts : Accepts records accepted (n + 1)) (next : r.sequence = n + 1) :
    Accepts (r :: records) (r :: accepted) n := by
  refine ⟨accepts.part.cons_cons r, ?_, fun x hx => ?_⟩
  · rw [List.map_cons, accepts.continues, List.length_cons]
    simp only [upTo, List.range_succ_eq_map, List.map_cons, List.map_map, next]
    refine List.cons_eq_cons.mpr ⟨by simp, List.map_congr_left fun i _ => ?_⟩
    simp only [Function.comp, Nat.cast_add, Nat.cast_one, Nat.succ_eq_add_one]
    omega
  · rcases List.mem_cons.mp hx with rfl | hx
    · exact List.find?_cons_of_pos (by simp)
    · have habove := accepts.above hx
      rw [List.find?_cons_of_neg (by simp only [decide_eq_true_eq]; omega)]
      exact accepts.first x hx

theorem insertRecords_accepts (records : List Telemetry)
    (contiguous : (db.recordsOf id).map (·.sequence) = upTo (db.recordsOf id).length) :
    ∃ accepted, Accepts records accepted (db.recordsOf id).length ∧
      insertRecords id records (db.recordsOf id).length db =
        .ok (db.extend id accepted, (db.recordsOf id).length + accepted.length) := by
  induction records generalizing db with
  | nil => exact ⟨[], .none _ _, by simp [insertRecords, Db.extend_nil]⟩
  | cons r rest ih =>
    rw [insertRecords]
    split
    · rename_i old
      obtain ⟨accepted, accepts, heq⟩ := ih contiguous
      exact ⟨accepted, accepts.skip old, heq⟩
    split
    · exact ⟨[], .none _ _, by simp [Db.extend_nil]⟩
    · -- The record is the next one: store it and continue after it.
      have next : r.sequence = (db.recordsOf id).length + 1 := by omega
      have grown := db.extend_recordsOf id [r]
      have contiguous₁ : ((db.extend id [r]).recordsOf id).map (·.sequence) =
          upTo ((db.extend id [r]).recordsOf id).length := by
        rw [grown]
        refine sequences_append contiguous ?_
        simp [upTo, next]
      obtain ⟨accepted, accepts, heq⟩ := ih contiguous₁
      rw [grown, List.length_append, List.length_singleton] at accepts heq
      refine ⟨r :: accepted, accepts.take next, ?_⟩
      have position : ((db.recordsOf id).length : Int) + 1 =
          ((db.recordsOf id).length + 1 : Nat) := by omega
      rw [insertTelemetry_next contiguous next]
      simp only [bind, Except.bind]
      rw [next, position, heq]
      simp only [Db.extend, List.append_assoc, List.map_cons, List.map_nil, List.singleton_append,
        List.length_cons, Except.ok.injEq, Prod.mk.injEq, true_and]
      omega

theorem report_accepts {now generation ack : Int} {caller : String} {records : List Telemetry}
    (wf : db.toJournal.WellFormed) (gapless : Gapless db)
    (h : report now id generation caller records db = .ok (db', ack)) :
    ∃ accepted, Accepts records accepted (db.recordsOf id).length ∧
      ack = (db.recordsOf id).length + accepted.length ∧
      (∃ a ∈ db.attempts, a.id = id) ∧ db'.recordsOf id = db.recordsOf id ++ accepted ∧
      db' = (db.extend id accepted).updateAttempt id fun row => row.acknowledge ack := by
  simp only [report, Result.bind_ok] at h
  obtain ⟨_, _, _, _, x, howned, ⟨db₁, next⟩, hinsert, hreturn⟩ := h
  obtain ⟨locked, _, _, _⟩ := owned_ok wf howned
  obtain ⟨hx, _⟩ := Table.lookup_mem locked.attempt
  obtain ⟨accepted, accepts, heq⟩ := insertRecords_accepts records
    (gapless.contiguous id)
  have hcount := gapless.counted x.attempt hx
  rw [locked.same] at hcount
  rw [hcount, heq] at hinsert
  cases hinsert
  simp only [Result.pure_ok, Prod.mk.injEq] at hreturn
  obtain ⟨rfl, rfl⟩ := hreturn
  exact ⟨accepted, accepts, rfl, ⟨x.attempt, hx, locked.same⟩, db.extend_recordsOf id accepted, rfl⟩

end Report

/-! ## No insert meets a stored key -/

/-- The call fails for no violated constraint. -/
def Result.Clean {α : Type} (x : Result α) : Prop :=
  ∀ constraint, x ≠ .error (.uniqueViolation constraint)

namespace Result.Clean

variable {α β : Type}

theorem bind {x : Result α} {f : α → Result β} (hx : Clean x)
    (hf : ∀ a, x = .ok a → Clean (f a)) : Clean (x >>= f) := by
  intro constraint h
  rcases Result.bind_error.mp h with hx' | ⟨a, ha, hfa⟩
  · exact hx constraint hx'
  · exact hf a ha constraint hfa

theorem ok (a : α) : Clean (.ok a : Result α) := fun _ h => by cases h

theorem fault {code : ErrorCode} {message : String} :
    Clean (Runyard.fault code message : Result α) := by
  intro constraint h
  simp [Runyard.fault] at h

theorem require (condition : Bool) (message : String) :
    Clean (Runyard.require condition message) := by
  unfold Runyard.require
  split
  · exact ok ()
  · exact fault

theorem throwIf (condition : Bool) (code : ErrorCode) (message : String) :
    Clean (Runyard.throwIf condition code message) := by
  unfold Runyard.throwIf
  split
  · exact fault
  · exact ok ()

theorem forM {f : α → Result PUnit} (hf : ∀ a, Clean (f a)) (l : List α) :
    Clean (l.forM f) := by
  induction l with
  | nil => exact ok ()
  | cons a rest ih =>
    have first : Clean (f a >>= fun _ => rest.forM f) := (hf a).bind fun _ _ => ih
    exact first

end Result.Clean

theorem validate_clean (r : Telemetry) : Result.Clean r.validate := by
  unfold Telemetry.validate
  refine (Result.Clean.require _ _).bind fun _ _ => ?_
  refine (Result.Clean.require _ _).bind fun _ _ => ?_
  refine (Result.Clean.require _ _).bind fun _ _ => ?_
  split
  · exact (Result.Clean.require _ _).bind fun _ _ => .require _ _
  · exact .ok ()

theorem owned_clean (now : Int) (id : String) (generation : Int) (caller : String) (db : Db) :
    Result.Clean (owned now id generation caller db) := by
  refine Result.Clean.bind ?_ fun _ _ => (Result.Clean.throwIf _ _ _).bind fun _ _ => .ok _
  intro constraint h
  unfold lockAttempt at h
  split at h
  · exact Result.Clean.fault constraint h
  · split at h <;> cases h

theorem report_clean {db : Db} {id : String} (wf : db.toJournal.WellFormed)
    (gapless : Gapless db) (now generation : Int) (caller : String) (records : List Telemetry) :
    Result.Clean (report now id generation caller records db) := by
  refine (Result.Clean.throwIf _ _ _).bind fun _ _ => ?_
  refine (Result.Clean.forM validate_clean _).bind fun _ _ => ?_
  refine (owned_clean _ _ _ _ _).bind fun x howned => ?_
  obtain ⟨locked, _, _, _⟩ := owned_ok wf howned
  obtain ⟨hx, _⟩ := Table.lookup_mem locked.attempt
  have hcount := gapless.counted x.attempt hx
  rw [locked.same] at hcount
  obtain ⟨accepted, _, heq⟩ := insertRecords_accepts records (gapless.contiguous id)
  rw [hcount, heq]
  exact .ok _

/-! ## The log along runs -/

namespace Gapless

variable {p : PostgresStore} {db : Db} {now : Int}

theorem empty : Gapless {} where
  counted := by simp
  contiguous := fun _ => rfl
  absent := fun _ _ => rfl

/-- What one transaction adds to the log of an attempt. -/
theorem commit_log (p : PostgresStore) (now : Int) (wf : db.toLedger.WellFormed)
    (gapless : Gapless db) (op : Op) (id : String) :
    ∃ accepted, (p.commit now op db).recordsOf id = db.recordsOf id ++ accepted ∧
      (accepted ≠ [] → ∃ a ∈ db.attempts, a.id = id) ∧
      accepted.map (·.sequence) =
        (upTo accepted.length).map fun i => ((db.recordsOf id).length : Int) + i := by
  by_cases hop : op.reports? = some id
  swap
  · exact ⟨[], by rw [commit_recordsOf hop, List.append_nil], by simp, rfl⟩
  rcases p.commit_cases now op db with hsame | happly
  · exact ⟨[], by rw [hsame, List.append_nil], by simp, rfl⟩
  cases op with
  | report id' generation caller records =>
    obtain rfl : id' = id := Option.some.inj hop
    obtain ⟨⟨db₁, ack⟩, hreport, hdb⟩ := Result.map_ok.mp happly
    obtain ⟨accepted, accepts, _, hknown, hlog, _⟩ :=
      report_accepts wf.toWellFormed gapless hreport
    refine ⟨accepted, ?_, fun _ => hknown, accepts.continues⟩
    rw [← hdb]
    exact hlog
  | submit | submitSweep | rerun | registerWorker | workerHeartbeat | drainWorker
    | reportGpuInventory | assign | runtimeReport | admitKubernetes | kubernetesStopped
    | kubernetesRuntime | start | heartbeat | beginFinalization | verifyOwner
    | publishArtifact | finish | cancel | recoverRequeue | recoverAttempt => cases hop

theorem commit_prefix (wf : db.toLedger.WellFormed) (gapless : Gapless db) (op : Op) (id : String) :
    db.recordsOf id <+: (p.commit now op db).recordsOf id := by
  obtain ⟨accepted, heq, _⟩ := commit_log p now wf gapless op id
  exact ⟨accepted, heq.symm⟩

/-- The row of an attempt after a transaction counts the log after it. -/
theorem commit_counted (wf : db.toLedger.WellFormed) (gapless : Gapless db) (op : Op)
    {a' : AttemptRow} (ha' : a' ∈ (p.commit now op db).attempts) :
    a'.ackSequence = ((p.commit now op db).recordsOf a'.id).length := by
  have effect : Effect p now db.toLedger op _ := PostgresStore.commit_effect wf
  by_cases hop : op.reports? = some a'.id
  swap
  · rw [commit_recordsOf hop]
    rcases effect.acknowledged_from hop ha' rfl with ⟨a, ha, hid, hack⟩ | ⟨fresh, hack⟩
    · rw [hack, ← hid]
      exact gapless.counted a ha
    · rw [hack, gapless.absent _ fresh]
      rfl
  rcases p.commit_cases now op db with hsame | happly
  · rw [hsame] at ha' ⊢
    exact gapless.counted a' ha'
  cases op with
  | report id generation caller records =>
    have hid : id = a'.id := Option.some.inj hop
    obtain ⟨⟨db₁, ack⟩, hreport, hdb⟩ := Result.map_ok.mp happly
    obtain ⟨accepted, _, hack, _, hlog, rfl⟩ := report_accepts wf.toWellFormed gapless hreport
    rw [← hdb] at ha' ⊢
    rw [← hid, hlog, List.length_append]
    obtain ⟨a, _, rfl⟩ := Table.mem_update.mp ha'
    by_cases ha : a.id = id
    · simp [ha, hack]
    · simp [ha] at hid
      exact absurd hid.symm ha
  | submit | submitSweep | rerun | registerWorker | workerHeartbeat | drainWorker
    | reportGpuInventory | assign | runtimeReport | admitKubernetes | kubernetesStopped
    | kubernetesRuntime | start | heartbeat | beginFinalization | verifyOwner
    | publishArtifact | finish | cancel | recoverRequeue | recoverAttempt => cases hop

theorem step {s s' : PostgresStore.State} {e : PostgresStore.Event} (hs : p.system.Reachable s)
    (gapless : Gapless s.db) (hstep : p.system.step s e = some s') : Gapless s'.db := by
  have wf := PostgresStore.reachable_wellFormed hs
  obtain ⟨hclock, rfl⟩ := p.step_eq hstep
  constructor
  · exact fun a' ha' => commit_counted wf gapless e.op ha'
  · intro id
    obtain ⟨accepted, hlog, _, hcontinues⟩ := commit_log p e.now wf gapless e.op id
    dsimp only
    rw [hlog]
    exact sequences_append (gapless.contiguous id) hcontinues
  · intro id hnone
    have before : ∀ a ∈ s.db.attempts, a.id ≠ id := by
      intro a ha hid
      have later : p.system.Later s _ := System.Leads.single trivial hstep
      obtain ⟨a', ha', evolved⟩ := attempt_later hs later a ha
      exact hnone a' ha' (evolved.identity.id.trans hid)
    obtain ⟨accepted, hlog, hknown, _⟩ := commit_log p e.now wf gapless e.op id
    have hempty : accepted = [] := by
      by_contra hne
      obtain ⟨a, ha, hid⟩ := hknown hne
      exact before a ha hid
    dsimp only
    rw [hlog, hempty, gapless.absent id before, List.append_nil]

end Gapless

variable {p : PostgresStore} {s s' : PostgresStore.State}

theorem gapless_reachable (hs : p.system.Reachable s) : Gapless s.db :=
  System.Leads.stable (P := fun s => Gapless s.db) System.reachable_init hs .empty
    fun _ _ _ hs gapless _ hstep => gapless.step hs hstep

/-- Stored records stay, and new ones come after them. -/
theorem recordsOf_later (hs : p.system.Reachable s) (later : p.system.Later s s') (id : String) :
    s.db.recordsOf id <+: s'.db.recordsOf id := by
  refine later.relation hs (R := fun s s' => s.db.recordsOf id <+: s'.db.recordsOf id) ?_ ?_ ?_
  · exact fun _ => List.prefix_rfl
  · exact fun _ _ _ first second => first.trans second
  intro s e s' hs _ hstep
  obtain ⟨_, rfl⟩ := p.step_eq hstep
  exact Gapless.commit_prefix (PostgresStore.reachable_wellFormed hs) (gapless_reachable hs) e.op id

theorem acknowledged_later (hs : p.system.Reachable s) (later : p.system.Later s s') :
    ∀ a ∈ s.db.attempts, ∃ a' ∈ s'.db.attempts,
      a'.id = a.id ∧ a'.runId = a.runId ∧ a.ackSequence ≤ a'.ackSequence := by
  intro a ha
  obtain ⟨a', ha', evolved⟩ := attempt_later hs later a ha
  refine ⟨a', ha', evolved.identity.id, evolved.identity.runId, ?_⟩
  have hlength := (recordsOf_later hs later a.id).length_le
  have hcount := (gapless_reachable hs).counted a ha
  have hcount' := (gapless_reachable (hs.later later)).counted a' ha'
  rw [evolved.identity.id] at hcount'
  omega

end Runyard
