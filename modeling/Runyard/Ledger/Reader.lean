import Runyard.Ledger.TelemetryLog

/-!
# Readers of the telemetry log

A reader asks again and again for the records of one attempt after the last sequence it
received, while the transactions of the store go on.
-/

namespace Runyard

section Query

variable {db : Db} {run attempt kind name : String}

/-- The attempt is stored and belongs to the run. -/
def Belongs (run attempt : String) (db : Db) : Prop :=
  ∃ a ∈ db.attempts, a.id = attempt ∧ a.runId = run

theorem selects_iff (wf : db.toJournal.WellFormed) (named : attempt ≠ "") (id : String) :
    selects run attempt id db ↔ id = attempt ∧ Belongs run attempt db := by
  simp only [selects, List.any_eq_true, Bool.and_eq_true, decide_eq_true_eq, if_neg named,
    Option.some.injEq]
  constructor
  · rintro ⟨a, ha, rfl, r, _, ⟨hrun, rfl⟩, rfl⟩
    exact ⟨rfl, a, ha, rfl, hrun.symm⟩
  · rintro ⟨rfl, a, ha, hid, rfl⟩
    obtain ⟨r, hr, hrun⟩ := wf.attemptRun a ha
    exact ⟨a, ha, hid, r, hr, ⟨hrun, hrun⟩, hid.symm⟩

/-- The records of the attempt that pass the filter. -/
def matching (attempt kind name : String) (db : Db) : List Telemetry :=
  (db.recordsOf attempt).filter (shown kind name)

theorem recordsOf_increasing (gapless : Gapless db) (id : String) :
    Cursor.Increasing (·.sequence) (db.recordsOf id) := by
  have increasing : (upTo (db.recordsOf id).length).Pairwise (· < ·) := by
    refine List.pairwise_map.mpr (List.pairwise_lt_range.imp ?_)
    intro i j hij
    omega
  rw [← gapless.contiguous id] at increasing
  exact List.pairwise_map.mp increasing

theorem matching_increasing (gapless : Gapless db) :
    Cursor.Increasing (·.sequence) (matching attempt kind name db) :=
  (recordsOf_increasing gapless attempt).sublist List.filter_sublist

theorem matching_positive (gapless : Gapless db) :
    ∀ r ∈ matching attempt kind name db, 0 < r.sequence := by
  intro r hr
  have hmem : r.sequence ∈ (db.recordsOf attempt).map (·.sequence) :=
    List.mem_map_of_mem (List.mem_filter.mp hr).1
  rw [gapless.contiguous attempt] at hmem
  exact (upTo_bound hmem).1

/-- A query for an attempt of the run is a page of its log. -/
theorem telemetry_page (wf : db.toJournal.WellFormed) (gapless : Gapless db)
    (named : attempt ≠ "") (belongs : Belongs run attempt db) (after limit : Int) :
    telemetry run attempt after limit kind name db =
      Cursor.page (·.sequence) after (max 1 (min limit 1000)).toNat
        (matching attempt kind name db) := by
  have rows : (db.telemetry.filter fun t => selects run attempt t.attemptId db &&
        after < t.record.sequence && shown kind name t.record).map (·.record) =
      (matching attempt kind name db).filter fun r => after < r.sequence := by
    have selected : (db.telemetry.filter fun t => selects run attempt t.attemptId db &&
          after < t.record.sequence && shown kind name t.record) =
        ((db.telemetry.filter fun t => t.attemptId = attempt).filter fun t =>
          shown kind name t.record).filter fun t => after < t.record.sequence := by
      rw [List.filter_filter, List.filter_filter]
      refine List.filter_congr fun t _ => Bool.eq_iff_iff.mpr ?_
      simp only [Bool.and_eq_true, decide_eq_true_eq, selects_iff wf named]
      tauto
    rw [selected, matching, Db.recordsOf, List.filter_map, List.filter_map]
    rfl
  have ordered : ((matching attempt kind name db).filter fun r => after < r.sequence).Pairwise
      fun r s => r.sequence ≤ s.sequence :=
    ((matching_increasing gapless).sublist List.filter_sublist).imp fun h => le_of_lt h
  rw [telemetry, rows, Cursor.page, ordered.insertionSort_eq]

theorem telemetry_none (wf : db.toJournal.WellFormed) (named : attempt ≠ "")
    (other : ¬ Belongs run attempt db) (after limit : Int) :
    telemetry run attempt after limit kind name db = [] := by
  have rows : (db.telemetry.filter fun t => selects run attempt t.attemptId db &&
      after < t.record.sequence && shown kind name t.record) = [] := by
    refine List.filter_eq_nil_iff.mpr fun t _ => ?_
    simp [selects_iff wf named, other]
  rw [telemetry, rows]
  simp

end Query

theorem Belongs.later {p : PostgresStore} {s s' : PostgresStore.State} {run attempt : String}
    (belongs : Belongs run attempt s.db) (hs : p.system.Reachable s)
    (later : p.system.Later s s') : Belongs run attempt s'.db := by
  obtain ⟨a, ha, hid, hrun⟩ := belongs
  obtain ⟨a', ha', hid', hrun', _⟩ := acknowledged_later hs later a ha
  exact ⟨a', ha', hid'.trans hid, hrun'.trans hrun⟩

/-! ## The reader among writers -/

/-- One reader with the arguments that it keeps. -/
structure CursorSetup where
  store : PostgresStore
  run : String
  attempt : String
  kind : String
  name : String
  named : attempt ≠ ""

namespace CursorSetup

variable (c : CursorSetup)

structure State where
  store : PostgresStore.State
  received : List Telemetry := []
  /-- How many queries were answered. -/
  reads : Nat := 0

inductive Act where
  | write (e : PostgresStore.Event)
  | read (limit : Int)

/-- The last sequence received. -/
def State.after (s : State) : Int := Cursor.position (·.sequence) 0 s.received

def step (s : State) : Act → Option State
  | .write e => (c.store.system.step s.store e).map fun store => { s with store := store }
  | .read limit =>
    let answer := telemetry c.run c.attempt s.after limit c.kind c.name s.store.db
    some { s with received := s.received ++ answer, reads := s.reads + 1 }

def system : System State Act where
  init := { store := c.store.system.init }
  step := c.step

/-- The stored records that the reader asks for. -/
def wanted (s : State) : List Telemetry := matching c.attempt c.kind c.name s.store.db

variable {c} {s s' : State}

theorem embeds : c.system.Embeds c.store.system (·.store) where
  init := rfl
  step := by
    intro s a s' _ hstep
    cases a with
    | write e =>
      obtain ⟨store, hstore, rfl⟩ := Option.map_eq_some_iff.mp hstep
      exact .inr ⟨e, hstore⟩
    | read limit =>
      cases hstep
      exact .inl rfl

theorem wanted_later (hs : c.system.Reachable s) (later : c.system.Later s s') :
    c.wanted s <+: c.wanted s' :=
  (recordsOf_later (embeds.reachable hs) (embeds.later hs later) c.attempt).filter _

/-- A read keeps what was received a prefix of what is wanted, and gains on it. -/
theorem read_gains (hs : c.system.Reachable s) (held : s.received <+: c.wanted s) {limit : Int}
    (hstep : c.system.step s (.read limit) = some s') :
    s'.received <+: c.wanted s' ∧ (Belongs c.run c.attempt s.store.db →
      min (s.received.length + 1) (c.wanted s).length ≤ s'.received.length) := by
  cases hstep
  have wf := (PostgresStore.reachable_wellFormed (embeds.reachable hs)).toWellFormed
  have gapless := gapless_reachable (embeds.reachable hs)
  have increasing : Cursor.Increasing (·.sequence) (c.wanted s) := matching_increasing gapless
  have positive : ∀ r ∈ c.wanted s, 0 < r.sequence := matching_positive gapless
  dsimp only
  by_cases belongs : Belongs c.run c.attempt s.store.db
  · rw [telemetry_page wf gapless c.named belongs]
    constructor
    · exact Cursor.page_held increasing positive held _
    · intro _
      have grown := Cursor.length_append_page increasing positive held
        (max 1 (min limit 1000)).toNat
      rw [State.after]
      refine le_of_le_of_eq ?_ grown.symm
      omega
  · rw [telemetry_none wf c.named belongs, List.append_nil]
    exact ⟨held, fun h => absurd h belongs⟩

theorem received_begins (hs : c.system.Reachable s) : s.received <+: c.wanted s := by
  refine System.Leads.stable (P := fun s => s.received <+: c.wanted s) System.reachable_init hs
    List.nil_prefix ?_
  intro s a s' hs held _ hstep
  cases a with
  | write e =>
    have grows := wanted_later hs (.single trivial hstep)
    obtain ⟨store, _, rfl⟩ := Option.map_eq_some_iff.mp hstep
    exact held.trans grows
  | read limit => exact (read_gains hs held hstep).1

/-- What was wanted at one time has been received after as many reads as records were missing. -/
theorem reads_catch_up (hs : c.system.Reachable s) (belongs : Belongs c.run c.attempt s.store.db)
    (later : c.system.Later s s') : s.reads ≤ s'.reads ∧
      min (c.wanted s).length (s.received.length + (s'.reads - s.reads)) ≤ s'.received.length := by
  refine System.Leads.invariant (P := fun s' => c.system.Later s s' ∧ s.reads ≤ s'.reads ∧
      min (c.wanted s).length (s.received.length + (s'.reads - s.reads)) ≤ s'.received.length)
    later ⟨.refl, le_refl _, by omega⟩ ?_ |>.2
  rintro s₁ a s₂ ⟨later₁, hreads, hmin⟩ _ hstep
  refine ⟨.step later₁ trivial hstep, ?_⟩
  have hs₁ := hs.later later₁
  cases a with
  | write e =>
    obtain ⟨store, _, rfl⟩ := Option.map_eq_some_iff.mp hstep
    exact ⟨hreads, hmin⟩
  | read limit =>
    have gains := (read_gains hs₁ (received_begins hs₁) hstep).2
      (belongs.later (embeds.reachable hs) (embeds.later hs later₁))
    have hlength := (wanted_later hs later₁).length_le
    cases hstep
    dsimp only at gains ⊢
    omega

/-- The server's telemetry is a log without gaps, and a reader by cursor misses nothing. -/
theorem telemetry_log (c : CursorSetup) {s : State} (hs : c.system.Reachable s) :
    -- The persisted sequences of an attempt are 1, 2, ..., `ack_sequence`.
    (∀ a ∈ s.store.db.attempts, 0 ≤ a.ackSequence ∧
      (s.store.db.recordsOf a.id).map (·.sequence) = upTo a.ackSequence.toNat) ∧
    (∀ t ∈ s.store.db.telemetry, ∃ a ∈ s.store.db.attempts, a.id = t.attemptId) ∧
    -- A report of whatever batch meets no stored key; it appends the first record of the batch
    -- with each sequence that continues the log.
    (∀ now id generation caller records,
      report now id generation caller records s.store.db ≠
        .error (.uniqueViolation "telemetry_pkey") ∧
      ∀ db' ack, report now id generation caller records s.store.db = .ok (db', ack) →
        ∃ accepted, accepted.Sublist records ∧
          (∀ r ∈ accepted, records.find? (fun x => x.sequence = r.sequence) = some r) ∧
          db'.recordsOf id = s.store.db.recordsOf id ++ accepted ∧
          ack = (db'.recordsOf id).length) ∧
    -- Later on nothing stored has changed and no acknowledgment has decreased.
    (∀ s', c.system.Later s s' →
      (∀ id, s.store.db.recordsOf id <+: s'.store.db.recordsOf id) ∧
      ∀ a ∈ s.store.db.attempts, ∃ a' ∈ s'.store.db.attempts,
        a'.id = a.id ∧ a.ackSequence ≤ a'.ackSequence) ∧
    -- The reader has the first of the records that it wants, each once and in order, ...
    (s.received <+: c.wanted s ∧ (s.received.map (·.sequence)).Pairwise (· < ·)) ∧
    -- ... and each further read brings it a record closer to all of them.
    (Belongs c.run c.attempt s.store.db → ∀ s', c.system.Later s s' →
      min (c.wanted s).length (s.received.length + (s'.reads - s.reads)) ≤
        s'.received.length) := by
  have hs₀ := embeds.reachable hs
  have wf := (PostgresStore.reachable_wellFormed hs₀).toWellFormed
  have gapless := gapless_reachable hs₀
  refine ⟨?_, ?_, ?_, ?_, ⟨received_begins hs, ?_⟩, ?_⟩
  · intro a ha
    have hcount := gapless.counted a ha
    have hlog := gapless.contiguous a.id
    have hlength : (s.store.db.recordsOf a.id).length = a.ackSequence.toNat := by omega
    rw [hlength] at hlog
    exact ⟨by omega, hlog⟩
  · intro t ht
    by_contra hnone
    push Not at hnone
    have hempty := gapless.absent t.attemptId hnone
    have hmem : t.record ∈ s.store.db.recordsOf t.attemptId :=
      List.mem_map_of_mem (List.mem_filter.mpr ⟨ht, by simp⟩)
    rw [hempty] at hmem
    cases hmem
  · intro now id generation caller records
    refine ⟨report_clean wf gapless now generation caller records _, fun db' ack hreport => ?_⟩
    obtain ⟨accepted, accepts, hack, _, hlog, _⟩ := report_accepts wf gapless hreport
    refine ⟨accepted, accepts.part, accepts.first, hlog, ?_⟩
    rw [hlog, hack, List.length_append]
    push_cast
    rfl
  · intro s' later
    have later₀ := embeds.later hs later
    refine ⟨recordsOf_later hs₀ later₀, fun a ha => ?_⟩
    obtain ⟨a', ha', hid, _, hack⟩ := acknowledged_later hs₀ later₀ a ha
    exact ⟨a', ha', hid, hack⟩
  · obtain ⟨rest, hrest⟩ := received_begins hs
    have increasing : Cursor.Increasing (·.sequence) (c.wanted s) := matching_increasing gapless
    rw [← hrest] at increasing
    exact List.pairwise_map.mpr (List.pairwise_append.mp increasing).1
  · exact fun belongs s' later => (reads_catch_up hs belongs later).2

end CursorSetup

namespace Sample

def reader : CursorSetup := ⟨store, runId.text, attemptId.text, "metric", "", by decide⟩

/-- A batch with a record twice, one log record among metrics, and a record after a gap. -/
def reports : List Telemetry :=
  [{ sequence := 1, kind := "metric", name := "loss" },
    { sequence := 1, kind := "metric", name := "other" },
    { sequence := 2, kind := "stdout" }, { sequence := 3, kind := "metric", name := "loss" },
    { sequence := 5, kind := "metric", name := "loss" }]

def reading : List CursorSetup.Act :=
  [.write ⟨1, .submit runId spec "key" "fingerprint"⟩,
    .write ⟨2, .registerWorker "worker" "session" ⟨4000, 4096⟩ {}⟩,
    .write ⟨3, .assign attemptId [] "worker" "session"⟩,
    .write ⟨4, .start attemptId.text 1 "runner" ""⟩,
    .write ⟨5, .report attemptId.text 1 "runner" reports⟩, .read 1]

end Sample

open Sample in
theorem CursorSetup.telemetry_log_metrics : ∃ s,
    reader.system.Reachable s ∧ s.received.map (·.sequence) = [1] ∧
    (reader.wanted s).map (·.sequence) = [1, 3] ∧
    ∀ s', reader.system.Later s s' → s.reads < s'.reads → 2 ≤ s'.received.length := by
  have reached : (reader.system.replay (fun _ _ => true) reader.system.init reading).any
      (fun s => s.received.map (·.sequence) = [1] && (reader.wanted s).map (·.sequence) = [1, 3] &&
        s.store.db.attempts.any fun a => a.id = reader.attempt && a.runId = reader.run) := by
    decide +kernel
  obtain ⟨s, hs, hstate⟩ := (Option.any_eq_true _ _).mp reached
  simp only [Bool.and_eq_true, decide_eq_true_eq, List.any_eq_true] at hstate
  obtain ⟨⟨hreceived, hwanted⟩, a, ha, hid, hrun⟩ := hstate
  refine ⟨s, System.replay_reachable hs, hreceived, hwanted, fun s' later hreads => ?_⟩
  obtain ⟨_, _, _, _, _, catchesUp⟩ := telemetry_log reader (System.replay_reachable hs)
  have gained := catchesUp ⟨a, ha, hid, hrun⟩ s' later
  have first : s.received.length = 1 := by simpa using congrArg List.length hreceived
  have both : (reader.wanted s).length = 2 := by simpa using congrArg List.length hwanted
  omega

end Runyard
