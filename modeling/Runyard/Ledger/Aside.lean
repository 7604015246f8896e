import Runyard.Ledger.Frame

/-!
# The rows that only grow

Which transaction writes which of the tables of submissions, sweeps, telemetry and artifacts, and
which one inserts runs. Of a run only the columns of its `birth` are looked at, which no
transaction rewrites.
-/

namespace Runyard

/-- The calls that create runs. -/
def Op.requests : Op → Bool
  | .submit .. | .submitSweep .. | .rerun .. => true
  | _ => false

/-- The tables outside the ledger, with the births of all runs. -/
structure Aside where
  births : List Birth
  submissions : List SubmissionRow
  sweeps : List SweepRow
  telemetry : List TelemetryRow
  artifacts : List Artifact

def Db.aside (db : Db) : Aside :=
  ⟨db.births, db.submissions, db.sweeps, db.telemetry, db.artifacts⟩

namespace Aside

/-- Rows added to the tables of requests. -/
def grow (a : Aside) (births : List Birth) (submissions : List SubmissionRow)
    (sweeps : List SweepRow) : Aside :=
  { a with
    births := a.births ++ births
    submissions := a.submissions ++ submissions
    sweeps := a.sweeps ++ sweeps }

@[simp] theorem grow_grow (a : Aside) (births births' : List Birth)
    (submissions submissions' : List SubmissionRow) (sweeps sweeps' : List SweepRow) :
    (a.grow births submissions sweeps).grow births' submissions' sweeps' =
      a.grow (births ++ births') (submissions ++ submissions') (sweeps ++ sweeps') := by
  simp only [grow, List.append_assoc]

@[simp] theorem grow_nil (a : Aside) : a.grow [] [] [] = a := by
  simp only [grow, List.append_nil]

end Aside

section Primitives

variable {db db' : Db} {now : Int} {id : String}

theorem aside_frame : Db.Frame Db.aside where
  runs db _ h := congrArg (fun births => { db.aside with births }) h
  attempts _ _ := rfl
  events _ _ := rfl
  attemptGpus _ _ := rfl

theorem insertRun_aside {row : RunRow} (h : db.insertRun row = .ok db') :
    db'.aside = db.aside.grow [row.birth] [] [] := by
  obtain ⟨_, rfl⟩ := insertRun_ok h
  simp [Db.aside, Db.births, Aside.grow]

theorem insertSubmission_aside {row : SubmissionRow} (h : db.insertSubmission row = .ok db') :
    db'.aside = db.aside.grow [] [row] [] := by
  unfold Db.insertSubmission at h
  split at h
  · cases h
  · cases h
    simp [Db.aside, Db.births, Aside.grow]

theorem insertSweep_aside {row : SweepRow} (h : db.insertSweep row = .ok db') :
    (∀ w ∈ db.sweeps, w.id ≠ row.id) ∧ db'.aside = db.aside.grow [] [] [row] := by
  unfold Db.insertSweep at h
  split at h
  · cases h
  · next fresh =>
    split at h
    · cases h
    · cases h
      refine ⟨by simpa using fresh, ?_⟩
      simp [Db.aside, Db.births, Aside.grow]

theorem insertArtifact_aside {row : Artifact} (h : db.insertArtifact row = .ok db') :
    db'.aside = { db.aside with artifacts := db.artifacts ++ [row] } := by
  unfold Db.insertArtifact at h
  split at h
  · cases h
  split at h
  · cases h
  · cases h
    rfl

/-- The births of the runs that the loop of `submit_sweep` inserts. -/
def sweepBirths (now : Int) (sweep : String) (randomId : Nat → RandomId) (i : Nat)
    (runs : List RunSpec) : List Birth :=
  (runs.zipIdx i).map fun e => ⟨(randomId e.2).text, e.1, some sweep, now⟩

theorem insertSweepRuns_aside {sweep : String} {randomId : Nat → RandomId} {i : Nat}
    {runs : List RunSpec} (h : insertSweepRuns now sweep randomId i runs db = .ok db') :
    db'.aside = db.aside.grow (sweepBirths now sweep randomId i runs) [] [] := by
  induction runs generalizing i db with
  | nil =>
    cases h
    exact (Aside.grow_nil _).symm
  | cons run rest ih =>
    simp only [insertSweepRuns, Result.bind_ok] at h
    obtain ⟨_, _, db₁, hinsert, db₂, hevent, hrest⟩ := h
    rw [ih hrest, aside_frame.event hevent, insertRun_aside hinsert, Aside.grow_grow]
    rfl

theorem upsertDevices_aside {worker : String} {devices : List GpuDevice}
    (h : upsertDevices now worker devices db = .ok db') : db'.aside = db.aside := by
  induction devices generalizing db with
  | nil =>
    cases h
    rfl
  | cons device rest ih =>
    obtain ⟨db₁, hupsert, hrest⟩ := Result.bind_ok.mp h
    refine (ih hrest).trans ?_
    unfold upsertDevice at hupsert
    split at hupsert
    · cases hupsert
      rfl
    · simp only [Result.bind_ok, Result.pure_ok] at hupsert
      obtain ⟨_, _, rfl⟩ := hupsert
      rfl

end Primitives

section Operations

variable {p : PostgresStore} {db db' : Db} {now : Int} {id : String}

/-- A call with a known key writes nothing; a new key gets a run. -/
theorem submit_cases {randomId : RandomId} {spec : RunSpec} {key fingerprint : String}
    {r : RunRow} (h : submit now randomId spec key fingerprint db = .ok (db', r)) :
    (∃ old, Table.lookup (·.key) key db.submissions = some old ∧ old.fingerprint = fingerprint ∧
      db.run? old.runId = some r ∧ db' = db) ∨
    Table.lookup (·.key) key db.submissions = none ∧ r = newRun now randomId spec ∧
      db'.aside = db.aside.grow [r.birth] [⟨key, fingerprint, r.id⟩] [] := by
  obtain ⟨_, _, h⟩ := Result.bind_ok.mp h
  split at h
  · next old hold =>
    obtain ⟨_, hsame, h⟩ := Result.bind_ok.mp h
    split at h
    · cases h
    · next run hrun =>
      cases h
      exact .inl ⟨old, hold, by simpa using hsame, hrun, rfl⟩
  · next hnone =>
    simp only [Result.bind_ok, Result.pure_ok, Prod.mk.injEq] at h
    obtain ⟨db₁, hrun, db₂, hsubmission, db₃, hevent, rfl, rfl⟩ := h
    refine .inr ⟨hnone, rfl, ?_⟩
    rw [aside_frame.event hevent, insertSubmission_aside hsubmission, insertRun_aside hrun,
      Aside.grow_grow]
    rfl

theorem rerun_cases {randomId : RandomId} {sha256 : String → String} {key : String}
    {r : RunRow} (h : rerun now randomId sha256 id key db = .ok (db', r)) :
    (∃ old, Table.lookup (·.key) key db.submissions = some old ∧
      old.fingerprint = sha256 ("rerun:" ++ id) ∧ db.run? old.runId = some r ∧ db' = db) ∨
    Table.lookup (·.key) key db.submissions = none ∧
      ∃ source, db.run? id = some source ∧ source.status.terminal ∧
        r = { newRun now randomId source.spec with parentRunId := some id } ∧
          db'.aside = db.aside.grow [r.birth] [⟨key, sha256 ("rerun:" ++ id), r.id⟩] [] := by
  simp only [rerun] at h
  split at h
  · next old hold =>
    obtain ⟨_, hsame, h⟩ := Result.bind_ok.mp h
    split at h
    · cases h
    · next run hrun =>
      cases h
      exact .inl ⟨old, hold, by simpa using hsame, hrun, rfl⟩
  · next hnone =>
    split at h
    · cases h
    · next source hsource =>
      simp only [Result.bind_ok, Result.pure_ok, Prod.mk.injEq] at h
      obtain ⟨_, hterminal, _, _, db₁, hrun, db₂, hsubmission, db₃, hevent, rfl, rfl⟩ := h
      refine .inr ⟨hnone, source, hsource, by simpa using hterminal, rfl, ?_⟩
      rw [aside_frame.event hevent, insertSubmission_aside hsubmission, insertRun_aside hrun,
        Aside.grow_grow]
      rfl

theorem submitSweep_cases {randomId : Nat → RandomId} {spec : SweepSpec}
    {runs : List RunSpec} {key fingerprint : String} {sweep : Sweep}
    (h : submitSweep now randomId spec runs key fingerprint db = .ok (db', sweep)) :
    (∃ old, Table.lookup (·.key) key db.sweeps = some old ∧ old.fingerprint = fingerprint ∧
      loadSweep old.id db = .ok sweep ∧ db' = db) ∨
    Table.lookup (·.key) key db.sweeps = none ∧ (∀ w ∈ db.sweeps, w.id ≠ (randomId 0).text) ∧
      loadSweep (randomId 0).text db' = .ok sweep ∧
        db'.aside = db.aside.grow (sweepBirths now (randomId 0).text randomId 1 runs) []
          [⟨(randomId 0).text, spec, key, fingerprint, now⟩] := by
  unfold submitSweep at h
  split at h
  · next old hold =>
    simp only [Result.bind_ok, Result.pure_ok, Prod.mk.injEq] at h
    obtain ⟨_, hsame, _, hload, rfl, rfl⟩ := h
    exact .inl ⟨old, hold, by simpa using hsame, hload, rfl⟩
  · next hnone =>
    simp only [Result.bind_ok, Result.pure_ok, Prod.mk.injEq] at h
    obtain ⟨db₁, hsweep, db₂, hruns, _, hload, rfl, rfl⟩ := h
    obtain ⟨fresh, hinserted⟩ := insertSweep_aside hsweep
    refine .inr ⟨hnone, fresh, hload, ?_⟩
    rw [insertSweepRuns_aside hruns, hinserted, Aside.grow_grow]
    rfl

theorem insertRecords_aside {records : List Telemetry} {sequence next : Int}
    (h : insertRecords id records sequence db = .ok (db', next)) :
    ∃ rows, db'.aside = { db.aside with telemetry := db.telemetry ++ rows } := by
  induction records generalizing sequence db with
  | nil =>
    cases h
    exact ⟨[], by rw [List.append_nil]; rfl⟩
  | cons r rest ih =>
    rw [insertRecords] at h
    split at h
    · exact ih h
    split at h
    · cases h
      exact ⟨[], by rw [List.append_nil]; rfl⟩
    · obtain ⟨db₁, hinsert, hrest⟩ := Result.bind_ok.mp h
      obtain ⟨rows, hrows⟩ := ih hrest
      unfold Db.insertTelemetry at hinsert
      split at hinsert
      · cases hinsert
      · cases hinsert
        refine ⟨⟨id, r⟩ :: rows, hrows.trans ?_⟩
        rw [← List.singleton_append (l := rows), ← List.append_assoc]
        rfl

theorem report_aside {generation ack : Int} {caller : String} {records : List Telemetry}
    (h : report now id generation caller records db = .ok (db', ack)) :
    ∃ rows, db'.aside = { db.aside with telemetry := db.telemetry ++ rows } := by
  simp only [report, Result.bind_ok] at h
  obtain ⟨_, _, _, _, _, _, ⟨db₂, next⟩, hinsert, hreturn⟩ := h
  simp only [Result.pure_ok, Prod.mk.injEq] at hreturn
  obtain ⟨rfl, _⟩ := hreturn
  obtain ⟨rows, hrows⟩ := insertRecords_aside hinsert
  exact ⟨rows, hrows⟩

theorem publishArtifact_cases {value result : Artifact} {generation : Int} {caller : String}
    (h : publishArtifact now value generation caller db = .ok (db', result)) :
    db' = db ∧ result ∈ db.artifacts ∨ db.insertArtifact value = .ok db' ∧ result = value := by
  simp only [publishArtifact, Result.bind_ok] at h
  obtain ⟨_, _, _, _, h⟩ := h
  split at h
  · next old hfind =>
    obtain ⟨_, _, h⟩ := Result.bind_ok.mp h
    cases h
    exact .inl ⟨rfl, List.mem_of_mem_filter (List.mem_of_find?_eq_some hfind)⟩
  · simp only [Result.bind_ok, Result.pure_ok, Prod.mk.injEq] at h
    obtain ⟨_, _, db₂, hinsert, rfl, rfl⟩ := h
    exact .inr ⟨hinsert, rfl⟩

theorem reportGpuInventory_aside {worker session : String} {snapshot : GpuSnapshot}
    (h : reportGpuInventory now worker session snapshot db = .ok db') :
    db'.aside = db.aside := by
  simp only [reportGpuInventory, Result.bind_ok] at h
  obtain ⟨_, _, _, _, _, _, _, _, h⟩ := h
  split at h
  · cases h
    rfl
  split at h
  · simp only [Result.bind_ok, Result.pure_ok] at h
    obtain ⟨db₁, hdevices, rfl⟩ := h
    have written := upsertDevices_aside hdevices
    exact written
  · cases h
    rfl

theorem apply_aside {op : Op} (inside : op.writesAside = false)
    (h : p.apply now op db = .ok db') : db'.aside = db.aside := by
  cases hworker : op.writesWorkers with
  | false => exact aside_frame.apply inside hworker h
  | true => cases op with
    | registerWorker =>
      simp only [PostgresStore.apply, registerWorker, Result.bind_ok] at h
      obtain ⟨_, _, h⟩ := h
      split at h
      · cases h
        rfl
      · obtain ⟨_, _, h⟩ := Result.bind_ok.mp h
        cases h
        rfl
    | workerHeartbeat =>
      obtain ⟨_, _, h⟩ := Result.bind_ok.mp h
      cases h
      rfl
    | drainWorker =>
      simp only [PostgresStore.apply, drainWorker] at h
      split at h
      · cases h
      · cases h
        rfl
    | reportGpuInventory => exact reportGpuInventory_aside h
    | _ => cases hworker

theorem apply_grow {op : Op} (requests : op.requests) (h : p.apply now op db = .ok db') :
    ∃ births submissions sweeps, db'.aside = db.aside.grow births submissions sweeps := by
  have unchanged : ∃ births submissions sweeps,
      db.aside = db.aside.grow births submissions sweeps := ⟨[], [], [], (Aside.grow_nil _).symm⟩
  cases op with
  | submit =>
    obtain ⟨⟨db₁, r⟩, hcall, rfl⟩ := Result.map_ok.mp h
    rcases submit_cases hcall with ⟨_, _, _, _, rfl⟩ | ⟨_, _, hgrow⟩
    · exact unchanged
    · exact ⟨_, _, _, hgrow⟩
  | submitSweep =>
    obtain ⟨⟨db₁, r⟩, hcall, rfl⟩ := Result.map_ok.mp h
    rcases submitSweep_cases hcall with ⟨_, _, _, _, rfl⟩ | ⟨_, _, _, hgrow⟩
    · exact unchanged
    · exact ⟨_, _, _, hgrow⟩
  | rerun =>
    obtain ⟨⟨db₁, r⟩, hcall, rfl⟩ := Result.map_ok.mp h
    rcases rerun_cases hcall with ⟨_, _, _, _, rfl⟩ | ⟨_, _, _, _, _, hgrow⟩
    · exact unchanged
    · exact ⟨_, _, _, hgrow⟩
  | _ => cases requests

/-- Only `report` writes telemetry. -/
theorem apply_telemetry {op : Op} (other : op.reports? = none)
    (h : p.apply now op db = .ok db') : db'.telemetry = db.telemetry := by
  cases hop : op.writesAside with
  | false => exact congrArg Aside.telemetry (apply_aside hop h)
  | true => cases op with
    | submit | submitSweep | rerun =>
      obtain ⟨_, _, _, hgrow⟩ := apply_grow rfl h
      exact congrArg Aside.telemetry hgrow
    | publishArtifact =>
      obtain ⟨⟨db₁, x⟩, hcall, rfl⟩ := Result.map_ok.mp h
      rcases publishArtifact_cases hcall with ⟨rfl, _⟩ | ⟨hinsert, _⟩
      · rfl
      · exact congrArg Aside.telemetry (insertArtifact_aside hinsert)
    | report => cases other
    | _ => cases hop

/-- Only `publishArtifact` writes artifacts. -/
theorem apply_artifacts {op : Op} (other : op.publishes = false)
    (h : p.apply now op db = .ok db') : db'.artifacts = db.artifacts := by
  cases hop : op.writesAside with
  | false => exact congrArg Aside.artifacts (apply_aside hop h)
  | true => cases op with
    | submit | submitSweep | rerun =>
      obtain ⟨_, _, _, hgrow⟩ := apply_grow rfl h
      exact congrArg Aside.artifacts hgrow
    | report =>
      obtain ⟨⟨db₁, x⟩, hcall, rfl⟩ := Result.map_ok.mp h
      obtain ⟨rows, hrows⟩ := report_aside hcall
      exact congrArg Aside.artifacts hrows
    | publishArtifact => cases other
    | _ => cases hop

/-- Only the requests insert runs, submissions and sweeps. -/
theorem apply_requests {op : Op} (other : op.requests = false)
    (h : p.apply now op db = .ok db') :
    db'.births = db.births ∧ db'.submissions = db.submissions ∧ db'.sweeps = db.sweeps := by
  have of_aside : ∀ {a : Aside}, a.births = db.births → a.submissions = db.submissions →
      a.sweeps = db.sweeps → db'.aside = a →
        db'.births = db.births ∧ db'.submissions = db.submissions ∧ db'.sweeps = db.sweeps :=
    fun births submissions sweeps same => ⟨(congrArg Aside.births same).trans births,
      (congrArg Aside.submissions same).trans submissions,
      (congrArg Aside.sweeps same).trans sweeps⟩
  cases hop : op.writesAside with
  | false => exact of_aside rfl rfl rfl (apply_aside hop h)
  | true => cases op with
    | report =>
      obtain ⟨⟨db₁, x⟩, hcall, rfl⟩ := Result.map_ok.mp h
      obtain ⟨rows, hrows⟩ := report_aside hcall
      exact of_aside rfl rfl rfl hrows
    | publishArtifact =>
      obtain ⟨⟨db₁, x⟩, hcall, rfl⟩ := Result.map_ok.mp h
      rcases publishArtifact_cases hcall with ⟨rfl, _⟩ | ⟨hinsert, _⟩
      · exact ⟨rfl, rfl, rfl⟩
      · exact of_aside rfl rfl rfl (insertArtifact_aside hinsert)
    | submit | submitSweep | rerun => cases other
    | _ => cases hop

theorem commit_artifacts (op : Op) : db.artifacts <+: (p.commit now op db).artifacts := by
  rcases p.commit_cases now op db with hsame | happly
  · exact hsame.symm ▸ List.prefix_rfl
  cases hop : op.publishes with
  | false => exact apply_artifacts hop happly ▸ List.prefix_rfl
  | true => cases op with
    | publishArtifact value generation caller =>
      obtain ⟨⟨db₁, row⟩, hcall, heq⟩ := Result.map_ok.mp happly
      rw [← heq]
      rcases publishArtifact_cases hcall with ⟨rfl, _⟩ | ⟨hinsert, _⟩
      · exact List.prefix_rfl
      · exact ⟨[value], (congrArg Aside.artifacts (insertArtifact_aside hinsert)).symm⟩
    | _ => cases hop

end Operations

/-- Rows of artifacts are never changed. -/
theorem PostgresStore.artifacts_later {p : PostgresStore} {s s' : PostgresStore.State}
    (hs : p.system.Reachable s) (run : p.system.Later s s') :
    s.db.artifacts <+: s'.db.artifacts := by
  refine run.relation hs (R := fun s s' => s.db.artifacts <+: s'.db.artifacts) ?_ ?_ ?_
  · exact fun _ => List.prefix_rfl
  · exact fun _ _ _ first second => first.trans second
  intro s e s' _ _ hstep
  obtain ⟨_, rfl⟩ := p.step_eq hstep
  exact commit_artifacts e.op

end Runyard
