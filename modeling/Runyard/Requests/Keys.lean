import Runyard.Registry
import Runyard.Requests.Service

/-!
# Request keys

The submissions table binds the keys of runs and reruns and the sweeps table those of sweeps, so
the requests of a run are a log of a registry. Nothing else writes these tables or the columns
from which a sweep is loaded.
-/

namespace Runyard

inductive Kind where
  | run | sweep
  deriving DecidableEq

/-- The table that binds the key of the request. -/
def Request.kind : Request → Kind
  | .sweep _ => .sweep
  | _ => .run

/-- What the answers to one key have in common. -/
inductive Identity where
  | run (id : String)
  | sweep (sweep : Sweep)

def Response.identity : Response → Identity
  | .run r => .run r.id
  | .sweep s => .sweep s

/-! ## Loading a sweep -/

def bornBefore (b b' : Birth) : Prop :=
  b.createdAt < b'.createdAt ∨ b.createdAt = b'.createdAt ∧ b.id ≤ b'.id

instance : DecidableRel bornBefore := fun _ _ => inferInstanceAs (Decidable (_ ∨ _ ∧ _))

def sweepRuns (id : String) (births : List Birth) : List String :=
  ((births.filter fun b => b.sweepId = some id).insertionSort bornBefore).map (·.id)

theorem sweepRuns_births (id : String) (db : Db) :
    ((db.runs.filter fun r => r.sweepId = some id).insertionSort createdBefore).map (·.id) =
      sweepRuns id db.births := by
  have hsort := List.map_insertionSort (r := createdBefore) (s := bornBefore) RunRow.birth
    (db.runs.filter fun r => r.sweepId = some id) fun _ _ _ _ => Iff.rfl
  have hids := congrArg (List.map Birth.id) hsort
  rw [List.map_map] at hids
  rw [sweepRuns, Db.births, List.filter_map]
  exact hids

theorem loadSweep_eq (id : String) (db : Db) :
    loadSweep id db = match Table.lookup (·.id) id db.sweeps with
      | none => fault .notFound "sweep not found"
      | some row => .ok ⟨row.id, row.spec, sweepRuns id db.births, row.createdAt⟩ := by
  cases hrow : Table.lookup (·.id) id db.sweeps with
  | none => simp [loadSweep, hrow]
  | some row => simp [loadSweep, hrow, sweepRuns_births]

/-- Rows that belong to other sweeps do not show. -/
theorem sweepRuns_append {id : String} {births more : List Birth}
    (other : ∀ b ∈ more, b.sweepId ≠ some id) :
    sweepRuns id (births ++ more) = sweepRuns id births := by
  have hnone : more.filter (fun b => b.sweepId = some id) = [] :=
    List.filter_eq_nil_iff.mpr fun b hb => by simpa using other b hb
  rw [sweepRuns, sweepRuns, List.filter_append, hnone, List.append_nil]

theorem mem_sweepBirths {now : Int} {sweep : String} {randomId : Nat → RandomId} {i : Nat}
    {runs : List RunSpec} {b : Birth} (h : b ∈ sweepBirths now sweep randomId i runs) :
    b.sweepId = some sweep := by
  obtain ⟨_, _, rfl⟩ := List.mem_map.mp h
  rfl

theorem sweepBirths_spec {now : Int} {sweep : String} {randomId : Nat → RandomId} {i : Nat}
    {runs : List RunSpec} : (sweepBirths now sweep randomId i runs).map (·.spec) = runs := by
  rw [sweepBirths, List.map_map]
  exact List.zipIdx_map_fst i runs

namespace RunService

variable (c : RunService)

/-- `load_sweep` as a request returns it. -/
def load (id : String) (db : Db) : Result Sweep := do
  c.printer.readSweep (← loadSweep id db)

/-- What the tables say about a key. -/
def bindings (db : Db) : Registry.Bindings (Kind × String) String Identity
  | (.run, key) =>
    (Table.lookup (·.key) key db.submissions).map fun r => (r.fingerprint, .run r.runId)
  | (.sweep, key) => (Table.lookup (·.key) key db.sweeps).bind fun w =>
      (c.load w.id db).toOption.map fun s => (w.fingerprint, .sweep s)

/-- The rows that the keys lead to are there and can be read. -/
structure Settled (db : Db) : Prop where
  wellFormed : db.toLedger.WellFormed
  submissions : ∀ r ∈ db.submissions, ∃ b ∈ db.births, b.id = r.runId ∧
    ∃ spec, c.printer.readSpec b.spec = .ok spec
  sweeps : ∀ w ∈ db.sweeps, ∃ spec, c.printer.readSweepSpec w.spec = .ok spec
  keyed : Table.Keyed (·.id) db.sweeps
  expanded : ∀ w ∈ db.sweeps, expandSweep w.spec.base w.spec.grid =
    .ok ((db.births.filter fun b => b.sweepId = some w.id).map (·.spec))
  members : ∀ b ∈ db.births, ∀ id, b.sweepId = some id → ∃ w ∈ db.sweeps, w.id = id

/-- The request as a step of the registry. -/
def entry (a : Answer) : Registry.Entry (Kind × String) String Identity where
  key := (a.call.request.kind, a.call.key)
  fingerprint := c.fingerprint a.call.request
  valid := checked a.call = .ok ()
  outcome := match a.outcome with
    | .ok response => .accepted response.identity
    | .error (.error .conflict _) => .conflict
    | .error _ => .failed
  wrote := a.after ≠ a.before

section Tables

variable {c} {db db' : Db}

theorem load_congr (births : db'.births = db.births) (sweeps : db'.sweeps = db.sweeps)
    (id : String) : c.load id db' = c.load id db := by
  rw [load, load, loadSweep_eq, loadSweep_eq, births, sweeps]

theorem bindings_congr (births : db'.births = db.births)
    (submissions : db'.submissions = db.submissions) (sweeps : db'.sweeps = db.sweeps) :
    c.bindings db' = c.bindings db := by
  funext k
  rcases k with ⟨_ | _, key⟩
  · rw [bindings, bindings, submissions]
  · simp only [bindings, sweeps, load_congr births sweeps]

theorem Settled.congr (settled : c.Settled db) (wellFormed : db'.toLedger.WellFormed)
    (births : db'.births = db.births) (submissions : db'.submissions = db.submissions)
    (sweeps : db'.sweeps = db.sweeps) : c.Settled db' := by
  refine ⟨wellFormed, ?_, ?_, ?_, ?_, ?_⟩
  · rw [births, submissions]
    exact settled.submissions
  · rw [sweeps]
    exact settled.sweeps
  · rw [sweeps]
    exact settled.keyed
  · rw [births, sweeps]
    exact settled.expanded
  · rw [births, sweeps]
    exact settled.members

/-- Transactions that are no requests leave the keys alone. -/
theorem commit_settled (settled : c.Settled db) (now : Int) {op : Op}
    (other : op.requests = false) :
    c.Settled (c.store.commit now op db) ∧
      c.bindings (c.store.commit now op db) = c.bindings db := by
  have effect : Effect c.store now db.toLedger op (c.store.commit now op db).toLedger :=
    PostgresStore.commit_effect settled.wellFormed
  have wellFormed := effect.wellFormed settled.wellFormed
  rcases c.store.commit_cases now op db with hsame | happly
  · rw [hsame]
    exact ⟨settled, rfl⟩
  · obtain ⟨births, submissions, sweeps⟩ := apply_requests other happly
    exact ⟨settled.congr wellFormed births submissions sweeps,
      bindings_congr births submissions sweeps⟩

/-! ## Rows that can be read -/

theorem readSpec_of_stored {t : FloatText} {s stored : RunSpec}
    (h : t.storedRun s = some (.ok stored)) : t.readSpec s = .ok stored :=
  congrArg FloatText.decodedRun h

theorem readRun_ok {t : FloatText} {row : RunRow} {run : Run} (h : t.readRun row = .ok run) :
    run.id = row.id ∧ ∃ spec, t.readSpec row.spec = .ok spec := by
  obtain ⟨spec, hspec, rfl⟩ := Result.map_ok.mp h
  exact ⟨rfl, spec, hspec⟩

theorem Settled.run (settled : c.Settled db) {r : SubmissionRow} (hr : r ∈ db.submissions) :
    ∃ row run, db.run? r.runId = some row ∧ c.printer.readRun row = .ok run ∧
      run.id = r.runId := by
  obtain ⟨b, hb, hid, spec, hspec⟩ := settled.submissions r hr
  obtain ⟨row, hrow, rfl⟩ := List.mem_map.mp hb
  have hlookup : db.run? row.id = some row := settled.wellFormed.runs.lookup hrow
  exact ⟨row, row.read spec, hid ▸ hlookup, Result.map_ok.mpr ⟨spec, hspec, rfl⟩, hid⟩

theorem Settled.load (settled : c.Settled db) {w : SweepRow} (hw : w ∈ db.sweeps) :
    ∃ sweep, c.load w.id db = .ok sweep := by
  obtain ⟨spec, hspec⟩ := settled.sweeps w hw
  have hload : loadSweep w.id db = .ok ⟨w.id, w.spec, sweepRuns w.id db.births, w.createdAt⟩ := by
    rw [loadSweep_eq, settled.keyed.lookup hw]
  exact ⟨_, Result.bind_ok.mpr ⟨_, hload, Result.map_ok.mpr ⟨spec, hspec, rfl⟩⟩⟩

end Tables

/-! ## Requests with a key -/

/-- What a request with a key gets, in terms of the bindings before and after it. -/
structure KeyCall (call : Call) (db : Db) (outcome : Result (Db × Response)) : Prop where
  accepted : ∀ db' response, outcome = .ok (db', response) →
    (c.bindings db (call.request.kind, call.key) =
      some (c.fingerprint call.request, response.identity) ∧ db' = db) ∨
    c.bindings db (call.request.kind, call.key) = none ∧ c.Settled db' ∧
      c.bindings db' = Function.update (c.bindings db) (call.request.kind, call.key)
        (some (c.fingerprint call.request, response.identity)) ∧ db' ≠ db
  known : checked call = .ok () → ∀ first answer,
    c.bindings db (call.request.kind, call.key) = some (first, answer) →
      (first ≠ c.fingerprint call.request → ∃ message, outcome = fault .conflict message) ∧
      (first = c.fingerprint call.request → ∃ response, outcome = .ok (db, response))

theorem KeyCall.step {c : RunService} {db : Db} (settled : c.Settled db) {now : Int} {call : Call}
    (h : c.KeyCall call db (c.handle now call db)) :
    c.Settled (c.answer now call db).after ∧
      Registry.Step (c.bindings db) (c.entry (c.answer now call db))
        (c.bindings (c.answer now call db).after) := by
  unfold answer
  cases houtcome : c.handle now call db with
  | error e =>
    refine ⟨settled, .refused ?_ (by simp [entry]) ?_⟩
    · intro answer haccepted
      dsimp only [entry] at haccepted
      split at haccepted
      · next h => cases h
      · cases haccepted
      · cases haccepted
    · intro valid first answer hbound
      obtain ⟨hother, hsame⟩ := h.known valid first answer hbound
      have hne : first ≠ c.fingerprint call.request := by
        intro heq
        obtain ⟨_, hok⟩ := hsame heq
        cases houtcome.symm.trans hok
      obtain ⟨message, hconflict⟩ := hother hne
      cases houtcome.symm.trans hconflict
      exact ⟨hne, rfl⟩
  | ok result =>
    obtain ⟨db', response⟩ := result
    rcases h.accepted db' response houtcome with ⟨bound, rfl⟩ | ⟨free, settled', update, changed⟩
    · exact ⟨settled, .replayed bound rfl (by simp [entry])⟩
    · have created := Registry.Step.created (e := c.entry ⟨call, db, db', .ok response⟩) free rfl
        (decide_eq_true changed)
      dsimp only
      rw [update]
      exact ⟨settled', created⟩

/-! ## Requests for runs -/

/-- What a request for a run gets from the store. -/
structure RunCall (valid : Prop) (key fingerprint : String) (db : Db)
    (outcome : Result (Db × Run)) : Prop where
  accepted : ∀ db' run, outcome = .ok (db', run) →
    (∃ old, Table.lookup (·.key) key db.submissions = some old ∧
      old.fingerprint = fingerprint ∧ old.runId = run.id ∧ db' = db) ∨
    Table.lookup (·.key) key db.submissions = none ∧ db'.toLedger.WellFormed ∧
      ∃ b : Birth, b.id = run.id ∧ b.sweepId = none ∧
        (∃ spec, c.printer.readSpec b.spec = .ok spec) ∧
        db'.aside = db.aside.grow [b] [⟨key, fingerprint, run.id⟩] []
  known : valid → ∀ old, Table.lookup (·.key) key db.submissions = some old →
    (old.fingerprint ≠ fingerprint → ∃ message, outcome = fault .conflict message) ∧
    (old.fingerprint = fingerprint → ∃ run, outcome = .ok (db, run) ∧ run.id = old.runId)

section Runs

variable {c} {db : Db} (settled : c.Settled db) {now : Int} {randomId : RandomId}
  {key : String}

include settled

theorem submit_call (spec : RunSpec) (fingerprint : String) :
    c.RunCall ((do validateSubmission spec; checkKey key : Result Unit) = .ok ()) key fingerprint db
      (c.submit now randomId spec key fingerprint db) := by
  refine ⟨fun db' run h => ?_, fun valid old hold => ?_⟩
  · simp only [submit, Result.bind_ok, Result.pure_ok, Prod.mk.injEq] at h
    obtain ⟨_, _, _, _, ⟨db₁, row⟩, hsubmit, run, hread, rfl, rfl⟩ := h
    obtain ⟨hid, hspec⟩ := readRun_ok hread
    rcases submit_cases hsubmit with ⟨old, hold, hsame, hrun, hdb⟩ | ⟨hnone, hrow, hgrow⟩
    · exact .inl ⟨old, hold, hsame, (Table.lookup_mem hrun).2.symm.trans hid.symm, hdb⟩
    · have effect : Effect c.store now db.toLedger (.submit randomId spec key fingerprint)
          db₁.toLedger := submit_effect settled.wellFormed.toWellFormed hsubmit
      have outside : row.sweepId = none := by rw [hrow]; rfl
      rw [← hid] at hgrow
      exact .inr ⟨hnone, effect.wellFormed settled.wellFormed, row.birth, hid.symm, outside, hspec,
        hgrow⟩
  · obtain ⟨_, hvalidate, hkey⟩ := Result.bind_ok.mp valid
    obtain ⟨row, run, hrow, hread, hid⟩ := settled.run (Table.lookup_mem hold).1
    refine ⟨fun hother => ⟨"idempotency key already identifies another request", ?_⟩,
      fun hsame => ⟨run, ?_, hid⟩⟩
    · rw [submit, Runyard.submit, hvalidate, hkey, hold]
      simp [hother, throwIf]
      rfl
    · rw [submit, Runyard.submit, hvalidate, hkey, hold]
      simp [hsame, hrow, hread, throwIf]

theorem rerun_call (id : String) :
    c.RunCall (checkKey key = .ok ()) key (c.fingerprint (.rerun id)) db
      (c.rerun now randomId id key db) := by
  refine ⟨fun db' run h => ?_, fun valid old hold => ?_⟩
  · simp only [rerun, Result.bind_ok, Result.pure_ok, Prod.mk.injEq] at h
    obtain ⟨_, _, ⟨db₁, row⟩, hrerun, run, hread, rfl, rfl⟩ := h
    obtain ⟨hid, hspec⟩ := readRun_ok hread
    rcases rerun_cases hrerun with
      ⟨old, hold, hsame, hrun, hdb⟩ | ⟨hnone, source, _, _, hrow, hgrow⟩
    · exact .inl ⟨old, hold, hsame, (Table.lookup_mem hrun).2.symm.trans hid.symm, hdb⟩
    · have effect : Effect c.store now db.toLedger (.rerun randomId id key) db₁.toLedger :=
        rerun_effect settled.wellFormed.toWellFormed hrerun
      have outside : row.sweepId = none := by rw [hrow]; rfl
      rw [← hid] at hgrow
      exact .inr ⟨hnone, effect.wellFormed settled.wellFormed, row.birth, hid.symm, outside, hspec,
        hgrow⟩
  · obtain ⟨row, run, hrow, hread, hid⟩ := settled.run (Table.lookup_mem hold).1
    refine ⟨fun hother => ⟨"key already identifies another request", ?_⟩,
      fun hsame => ⟨run, ?_, hid⟩⟩
    · change ¬ old.fingerprint = c.store.sha256 ("rerun:" ++ id) at hother
      rw [rerun, Runyard.rerun, valid, hold]
      simp [hother, throwIf]
      rfl
    · change old.fingerprint = c.store.sha256 ("rerun:" ++ id) at hsame
      rw [rerun, Runyard.rerun, valid, hold]
      simp [hsame, hrow, hread, throwIf]

end Runs

/-- A transaction adds rows under new keys, and the other keys stay as they are. -/
theorem RunCall.created_bindings {c : RunService} {db db' : Db} {key fingerprint : String}
    {run : Run} {b : Birth} (free : Table.lookup (·.key) key db.submissions = none)
    (outside : b.sweepId = none)
    (grown : db'.aside = db.aside.grow [b] [⟨key, fingerprint, run.id⟩] []) :
    c.bindings db' = Function.update (c.bindings db) (.run, key)
      (some (fingerprint, .run run.id)) := by
  have births : db'.births = db.births ++ [b] := congrArg Aside.births grown
  have submissions : db'.submissions = db.submissions ++ [⟨key, fingerprint, run.id⟩] :=
    congrArg Aside.submissions grown
  have sweeps : db'.sweeps = db.sweeps := (congrArg Aside.sweeps grown).trans (List.append_nil _)
  funext k
  rcases k with ⟨_ | _, key'⟩
  · by_cases hkey : key' = key
    · subst hkey
      rw [Function.update_self, bindings, submissions, Table.lookup_append, free]
      simp [Table.lookup]
    · have hother : (Kind.run, key') ≠ (Kind.run, key) := fun h => hkey (Prod.mk.inj h).2
      rw [Function.update_of_ne hother, bindings, bindings, submissions, Table.lookup_append]
      simp [Table.lookup, Ne.symm hkey]
  · have hother : (Kind.sweep, key') ≠ (Kind.run, key) := by simp
    have hload : ∀ id, c.load id db' = c.load id db := by
      intro id
      have hruns : sweepRuns id db'.births = sweepRuns id db.births := by
        rw [births]
        refine sweepRuns_append fun b' hb' => ?_
        simp [List.mem_singleton.mp hb', outside]
      rw [load, load, loadSweep_eq, loadSweep_eq, hruns, sweeps]
    rw [Function.update_of_ne hother]
    simp only [bindings, sweeps, hload]

theorem Settled.created_run {c : RunService} {db db' : Db} (settled : c.Settled db)
    (wellFormed : db'.toLedger.WellFormed) {key fingerprint : String} {run : Run} {b : Birth}
    (named : b.id = run.id) (outside : b.sweepId = none)
    (readable : ∃ spec, c.printer.readSpec b.spec = .ok spec)
    (grown : db'.aside = db.aside.grow [b] [⟨key, fingerprint, run.id⟩] []) : c.Settled db' := by
  have births : db'.births = db.births ++ [b] := congrArg Aside.births grown
  have submissions : db'.submissions = db.submissions ++ [⟨key, fingerprint, run.id⟩] :=
    congrArg Aside.submissions grown
  have sweeps : db'.sweeps = db.sweeps := (congrArg Aside.sweeps grown).trans (List.append_nil _)
  refine ⟨wellFormed, ?_, sweeps ▸ settled.sweeps, sweeps ▸ settled.keyed, ?_, ?_⟩
  · rw [births, submissions]
    intro r hr
    rcases List.mem_append.mp hr with hr | hr
    · obtain ⟨b', hb', hfound⟩ := settled.submissions r hr
      exact ⟨b', List.mem_append_left _ hb', hfound⟩
    · rw [List.mem_singleton.mp hr]
      exact ⟨b, List.mem_append_right _ (List.mem_singleton_self b), named, readable⟩
  · rw [births, sweeps]
    intro w hw
    have hnone : [b].filter (fun b' => b'.sweepId = some w.id) = [] := by
      rw [List.filter_singleton, outside]
      rfl
    rw [List.filter_append, hnone, List.append_nil]
    exact settled.expanded w hw
  · rw [births, sweeps]
    intro b' hb' id hid
    rcases List.mem_append.mp hb' with hb' | hb'
    · exact settled.members b' hb' id hid
    · rw [List.mem_singleton.mp hb', outside] at hid
      cases hid

theorem RunCall.keyCall {c : RunService} {db : Db} (settled : c.Settled db) {call : Call}
    {outcome : Result (Db × Run)} (kind : call.request.kind = .run)
    (h : c.RunCall (checked call = .ok ()) call.key (c.fingerprint call.request) db outcome) :
    c.KeyCall call db (outcome.map fun r => (r.1, .run r.2)) := by
  constructor
  · intro db' response hok
    obtain ⟨⟨db₁, run⟩, rfl, heq⟩ := Result.map_ok.mp hok
    obtain ⟨rfl, rfl⟩ := Prod.mk.inj heq
    rcases h.accepted db₁ run rfl with
      ⟨old, hold, hsame, hid, rfl⟩ | ⟨free, wellFormed, b, named, outside, readable, grown⟩
    · refine .inl ⟨?_, rfl⟩
      rw [kind, bindings, hold, ← hsame]
      exact congrArg some (Prod.ext rfl (congrArg Identity.run hid))
    · refine .inr ⟨?_, settled.created_run wellFormed named outside readable grown, ?_, ?_⟩
      · rw [kind, bindings, free]
        rfl
      · rw [kind]
        exact RunCall.created_bindings free outside grown
      · intro hdb
        have hlength := congrArg (fun a => a.submissions.length) grown
        simp only [Db.aside, Aside.grow, List.length_append, List.length_singleton] at hlength
        dsimp only at hdb
        rw [hdb] at hlength
        omega
  · intro valid first answer hbound
    rw [kind, bindings] at hbound
    obtain ⟨old, hold, hpair⟩ := Option.map_eq_some_iff.mp hbound
    cases hpair
    obtain ⟨hother, hsame⟩ := h.known valid old hold
    refine ⟨fun hne => ?_, fun heq => ?_⟩
    · obtain ⟨message, hconflict⟩ := hother hne
      exact ⟨message, by rw [hconflict]; rfl⟩
    · obtain ⟨run, hok, _⟩ := hsame heq
      exact ⟨.run run, by rw [hok]; rfl⟩

/-! ## Requests for sweeps -/

section Sweeps

variable {c : RunService} {db db' : Db} (settled : c.Settled db) {w : SweepRow}
  {births : List Birth} (fresh : ∀ o ∈ db.sweeps, o.id ≠ w.id)
  (own : ∀ b ∈ births, b.sweepId = some w.id) (grown : db'.aside = db.aside.grow births [] [w])

include fresh own grown

theorem created_load {o : SweepRow} (ho : o ∈ db.sweeps) : c.load o.id db' = c.load o.id db := by
  have hbirths : db'.births = db.births ++ births := congrArg Aside.births grown
  have sweeps : db'.sweeps = db.sweeps ++ [w] := congrArg Aside.sweeps grown
  have hother : o.id ≠ w.id := fresh o ho
  have hlookup : Table.lookup (·.id) o.id db'.sweeps = Table.lookup (·.id) o.id db.sweeps := by
    rw [sweeps, Table.lookup_append]
    simp [Table.lookup, hother.symm]
  have hruns : sweepRuns o.id db'.births = sweepRuns o.id db.births := by
    rw [hbirths]
    refine sweepRuns_append fun b hb => ?_
    rw [own b hb]
    exact fun h => hother (Option.some.inj h).symm
  rw [load, load, loadSweep_eq, loadSweep_eq, hlookup, hruns]

theorem created_sweep_bindings {sweep : Sweep}
    (free : Table.lookup (·.key) w.key db.sweeps = none) (loaded : c.load w.id db' = .ok sweep) :
    c.bindings db' = Function.update (c.bindings db) (.sweep, w.key)
      (some (w.fingerprint, .sweep sweep)) := by
  have submissions : db'.submissions = db.submissions :=
    (congrArg Aside.submissions grown).trans (List.append_nil _)
  have sweeps : db'.sweeps = db.sweeps ++ [w] := congrArg Aside.sweeps grown
  funext k
  rcases k with ⟨_ | _, key'⟩
  · have hother : (Kind.run, key') ≠ (Kind.sweep, w.key) := by simp
    rw [Function.update_of_ne hother, bindings, bindings, submissions]
  · by_cases hkey : key' = w.key
    · subst hkey
      rw [Function.update_self, bindings, sweeps, Table.lookup_append, free]
      simp [Table.lookup, loaded, Except.toOption]
    · have hother : (Kind.sweep, key') ≠ (Kind.sweep, w.key) := fun h => hkey (Prod.mk.inj h).2
      have hlookup : Table.lookup (·.key) key' db'.sweeps =
          Table.lookup (·.key) key' db.sweeps := by
        rw [sweeps, Table.lookup_append]
        simp [Table.lookup, Ne.symm hkey]
      rw [Function.update_of_ne hother, bindings, bindings, hlookup]
      cases hold : Table.lookup (·.key) key' db.sweeps with
      | none => rfl
      | some o =>
        rw [Option.bind_some, Option.bind_some,
          created_load fresh own grown (Table.lookup_mem hold).1]

include settled

/-- A new sweep comes with all its runs. -/
theorem created_sweep_settled (wellFormed : db'.toLedger.WellFormed)
    (readable : ∃ spec, c.printer.readSweepSpec w.spec = .ok spec)
    (expanded : expandSweep w.spec.base w.spec.grid = .ok (births.map (·.spec))) :
    c.Settled db' := by
  have hbirths : db'.births = db.births ++ births := congrArg Aside.births grown
  have submissions : db'.submissions = db.submissions :=
    (congrArg Aside.submissions grown).trans (List.append_nil _)
  have sweeps : db'.sweeps = db.sweeps ++ [w] := congrArg Aside.sweeps grown
  refine ⟨wellFormed, ?_, ?_, ?_, ?_, ?_⟩
  · rw [hbirths, submissions]
    intro r hr
    obtain ⟨b, hb, hfound⟩ := settled.submissions r hr
    exact ⟨b, List.mem_append_left _ hb, hfound⟩
  · rw [sweeps]
    intro o ho
    rcases List.mem_append.mp ho with ho | ho
    · exact settled.sweeps o ho
    · exact List.mem_singleton.mp ho ▸ readable
  · rw [sweeps]
    exact settled.keyed.append fresh
  · rw [hbirths, sweeps]
    intro o ho
    rw [List.filter_append]
    rcases List.mem_append.mp ho with ho | ho
    · have hnone : births.filter (fun b => b.sweepId = some o.id) = [] := by
        refine List.filter_eq_nil_iff.mpr fun b hb => ?_
        rw [own b hb]
        simpa using (fresh o ho).symm
      rw [hnone, List.append_nil]
      exact settled.expanded o ho
    · rw [List.mem_singleton.mp ho]
      have hnone : db.births.filter (fun b => b.sweepId = some w.id) = [] := by
        refine List.filter_eq_nil_iff.mpr fun b hb hid => ?_
        obtain ⟨o, ho, hsame⟩ := settled.members b hb w.id (of_decide_eq_true hid)
        exact fresh o ho hsame
      have hall : births.filter (fun b => b.sweepId = some w.id) = births :=
        List.filter_eq_self.mpr fun b hb => decide_eq_true (own b hb)
      rw [hnone, hall, List.nil_append]
      exact expanded
  · rw [hbirths, sweeps]
    intro b hb id hid
    rcases List.mem_append.mp hb with hb | hb
    · obtain ⟨o, ho, hsame⟩ := settled.members b hb id hid
      exact ⟨o, List.mem_append_left _ ho, hsame⟩
    · refine ⟨w, List.mem_append_right _ (List.mem_singleton_self w), ?_⟩
      rw [own b hb] at hid
      exact Option.some.inj hid

end Sweeps

theorem sweep_call {c : RunService} {db : Db} (settled : c.Settled db) {now : Int} {call : Call}
    {spec : SweepSpec} (request : call.request = .sweep spec) :
    c.KeyCall call db ((c.sweep now call.randomId spec call.key (c.fingerprint call.request) db).map
      fun r => (r.1, .sweep r.2)) := by
  have kind : call.request.kind = .sweep := by rw [request]; rfl
  constructor
  · intro db' response hok
    obtain ⟨⟨db₁, sweep⟩, hsweep, heq⟩ := Result.map_ok.mp hok
    obtain ⟨rfl, rfl⟩ := Prod.mk.inj heq
    simp only [RunService.sweep, Result.bind_ok, Result.pure_ok, Prod.mk.injEq] at hsweep
    obtain ⟨_, _, runs, hexpand, ⟨db₂, found⟩, hsubmit, result, hread, rfl, rfl⟩ := hsweep
    dsimp only
    rcases submitSweep_cases hsubmit with
      ⟨old, hold, hsame, hload, hdb⟩ | ⟨hnone, fresh, hload, hgrow⟩
    · have loaded : c.load old.id db = .ok result := Result.bind_ok.mpr ⟨found, hload, hread⟩
      refine .inl ⟨?_, hdb⟩
      rw [kind, bindings, hold, Option.bind_some, loaded, ← hsame]
      rfl
    · have loaded : c.load (call.randomId 0).text db₂ = .ok result :=
        Result.bind_ok.mpr ⟨found, hload, hread⟩
      have own : ∀ b ∈ sweepBirths now (call.randomId 0).text call.randomId 1 runs,
          b.sweepId = some (call.randomId 0).text := fun b hb => mem_sweepBirths hb
      have free : c.bindings db (Kind.sweep, call.key) = none := by
        rw [bindings, hnone]
        rfl
      have effect : Effect c.store now db.toLedger (.submitSweep call.randomId spec runs call.key
          (c.fingerprint call.request)) db₂.toLedger :=
        submitSweep_effect settled.wellFormed.toWellFormed hsubmit
      have readable : ∃ stored, c.printer.readSweepSpec spec = .ok stored := by
        have hfound : found.spec = spec := by
          have sweeps : db₂.sweeps = db.sweeps ++ [⟨(call.randomId 0).text, spec, call.key,
            c.fingerprint call.request, now⟩] := congrArg Aside.sweeps hgrow
          have absent : Table.lookup (·.id) (call.randomId 0).text db.sweeps = none := by
            simpa [Table.lookup] using fresh
          rw [loadSweep_eq, sweeps, Table.lookup_append, absent] at hload
          simp only [Table.lookup, Option.none_or, List.find?_singleton, decide_true,
            if_true] at hload
          cases hload
          rfl
        obtain ⟨stored, hstored, _⟩ := Result.map_ok.mp hread
        exact ⟨stored, hfound ▸ hstored⟩
      rw [kind]
      refine .inr ⟨free, ?_, ?_, ?_⟩
      · refine created_sweep_settled settled fresh own hgrow
          (effect.wellFormed settled.wellFormed) readable ?_
        rw [sweepBirths_spec]
        exact hexpand
      · exact created_sweep_bindings fresh own hgrow hnone loaded
      · intro hdb
        have hlength := congrArg (fun a => a.sweeps.length) hgrow
        simp only [Db.aside, Aside.grow, List.length_append, List.length_singleton] at hlength
        rw [hdb] at hlength
        omega
  · intro valid first answer hbound
    rw [kind, bindings] at hbound
    obtain ⟨old, hold, hpair⟩ := Option.bind_eq_some_iff.mp hbound
    obtain ⟨sweep, hload, hpair⟩ := Option.map_eq_some_iff.mp hpair
    cases hpair
    rw [Except.toOption_eq_some] at hload
    rw [checked, request] at valid
    obtain ⟨_, hkey, hrest⟩ := Result.bind_ok.mp valid
    obtain ⟨runs, hexpand, _⟩ := Result.bind_ok.mp hrest
    refine ⟨fun hne => ⟨"sweep key already identifies another request", ?_⟩,
      fun heq => ⟨.sweep sweep, ?_⟩⟩
    · rw [RunService.sweep, hkey, hexpand]
      simp only [Except.ok_bind]
      unfold submitSweep
      rw [hold]
      simp [hne, throwIf]
      rfl
    · obtain ⟨found, hfound, hread⟩ := Result.bind_ok.mp hload
      rw [RunService.sweep, hkey, hexpand]
      simp only [Except.ok_bind]
      unfold submitSweep
      rw [hold]
      simp [heq, hfound, hread, throwIf]
      rfl

theorem handle_keyCall {c : RunService} {db : Db} (settled : c.Settled db) (now : Int)
    (call : Call) : c.KeyCall call db (c.handle now call db) := by
  obtain ⟨key, request, randomId⟩ := call
  cases request with
  | submit spec => exact (submit_call settled spec _).keyCall settled rfl
  | sweep spec => exact sweep_call settled rfl
  | rerun id => exact (rerun_call settled id).keyCall settled rfl

/-! ## Fingerprints -/

theorem dump_brace (t : FloatText) (fields : List (String × Json Number)) :
    (t.dump (.ofFields fields)).toList.head? = some '\x7b' := by
  rw [FloatText.dump, Json.bind_ofFields, String.toList_ofList]
  rfl

theorem dump_ne_rerun (t : FloatText) (fields : List (String × Json Number)) (id : String) :
    t.dump (.ofFields fields) ≠ "rerun:" ++ id := by
  intro h
  have hhead := dump_brace t fields
  rw [h, String.toList_append] at hhead
  cases hhead

theorem rerun_text {id id' : String} (h : "rerun:" ++ id = "rerun:" ++ id') : id = id' := by
  have hlist := congrArg String.toList h
  rw [String.toList_append, String.toList_append] at hlist
  exact String.toList_inj.mp (List.append_cancel_left hlist)

section Fingerprints

variable {c : RunService} (collisionFree : Function.Injective c.store.sha256)

include collisionFree

theorem submit_fingerprint {spec spec' : RunSpec} (hs : validate spec = .ok ())
    (hs' : validate spec' = .ok ()) (h : spec.Representable) (h' : spec'.Representable)
    (same : c.fingerprint (.submit spec) = c.fingerprint (.submit spec')) : spec = spec' := by
  have hdump := collisionFree same
  obtain ⟨j, hparse, hdecode⟩ := c.printer.parse_dump_encode hs h
  obtain ⟨j', hparse', hdecode'⟩ := c.printer.parse_dump_encode hs' h'
  rw [hdump, hparse'] at hparse
  cases hparse
  exact Except.ok.inj (hdecode.symm.trans hdecode')

theorem sweep_fingerprint {spec spec' : SweepSpec} {runs runs' : List RunSpec}
    (expanded : expandSweep spec.base spec.grid = .ok runs)
    (expanded' : expandSweep spec'.base spec'.grid = .ok runs')
    (h : spec.Representable) (h' : spec'.Representable)
    (same : c.fingerprint (.sweep spec) = c.fingerprint (.sweep spec')) : spec = spec' := by
  have hdump := collisionFree same
  obtain ⟨j, hparse, hdecode⟩ := c.printer.parse_dump_sweep (decodable_of_expanded expanded h)
    (finite_of_expanded expanded)
  obtain ⟨j', hparse', hdecode'⟩ := c.printer.parse_dump_sweep (decodable_of_expanded expanded' h')
    (finite_of_expanded expanded')
  rw [hdump, hparse'] at hparse
  cases hparse
  exact Except.ok.inj (hdecode.symm.trans hdecode')

theorem submit_rerun_fingerprint (spec : RunSpec) (id : String) :
    c.fingerprint (.submit spec) ≠ c.fingerprint (.rerun id) :=
  fun same => dump_ne_rerun c.printer spec.fields id (collisionFree same)

theorem rerun_fingerprint {id id' : String}
    (same : c.fingerprint (.rerun id) = c.fingerprint (.rerun id')) : id = id' :=
  rerun_text (collisionFree same)

end Fingerprints

/-! ## Runs of the service -/

section Runs

variable {c : RunService} {s : State}

theorem settled_empty : c.Settled {} where
  wellFormed := .empty
  submissions _ hr := (List.not_mem_nil hr).elim
  sweeps _ hw := (List.not_mem_nil hw).elim
  keyed := .nil
  expanded _ hw := (List.not_mem_nil hw).elim
  members _ hb := (List.not_mem_nil hb).elim

/-- An accepted submission returns the row that the store inserted or found. -/
theorem handle_submit {now : Int} {randomId : Nat → RandomId} {spec stored : RunSpec}
    {key : String} {db db' : Db} {row : RunRow} (hvalid : validateSubmission spec = .ok ())
    (hkey : checkKey key = .ok ())
    (hsubmit : Runyard.submit now (randomId 0) spec key (c.fingerprint (.submit spec)) db =
      .ok (db', row)) (hread : c.printer.readSpec row.spec = .ok stored) :
    c.handle now ⟨key, .submit spec, randomId⟩ db = .ok (db', .run (row.read stored)) := by
  have hrun : c.printer.readRun row = .ok (row.read stored) := by
    rw [FloatText.readRun, hread]
    rfl
  simp only [handle, submit, hvalid, hkey, hsubmit, hrun, Except.ok_bind, Except.pure_eq,
    Except.map]

theorem answer_outcome {now : Int} {call : Call} {db after : Db} {response : Response}
    (h : c.handle now call db = .ok (after, response)) :
    (c.answer now call db).outcome = .ok response := by
  rw [answer, h]

theorem answer_call (now : Int) (call : Call) (db : Db) : (c.answer now call db).call = call := by
  unfold answer
  generalize c.handle now call db = result
  rcases result with _ | _
  · rfl
  · rfl

/-- The kind of an answer is the kind of its request. -/
theorem answer_kind {now : Int} {call : Call} {db : Db} {response : Response}
    (h : (c.answer now call db).outcome = .ok response) :
    (∃ run, response = .run run ∧ call.request.kind = .run) ∨
      ∃ sweep, response = .sweep sweep ∧ call.request.kind = .sweep := by
  have handled : ∃ after, c.handle now call db = .ok (after, response) := by
    unfold answer at h
    generalize c.handle now call db = result at h
    rcases result with _ | ⟨after, found⟩
    · cases h
    · cases h
      exact ⟨after, rfl⟩
  obtain ⟨after, handled⟩ := handled
  unfold handle at handled
  split at handled
  · next spec hrequest =>
    obtain ⟨_, _, hr⟩ := Result.map_ok.mp handled
    exact .inl ⟨_, (Prod.mk.inj hr).2.symm, by rw [hrequest]; rfl⟩
  · next spec hrequest =>
    obtain ⟨_, _, hr⟩ := Result.map_ok.mp handled
    exact .inr ⟨_, (Prod.mk.inj hr).2.symm, by rw [hrequest]; rfl⟩
  · next id hrequest =>
    obtain ⟨_, _, hr⟩ := Result.map_ok.mp handled
    exact .inl ⟨_, (Prod.mk.inj hr).2.symm, by rw [hrequest]; rfl⟩

theorem step_cases {s' : State} {e : Event} (h : c.system.step s e = some s') :
    (∃ call, s' = ⟨(c.answer e.now call s.db).after, e.now,
      s.log ++ [c.answer e.now call s.db]⟩) ∨
    ∃ op, op.requests = false ∧ s' = ⟨c.store.commit e.now op s.db, e.now, s.log⟩ := by
  simp only [system] at h
  split at h
  · split at h
    · next call _ => exact .inl ⟨call, (Option.some.inj h).symm⟩
    · next op _ =>
      split at h
      · cases h
      · next other =>
        exact .inr ⟨op, Bool.eq_false_of_not_eq_true other, (Option.some.inj h).symm⟩
  · cases h

/-- What holds after every request and every other transaction. -/
structure Invariant (s : State) : Prop where
  settled : c.Settled s.db
  log : Registry.Log (s.log.map c.entry) (c.bindings s.db)
  kinds : ∀ a ∈ s.log, ∀ response, a.outcome = .ok response →
    (∃ run, response = .run run ∧ a.call.request.kind = .run) ∨
      ∃ sweep, response = .sweep sweep ∧ a.call.request.kind = .sweep

theorem reachable_invariant (hs : c.system.Reachable s) : Invariant (c := c) s := by
  refine hs.invariant (P := Invariant)
    ⟨settled_empty, ?_, fun _ ha => (List.not_mem_nil ha).elim⟩ ?_
  · have hnone : c.bindings {} = fun _ => none := by
      funext k
      rcases k with ⟨_ | _, key⟩
      · rfl
      · rfl
    change Registry.Log [] (c.bindings {})
    rw [hnone]
    exact .nil
  intro s e s' inv hstep
  rcases step_cases hstep with ⟨call, rfl⟩ | ⟨op, other, rfl⟩
  · obtain ⟨settled, step⟩ := (handle_keyCall inv.settled e.now call).step inv.settled
    refine ⟨settled, ?_, fun a ha response hok => ?_⟩
    · rw [List.map_append, List.map_singleton]
      exact .snoc inv.log step
    · rcases List.mem_append.mp ha with ha | ha
      · exact inv.kinds a ha response hok
      · rw [List.mem_singleton.mp ha] at hok ⊢
        rw [answer_call e.now call s.db]
        exact answer_kind hok
  · obtain ⟨settled, same⟩ := commit_settled inv.settled e.now other
    refine ⟨settled, ?_, inv.kinds⟩
    dsimp only
    rw [same]
    exact inv.log

theorem entry_accepted {a : Answer} {response : Response} (hok : a.outcome = .ok response) :
    (c.entry a).outcome = .accepted response.identity := by
  simp only [entry, hok]

theorem entry_answered {a : Answer} {answer : Identity}
    (h : (c.entry a).outcome = .accepted answer) :
    ∃ response, a.outcome = .ok response ∧ response.identity = answer := by
  simp only [entry] at h
  split at h
  · next response hok =>
    cases h
    exact ⟨response, hok, rfl⟩
  · cases h
  · cases h

theorem entry_conflict {a : Answer} (h : (c.entry a).outcome = .conflict) :
    ∃ message, a.outcome = fault .conflict message := by
  simp only [entry] at h
  split at h
  · cases h
  · next message hconflict => exact ⟨message, hconflict⟩
  · cases h

section Log

variable (inv : Invariant (c := c) s) {a b : Answer} (ha : a ∈ s.log) (hb : b ∈ s.log)

include inv ha

theorem Invariant.run_kind {run : Run} (hok : a.outcome = .ok (.run run)) :
    a.call.request.kind = .run := by
  rcases inv.kinds a ha _ hok with ⟨_, _, kind⟩ | ⟨_, hsweep, _⟩
  · exact kind
  · cases hsweep

theorem Invariant.sweep_kind {sweep : Sweep} (hok : a.outcome = .ok (.sweep sweep)) :
    a.call.request.kind = .sweep := by
  rcases inv.kinds a ha _ hok with ⟨_, hrun, _⟩ | ⟨_, _, kind⟩
  · cases hrun
  · exact kind

include hb in
theorem Invariant.same_identity (kind : a.call.request.kind = b.call.request.kind)
    (key : a.call.key = b.call.key) {response response' : Response}
    (hok : a.outcome = .ok response) (hok' : b.outcome = .ok response') :
    response.identity = response'.identity :=
  inv.log.agree (List.mem_map_of_mem ha) (List.mem_map_of_mem hb) (Prod.ext kind key)
    (entry_accepted hok) (entry_accepted hok')

end Log

end Runs

/-- The first request that succeeds with a key creates its rows and every later one with the same
fingerprint gets the same run or sweep, whatever other transactions do in between. A request with
another fingerprint conflicts, and only the first success writes. -/
theorem request_keys (c : RunService) (collisionFree : Function.Injective c.store.sha256)
    {s : State} (hs : c.system.Reachable s) :
    (∀ a ∈ s.log, ∀ b ∈ s.log, a.call.key = b.call.key →
      (∀ run run', a.outcome = .ok (.run run) → b.outcome = .ok (.run run') → run.id = run'.id) ∧
      (∀ sweep sweep', a.outcome = .ok (.sweep sweep) → b.outcome = .ok (.sweep sweep') →
        sweep = sweep')) ∧
    (∀ a ∈ s.log, ∀ response, a.outcome = .ok response →
      s.log.countP (fun b => b.call.request.kind = a.call.request.kind ∧
        b.call.key = a.call.key ∧ b.after ≠ b.before) = 1) ∧
    (s.log.Pairwise fun a b => a.call.request.kind = b.call.request.kind →
      a.call.key = b.call.key → ∀ response, a.outcome = .ok response →
        b.after = b.before ∧ (checked b.call = .ok () →
          (c.fingerprint a.call.request = c.fingerprint b.call.request →
            ∃ response', b.outcome = .ok response' ∧ response'.identity = response.identity) ∧
          (c.fingerprint a.call.request ≠ c.fingerprint b.call.request →
            ∃ message, b.outcome = fault .conflict message))) ∧
    (∀ spec id, c.fingerprint (.submit spec) ≠ c.fingerprint (.rerun id)) ∧
    (∀ id id', c.fingerprint (.rerun id) = c.fingerprint (.rerun id') → id = id') ∧
    (∀ spec spec' : RunSpec, validateSubmission spec = .ok () → validateSubmission spec' = .ok () →
      spec.Representable → spec'.Representable →
        c.fingerprint (.submit spec) = c.fingerprint (.submit spec') → spec = spec') ∧
    (∀ (spec spec' : SweepSpec) (runs runs' : List RunSpec),
      expandSweep spec.base spec.grid = .ok runs → expandSweep spec'.base spec'.grid = .ok runs' →
        spec.Representable → spec'.Representable →
          c.fingerprint (.sweep spec) = c.fingerprint (.sweep spec') → spec = spec') ∧
    (∀ a ∈ s.log, (∀ response, a.outcome ≠ .ok response) → a.after = a.before) ∧
    (∀ w ∈ s.db.sweeps, expandSweep w.spec.base w.spec.grid =
      .ok ((s.db.runs.filter fun r => r.sweepId = some w.id).map (·.spec))) ∧
    ∀ r ∈ s.db.runs, ∀ id, r.sweepId = some id → ∃ w ∈ s.db.sweeps, w.id = id := by
  have inv := reachable_invariant hs
  refine ⟨fun a ha b hb key => ⟨?_, ?_⟩, ?_, ?_, submit_rerun_fingerprint collisionFree,
    fun _ _ => rerun_fingerprint collisionFree, ?_,
    fun _ _ _ _ expanded expanded' => sweep_fingerprint collisionFree expanded expanded', ?_, ?_,
    ?_⟩
  · intro run run' hok hok'
    have kind := (inv.run_kind ha hok).trans (inv.run_kind hb hok').symm
    exact Identity.run.inj (inv.same_identity ha hb kind key hok hok')
  · intro sweep sweep' hok hok'
    have kind := (inv.sweep_kind ha hok).trans (inv.sweep_kind hb hok').symm
    exact Identity.sweep.inj (inv.same_identity ha hb kind key hok hok')
  · intro a ha response hok
    have bound := inv.log.bound (List.mem_map_of_mem ha) (entry_accepted hok)
    have count := inv.log.count_wrote (c.entry a).key
    rw [bound, List.countP_map] at count
    refine Eq.trans (List.countP_congr fun b hb => ?_) count
    simp [entry, Prod.ext_iff, and_assoc]
  · refine (List.pairwise_map.mp inv.log.later).imp_of_mem ?_
    intro a b ha hb later kind key response hok
    obtain ⟨silent, known⟩ := later (Prod.ext kind key) _ (entry_accepted hok)
    refine ⟨by simpa [entry] using silent, fun valid => ?_⟩
    obtain ⟨replayed, refused⟩ := known valid
    exact ⟨fun same => entry_answered (replayed same), fun other => entry_conflict (refused other)⟩
  · intro spec spec' hs hs' h h'
    obtain ⟨_, hvalidate, _⟩ := Result.bind_ok.mp hs
    obtain ⟨_, hvalidate', _⟩ := Result.bind_ok.mp hs'
    exact submit_fingerprint collisionFree hvalidate hvalidate' h h'
  · intro a ha unanswered
    have silent := inv.log.silent (List.mem_map_of_mem ha) fun answer haccepted => by
      obtain ⟨response, hok, _⟩ := entry_answered haccepted
      exact unanswered response hok
    simpa [entry] using silent
  · intro w hw
    have expanded := inv.settled.expanded w hw
    rw [Db.births, List.filter_map, List.map_map] at expanded
    exact expanded
  · intro r hr id hid
    exact inv.settled.members r.birth (List.mem_map_of_mem hr) id hid

end RunService

namespace Sample

def service : RunService := ⟨store, FloatText.exact⟩

def submitting : Call := ⟨"key", .submit spec, fun _ => runId⟩

/-- A rerun under the key of a submission. -/
def rerunning : Call := ⟨"key", .rerun runId.text, fun _ => attemptId⟩

def requestedOnce : RunService.State :=
  ⟨(service.answer 1 submitting {}).after, 1, [service.answer 1 submitting {}]⟩

def requestedTwice : RunService.State :=
  ⟨(service.answer 2 rerunning requestedOnce.db).after, 2,
    [service.answer 1 submitting {}, service.answer 2 rerunning requestedOnce.db]⟩

theorem requestedTwice_reachable : service.system.Reachable requestedTwice := by
  have first : service.system.Reachable requestedOnce :=
    System.reachable_init.step (e := ⟨1, .call submitting⟩) rfl
  exact first.step (e := ⟨2, .call rerunning⟩) rfl

theorem spec_read : FloatText.exact.readSpec spec = .ok spec.value := by
  have nothing : spec.parameters.entries = [] := rfl
  have empty : ∀ e ∈ spec.parameters.entries, False := by
    rw [nothing]
    exact fun _ he => List.not_mem_nil he
  have valid : validate spec = .ok () := by decide +kernel
  have stored := FloatText.exact.decodeSpec_restored valid (fun e he => (empty e he).elim)
    fun e he => (empty e he).elim
  exact RunService.readSpec_of_stored
    ((FloatText.exact.storedRun_eq valid).trans (congrArg some stored))

theorem submit_first (fingerprint : String) : ∃ db row,
    submit 1 runId spec "key" fingerprint {} = .ok (db, row) ∧ row.spec = spec := by
  have hvalid : validateSubmission spec = .ok () := by decide +kernel
  unfold submit
  rw [hvalid]
  exact ⟨_, _, rfl, rfl⟩

theorem submitting_accepted :
    ∃ response, (service.answer 1 submitting {}).outcome = .ok response := by
  obtain ⟨db, row, hsubmit, hspec⟩ := submit_first (service.fingerprint (.submit spec))
  have hread : FloatText.exact.readSpec row.spec = .ok spec.value :=
    (congrArg FloatText.exact.readSpec hspec).trans spec_read
  have handled : service.handle 1 submitting {} = .ok (db, .run (row.read spec.value)) :=
    RunService.handle_submit (by decide +kernel) (by decide +kernel) hsubmit hread
  exact ⟨_, RunService.answer_outcome handled⟩

end Sample

/-- The rerun is refused although it names the run that the key created. -/
theorem RunService.request_keys_rerun :
    ∃ message, (Sample.service.answer 2 Sample.rerunning Sample.requestedOnce.db).outcome =
      fault .conflict message := by
  have collisionFree : Function.Injective Sample.service.store.sha256 := Function.injective_id
  obtain ⟨_, _, later, differs, _⟩ :=
    request_keys Sample.service collisionFree Sample.requestedTwice_reachable
  obtain ⟨response, hok⟩ := Sample.submitting_accepted
  have refused := List.pairwise_pair.mp later
  rw [answer_call, answer_call] at refused
  have checked : RunService.checked Sample.rerunning = .ok () := by decide +kernel
  exact ((refused rfl rfl response hok).2 checked).2 (differs Sample.spec Sample.runId.text)

end Runyard
