import Runyard.Fleet.Attempts
import Runyard.Ledger.Reader
import Runyard.Run.Completion
import Runyard.Run.Fencing
import Runyard.Run.Retry

/-!
# Following logs

`show_logs` asks for the run and for a page of the logs of the selected attempt in turn, while the
transactions of the coordinator go on. The handler of the logs reads the run again before it reads
the telemetry.
-/

namespace Runyard

/-! ## The logs of an attempt -/

/-- The log records of an attempt of the run. -/
def logsOf (run attempt : String) (db : Db) : List Telemetry :=
  if db.attempts.any fun a => a.id = attempt && a.runId = run then matching attempt "logs" "" db
  else []

/-- The attempt that an answer about `name` is about. -/
def target (run name : String) (db : Db) : String :=
  if name = "" then text ((db.run? run).bind (·.activeAttempt)) else name

section Logs

variable {db : Db} {run attempt name : String}

theorem belongs_iff : Belongs run attempt db ↔
    db.attempts.any fun a => a.id = attempt && a.runId = run := by
  simp [Belongs]

theorem logsOf_increasing (gapless : Gapless db) :
    Cursor.Increasing (·.sequence) (logsOf run attempt db) := by
  unfold logsOf
  split
  · exact matching_increasing gapless
  · exact List.Pairwise.nil

theorem logsOf_positive (gapless : Gapless db) : ∀ r ∈ logsOf run attempt db, 0 < r.sequence := by
  unfold logsOf
  split
  · exact matching_positive gapless
  · simp

theorem logsOf_unnamed (wf : db.toJournal.WellFormed) : logsOf run "" db = [] := by
  unfold logsOf
  split
  next known =>
    obtain ⟨a, ha, hid, _⟩ := belongs_iff.mpr known
    exact absurd hid (wf.named a ha)
  · rfl

theorem selects_target (wf : db.toJournal.WellFormed) (id : String) :
    selects run name id db ↔ id = target run name db ∧ Belongs run (target run name db) db := by
  by_cases named : name = ""
  swap
  · rw [selects_iff wf named, target, if_neg named]
  subst named
  simp only [selects, target, List.any_eq_true, Bool.and_eq_true, decide_eq_true_eq, if_pos]
  constructor
  · rintro ⟨a, ha, rfl, r, hr, ⟨hrun, rfl⟩, active⟩
    have found : db.run? r.id = some r := wf.runs.lookup hr
    simp only [found, Option.bind_some, active, text_some, true_and]
    exact ⟨a, ha, rfl, hrun.symm⟩
  · rintro ⟨rfl, a, ha, hid, rfl⟩
    obtain ⟨r, hr, hrun⟩ := wf.attemptRun a ha
    have found : db.run? a.runId = some r := hrun ▸ wf.runs.lookup hr
    rw [found, Option.bind_some] at hid ⊢
    exact ⟨a, ha, hid, r, hr, ⟨hrun, hrun⟩, text_eq hid.symm (wf.named a ha)⟩

/-- An answer is a page of the logs of its attempt. -/
theorem telemetry_logs (wf : db.toJournal.WellFormed) (gapless : Gapless db)
    (after limit : Int) : telemetry run name after limit "logs" "" db =
      Cursor.page (·.sequence) after (max 1 (min limit 1000)).toNat
        (logsOf run (target run name db) db) := by
  by_cases belongs : Belongs run (target run name db) db
  · have named : target run name db ≠ "" := by
      obtain ⟨a, ha, hid, _⟩ := belongs
      exact hid ▸ wf.named a ha
    have same : telemetry run name after limit "logs" "" db =
        telemetry run (target run name db) after limit "logs" "" db := by
      have each (id : String) : selects run name id db =
          selects run (target run name db) id db := by
        rw [Bool.eq_iff_iff, selects_target wf, selects_iff wf named]
      simp only [telemetry, each]
    rw [same, telemetry_page wf gapless named belongs, logsOf, if_pos (belongs_iff.mp belongs)]
  · have rows : (db.telemetry.filter fun t => selects run name t.attemptId db &&
        after < t.record.sequence && shown "logs" "" t.record) = [] := by
      refine List.filter_eq_nil_iff.mpr fun t _ => ?_
      simp [selects_target wf, belongs]
    rw [telemetry, rows, logsOf, if_neg (mt belongs_iff.mpr belongs)]
    simp [Cursor.page]

end Logs

/-! ## Attempts that are finished -/

/-- Nothing will be added to the logs of the attempt. -/
def Closed (run attempt : String) (s : PostgresStore.State) : Prop :=
  (∃ a ∈ s.db.attempts, a.id = attempt ∧ a.runId = run ∧ a.Ended s.clock) ∨
    ¬Belongs run attempt s.db

/-- The run has a newer attempt. -/
def Past (run attempt : String) (db : Db) : Prop :=
  ∃ a ∈ db.attempts, a.id = attempt ∧ a.runId = run ∧
    ∃ b ∈ db.attempts, b.runId = run ∧ a.generation < b.generation

section Store

variable {p : PostgresStore} {s s' : PostgresStore.State} {run attempt : String} {r : RunRow}

theorem logsOf_later (hs : p.system.Reachable s) (later : p.system.Later s s') :
    logsOf run attempt s.db <+: logsOf run attempt s'.db := by
  by_cases known : Belongs run attempt s.db
  · rw [logsOf, logsOf, if_pos (belongs_iff.mp known),
      if_pos (belongs_iff.mp (known.later hs later))]
    exact (recordsOf_later hs later attempt).filter _
  · rw [logsOf, if_neg (mt belongs_iff.mpr known)]
    exact List.nil_prefix

theorem Past.later (hs : p.system.Reachable s) (later : p.system.Later s s')
    (past : Past run attempt s.db) : Past run attempt s'.db := by
  obtain ⟨a, ha, hid, hrun, b, hb, hbrun, older⟩ := past
  obtain ⟨a', ha', evolved⟩ := attempt_later hs later a ha
  obtain ⟨b', hb', evolved'⟩ := attempt_later hs later b hb
  refine ⟨a', ha', evolved.identity.id.trans hid, evolved.identity.runId.trans hrun, b', hb',
    evolved'.identity.runId.trans hbrun, ?_⟩
  rw [evolved.identity.generation, evolved'.identity.generation]
  exact older

theorem Past.inactive (hs : p.system.Reachable s) (past : Past run attempt s.db)
    (hr : r ∈ s.db.runs) (hrun : r.id = run) : r.activeAttempt ≠ some attempt := by
  obtain ⟨a, ha, rfl, harun, b, hb, hbrun, older⟩ := past
  intro active
  have newest := (active_iff_newest hs hr ha (harun.trans hrun.symm)).mp active
  have := newest b hb (hbrun.trans hrun.symm)
  omega

theorem past_of_inactive (hs : p.system.Reachable s) (belongs : Belongs run attempt s.db)
    (hr : r ∈ s.db.runs) (hrun : r.id = run) (inactive : r.activeAttempt ≠ some attempt) :
    Past run attempt s.db := by
  obtain ⟨a, ha, rfl, harun⟩ := belongs
  have replaced := mt (active_iff_newest hs hr ha (harun.trans hrun.symm)).mpr inactive
  simp only [not_forall, not_le] at replaced
  obtain ⟨b, hb, hbrun, older⟩ := replaced
  exact ⟨a, ha, rfl, harun, b, hb, hbrun.trans hrun, older⟩

theorem belongs_active (hs : p.system.Reachable s) (hr : r ∈ s.db.runs) (hrun : r.id = run)
    (active : r.activeAttempt = some attempt) : Belongs run attempt s.db := by
  have last := (coupled_reachable hs r hr).active
  change r.activeAttempt = _ at last
  rw [active] at last
  obtain ⟨a, ha, hid⟩ := List.mem_map.mp (List.mem_of_getLast? last.symm)
  obtain ⟨member, harun⟩ := Journal.mem_attemptsOf.mp ha
  exact ⟨a, member, hid, harun.trans hrun⟩

theorem Past.closed (hs : p.system.Reachable s) (past : Past run attempt s.db) :
    Closed run attempt s := by
  obtain ⟨a, ha, hid, hrun, b, hb, hbrun, older⟩ := past
  have wf := (PostgresStore.reachable_wellFormed hs).toWellFormed
  obtain ⟨r, hr, hr'⟩ := wf.attemptRun a ha
  have inactive := Past.inactive hs ⟨a, ha, hid, hrun, b, hb, hbrun, older⟩ hr (hr'.trans hrun)
  rw [← hid] at inactive
  have failed := (coupled_reachable hs r hr).status_of_past
    (Journal.mem_attemptsOf.mpr ⟨ha, hr'.symm⟩) inactive
  refine .inl ⟨a, ha, hid, hrun, .inl ?_⟩
  simp [failed, AttemptStatus.live]

theorem closed_of_terminal (hs : p.system.Reachable s) (hr : r ∈ s.db.runs) (hrun : r.id = run)
    (terminal : r.status.terminal) : Closed run attempt s := by
  by_cases belongs : Belongs run attempt s.db
  swap
  · exact .inr belongs
  obtain ⟨a, ha, hid, harun⟩ := belongs
  refine .inl ⟨a, ha, hid, harun, .inl fun live => ?_⟩
  have runs := (coupled_reachable hs r hr).live_run
    (Journal.history_proper (PostgresStore.reachable_wellFormed hs).toWellFormed r)
    (Journal.mem_attemptsOf.mpr ⟨ha, harun.trans hrun.symm⟩) live
  change r.status.live at runs
  cases hstatus : r.status <;> simp_all [RunStatus.terminal, RunStatus.live]

/-- A transaction that creates no attempt under the name adds nothing. -/
theorem Closed.step {e : PostgresStore.Event} (hs : p.system.Reachable s)
    (closed : Closed run attempt s) (h : p.system.step s e = some s')
    (undrawn : attempt ≠ "" → e.op.draws? = some attempt → ∃ a ∈ s.db.attempts, a.id = attempt) :
    Closed run attempt s' ∧ logsOf run attempt s'.db = logsOf run attempt s.db := by
  have later : p.system.Later s s' := .single trivial h
  have wf := PostgresStore.reachable_wellFormed hs
  have wf' := PostgresStore.reachable_wellFormed (hs.later later)
  obtain ⟨hclock, rfl⟩ := p.step_eq h
  rcases closed with ⟨a, ha, hid, hrun, ended⟩ | unknown
  · have known : Belongs run attempt s.db := ⟨a, ha, hid, hrun⟩
    obtain ⟨a', ha', evolved⟩ := attempt_later hs later a ha
    refine ⟨.inl ⟨a', ha', evolved.identity.id.trans hid, evolved.identity.runId.trans hrun,
      evolved.ended ended⟩, ?_⟩
    have records : (p.commit e.now e.op s.db).recordsOf attempt = s.db.recordsOf attempt := by
      by_cases reports : e.op.reports? = some attempt
      · have called : e.op.attempt? = some a.id := by
          cases hop : e.op <;> simp_all [Op.reports?, Op.attempt?, Op.owner?]
        rw [ended_call hs ha (ended.mono hclock) called]
      · exact commit_recordsOf reports
    rw [logsOf, logsOf, if_pos (belongs_iff.mp known),
      if_pos (belongs_iff.mp (known.later hs later)), matching, matching, records]
  · have still : ¬Belongs run attempt (p.commit e.now e.op s.db) := by
      rintro ⟨a', ha', hid', hrun'⟩
      have effect : Effect p e.now _ e.op _ := PostgresStore.commit_effect wf
      obtain ⟨a, ha, hid⟩ : ∃ a ∈ s.db.attempts, a.id = attempt := by
        rcases effect.attempts_from wf a' ha' with ⟨a, ha, hid⟩ | ⟨drawn, _⟩
        · exact ⟨a, ha, hid.trans hid'⟩
        · exact undrawn (hid' ▸ wf'.named a' ha') (hid' ▸ drawn)
      -- The row of that name was there, with the run that it has now.
      obtain ⟨b, hb, evolved⟩ := attempt_later hs later a ha
      have same : b = a' := wf'.attempts.eq hb ha' (evolved.identity.id.trans (hid.trans hid'.symm))
      have hrun := evolved.identity.runId
      rw [same, hrun'] at hrun
      exact unknown ⟨a, ha, hid, hrun.symm⟩
    refine ⟨.inr still, ?_⟩
    rw [logsOf, logsOf, if_neg (mt belongs_iff.mpr unknown), if_neg (mt belongs_iff.mpr still)]

end Store

/-! ## The command -/

/-- `show_logs` with its arguments. -/
structure ShowLogs where
  store : PostgresStore
  run : String
  /-- The attempt that is asked for, empty for the active one. -/
  attempt : String
  follow : Bool

namespace ShowLogs

/-- Where the loop stands, with `status` and `active_attempt` of its last answer. -/
inductive Phase where
  | idle
  | asking
  | selected (status : RunStatus) (active : String)
  /-- The handler of the logs has read the run. -/
  | reading (status : RunStatus) (active attempt : String)
  | ended
  | failed
  deriving DecidableEq

structure State where
  store : PostgresStore.State
  phase : Phase := .idle
  attempt : String
  cursor : Int := 0
  terminalSeen : Bool := false
  /-- The records printed, each with the attempt that is selected. -/
  printed : List (String × Telemetry) := []
  /-- The attempts that the command has moved on from, or seen to be finished at its end. -/
  left : List String := []
  /-- How many log records the server had of the selected attempt at each of its pages, the last
  one first. -/
  reads : List Nat := []

inductive Act where
  | store (e : PostgresStore.Event)
  | start
  | run
  | logs
  | page
  | fail

variable (c : ShowLogs)

def fixed : Bool := c.attempt ≠ ""

/-- The answer of the run selects the attempt. -/
def State.select (s : State) (status : RunStatus) (active : String) : State :=
  if !c.fixed && active ≠ s.attempt then
    { s with phase := .selected status active, attempt := active, cursor := 0, terminalSeen := false
             left := s.attempt :: s.left, reads := [] }
  else { s with phase := .selected status active }

/-- The page is printed, and the loop goes on or ends. -/
def State.print (s : State) (status : RunStatus) (active : String) (items : List Telemetry) :
    State :=
  let finished := s.terminalSeen && items.isEmpty
  let s := { s with
    printed := s.printed ++ items.map fun item => (s.attempt, item)
    cursor := Cursor.position (fun r : Telemetry => r.sequence) s.cursor items
    reads := (logsOf c.run s.attempt s.store.db).length :: s.reads }
  if items.length = 100 then { s with phase := .asking }
  else if !c.follow || finished then
    { s with phase := .ended, left := if finished then s.attempt :: s.left else s.left }
  else { s with
    phase := .asking
    terminalSeen := status.terminal || (c.fixed && active ≠ s.attempt) }

def step (s : State) : Act → Option State
  | .store e => (c.store.system.step s.store e).map fun store => { s with store := store }
  | .start => if s.phase = .idle then some { s with phase := .asking } else none
  | .run =>
    if s.phase = .asking then
      match s.store.db.run? c.run with
      | none => some { s with phase := .failed }
      | some r => some (s.select c r.status (text r.activeAttempt))
    else none
  | .logs =>
    match s.phase with
    | .selected status active =>
      match s.store.db.run? c.run with
      | none => some { s with phase := .failed }
      | some r =>
        let attempt := if s.attempt = "" then text r.activeAttempt else s.attempt
        some { s with phase := .reading status active attempt }
    | _ => none
  | .page =>
    match s.phase with
    | .reading status active attempt =>
      some (s.print c status active (telemetry c.run attempt s.cursor 100 "logs" "" s.store.db))
    | _ => none
  | .fail => if s.phase = .idle ∨ s.phase = .ended then none else some { s with phase := .failed }

def system : System State Act where
  init := { store := c.store.system.init, attempt := c.attempt }
  step := c.step

/-- What was printed while the attempt was selected. -/
def State.printedFor (s : State) (attempt : String) : List Telemetry :=
  (s.printed.filter fun x => x.1 = attempt).map (·.2)

/-- Each attempt's records are printed once and in order, and all of them where it was left. -/
def Once (s : State) : Prop :=
  (∀ a, s.printedFor a <+: logsOf c.run a s.store.db) ∧
    ∀ a ∈ s.left, s.printedFor a = logsOf c.run a s.store.db

/-- No attempt is created under the name that the command was given. -/
def Undrawn (s : State) : Act → Prop
  | .store e => s.phase = .idle ∨ (e.op.draws? = some c.attempt →
      ∃ a ∈ s.store.db.attempts, a.id = c.attempt)
  | _ => True

/-- When the run has got another attempt, the log of the one before has kept the pace of the pages
that were read of it. When the run had no attempt, the one whose page is read has no records. -/
def CaughtUp (s : State) : Act → Prop
  | .run => ∀ r, s.store.db.run? c.run = some r → c.attempt = "" →
      text r.activeAttempt ≠ s.attempt →
        Cursor.Paced 100 s.reads (logsOf c.run s.attempt s.store.db).length
  | .page => ∀ status attempt, s.phase = .reading status "" attempt → c.attempt = "" →
      logsOf c.run (target c.run attempt s.store.db) s.store.db = []
  | _ => True

/-- What the runs that meet the conditions keep. -/
structure Invariant (s : State) : Prop where
  reach : c.store.system.Reachable s.store
  held : s.printedFor s.attempt <+: logsOf c.run s.attempt s.store.db
  done : ∀ a ∈ s.left, s.printedFor a = logsOf c.run a s.store.db ∧ Closed c.run a s.store
  elsewhere : ∀ a, a ≠ s.attempt → a ∉ s.left → s.printedFor a = []
  cursor : s.cursor = Cursor.position (·.sequence) 0 (s.printedFor s.attempt)
  pace : (s.printedFor s.attempt).length = Cursor.covered 100 s.reads
  seen : s.terminalSeen → Closed c.run s.attempt s.store
  /-- An answer that is about to be remembered as the last one. -/
  answer : ∀ status active, (s.phase = .selected status active ∨
    ∃ name, s.phase = .reading status active name) →
      status.terminal ∨ c.fixed ∧ active ≠ s.attempt → Closed c.run s.attempt s.store
  reading : ∀ status active name, s.phase = .reading status active name → s.attempt ≠ "" →
    name = s.attempt
  selects : ∀ status active, (s.phase = .selected status active ∨
    ∃ name, s.phase = .reading status active name) → ¬c.fixed → s.attempt = active
  given : c.fixed → s.attempt = c.attempt ∧ ∀ a ∈ s.left, a = c.attempt
  known : ∀ a, a = s.attempt ∨ a ∈ s.left → a = c.attempt ∨ Belongs c.run a s.store.db
  past : ∀ a ∈ s.left, a = "" ∨ s.phase = .ended ∧ a = s.attempt ∨ Past c.run a s.store.db
  idle : s.phase = .idle → s.left = [] ∧ ¬s.terminalSeen

variable {c} {s s' : State}

theorem Invariant.wf (inv : c.Invariant s) : s.store.db.toJournal.WellFormed :=
  (PostgresStore.reachable_wellFormed inv.reach).toWellFormed

theorem Invariant.begins (inv : c.Invariant s) (a : String) :
    s.printedFor a <+: logsOf c.run a s.store.db := by
  by_cases current : a = s.attempt
  · rw [current]
    exact inv.held
  by_cases left : a ∈ s.left
  · rw [(inv.done a left).1]
  · rw [inv.elsewhere a current left]
    exact List.nil_prefix

theorem Invariant.once (inv : c.Invariant s) : c.Once s :=
  ⟨inv.begins, fun a ha => (inv.done a ha).1⟩

theorem Invariant.init : c.Invariant c.system.init where
  reach := System.reachable_init
  held := List.nil_prefix
  done := by simp [system]
  elsewhere _ _ _ := rfl
  cursor := rfl
  pace := rfl
  seen := by simp [system]
  answer := by simp [system]
  reading := by simp [system]
  selects := by simp [system]
  given := by simp [system]
  known := by simp [system]
  past := by simp [system]
  idle := by simp [system]

/-- Nothing is printed without an attempt. -/
theorem Invariant.unnamed (inv : c.Invariant s) : s.printedFor "" = [] := by
  have held := inv.begins ""
  rw [logsOf_unnamed inv.wf] at held
  exact List.prefix_nil.mp held

theorem Invariant.store {e : PostgresStore.Event} (inv : c.Invariant s)
    (undrawn : c.Undrawn s (.store e)) (h : c.system.step s (.store e) = some s') :
    c.Invariant s' := by
  obtain ⟨store, hstore, rfl⟩ := Option.map_eq_some_iff.mp h
  have later : c.store.system.Later s.store store := .single trivial hstore
  have closed {a : String} (begun : s.phase ≠ .idle) (tracked : a = s.attempt ∨ a ∈ s.left)
      (closed : Closed c.run a s.store) : Closed c.run a store ∧
        logsOf c.run a store.db = logsOf c.run a s.store.db := by
    refine closed.step inv.reach hstore fun _ drawn => ?_
    rcases inv.known a tracked with rfl | ⟨b, hb, hid, _⟩
    · exact undrawn.resolve_left begun drawn
    · exact ⟨b, hb, hid⟩
  constructor
  · exact inv.reach.later later
  · exact inv.held.trans (logsOf_later inv.reach later)
  · intro a ha
    have begun : s.phase ≠ .idle := by
      intro idle
      rw [(inv.idle idle).1] at ha
      cases ha
    obtain ⟨same, finished⟩ := inv.done a ha
    obtain ⟨still, logs⟩ := closed begun (.inr ha) finished
    exact ⟨same.trans logs.symm, still⟩
  · exact inv.elsewhere
  · exact inv.cursor
  · exact inv.pace
  · intro seen
    have begun : s.phase ≠ .idle := fun idle => (inv.idle idle).2 seen
    exact (closed begun (.inl rfl) (inv.seen seen)).1
  · intro status active answer finished
    have begun : s.phase ≠ .idle := by
      rcases answer with phase | ⟨name, phase⟩
      · exact fun idle => by cases phase.symm.trans idle
      · exact fun idle => by cases phase.symm.trans idle
    exact (closed begun (.inl rfl) (inv.answer status active answer finished)).1
  · exact inv.reading
  · exact inv.selects
  · exact inv.given
  · exact fun a tracked =>
      (inv.known a tracked).imp_right fun belongs => belongs.later inv.reach later
  · exact fun a ha => (inv.past a ha).imp_right (Or.imp_right (Past.later inv.reach later))
  · exact inv.idle

/-- What an answer about the run says of an attempt that it does not name. -/
theorem inactive_closed {a : String} {r : RunRow} (hs : c.store.system.Reachable s.store)
    (hr : s.store.db.run? c.run = some r) (other : text r.activeAttempt ≠ a) :
    Closed c.run a s.store ∧ (Belongs c.run a s.store.db → Past c.run a s.store.db) := by
  obtain ⟨member, hrun⟩ := Table.lookup_mem hr
  have inactive : r.activeAttempt ≠ some a := by
    intro active
    rw [active] at other
    exact other rfl
  have past (belongs : Belongs c.run a s.store.db) : Past c.run a s.store.db :=
    past_of_inactive hs belongs member hrun inactive
  refine ⟨?_, past⟩
  by_cases belongs : Belongs c.run a s.store.db
  · exact (past belongs).closed hs
  · exact .inr belongs

/-- The reader has all records of the selected attempt as soon as none is above the cursor. -/
theorem Invariant.complete (inv : c.Invariant s) :
    s.printedFor s.attempt = logsOf c.run s.attempt s.store.db ↔
      ∀ t ∈ logsOf c.run s.attempt s.store.db, t.sequence ≤ s.cursor := by
  have increasing : Cursor.Increasing (·.sequence) (logsOf c.run s.attempt s.store.db) :=
    logsOf_increasing (gapless_reachable inv.reach)
  have positive : ∀ t ∈ logsOf c.run s.attempt s.store.db, 0 < t.sequence :=
    logsOf_positive (gapless_reachable inv.reach)
  rw [inv.cursor]
  constructor
  · intro whole
    rw [← whole] at increasing ⊢
    exact Cursor.le_position increasing
  · intro none
    obtain ⟨rest, hrest⟩ := inv.held
    rw [← hrest] at increasing positive none ⊢
    have above := Cursor.filter_above increasing positive
    cases rest with
    | nil => rw [List.append_nil]
    | cons t rest =>
      have first : t ∈ (s.printedFor s.attempt ++ t :: rest).filter fun r =>
          Cursor.position (·.sequence) 0 (s.printedFor s.attempt) < r.sequence := by
        rw [above]
        exact List.mem_cons_self
      have bound := none t (List.mem_append_right _ List.mem_cons_self)
      have past := of_decide_eq_true (List.mem_filter.mp first).2
      omega

/-- The reader has all records of the selected attempt where its log has kept pace. -/
theorem Invariant.paced (inv : c.Invariant s) :
    s.printedFor s.attempt = logsOf c.run s.attempt s.store.db ↔
      Cursor.Paced 100 s.reads (logsOf c.run s.attempt s.store.db).length := by
  rw [← Cursor.le_covered, ← inv.pace]
  exact ⟨fun whole => whole ▸ le_refl _, inv.held.eq_of_length_le⟩

/-- No attempt is selected only where none was asked for and the last answer named none. -/
theorem Invariant.unselected {status : RunStatus} {active name : String} (inv : c.Invariant s)
    (reading : s.phase = .reading status active name) (unnamed : s.attempt = "") :
    c.attempt = "" ∧ active = "" := by
  have free : c.attempt = "" := by
    by_contra given
    have fixed : c.fixed := decide_eq_true given
    exact given ((inv.given fixed).1.symm.trans unnamed)
  refine ⟨free, ?_⟩
  rw [← inv.selects status active (.inr ⟨name, reading⟩) (by simp [fixed, free]), unnamed]

/-- The command turns to another part of its loop and keeps what it has. -/
theorem Invariant.turn {phase : Phase} (inv : c.Invariant s) (goes : s.phase ≠ .ended)
    (begun : phase ≠ .idle)
    (answer : ∀ status active, (phase = .selected status active ∨
      ∃ name, phase = .reading status active name) →
        status.terminal ∨ c.fixed ∧ active ≠ s.attempt → Closed c.run s.attempt s.store)
    (reading : ∀ status active name, phase = .reading status active name → s.attempt ≠ "" →
      name = s.attempt)
    (selects : ∀ status active, (phase = .selected status active ∨
      ∃ name, phase = .reading status active name) → ¬c.fixed → s.attempt = active) :
    c.Invariant { s with phase := phase } where
  reach := inv.reach
  held := inv.held
  done := inv.done
  elsewhere := inv.elsewhere
  cursor := inv.cursor
  pace := inv.pace
  seen := inv.seen
  answer := answer
  reading := reading
  selects := selects
  given := inv.given
  known := inv.known
  past a ha := (inv.past a ha).imp_right (Or.imp_left fun ended => absurd ended.1 goes)
  idle idle := absurd idle begun

theorem Invariant.waits {phase : Phase} (inv : c.Invariant s) (goes : s.phase ≠ .ended)
    (waits : phase = .asking ∨ phase = .failed) : c.Invariant { s with phase := phase } := by
  refine inv.turn goes ?_ ?_ ?_ ?_
  · rcases waits with rfl | rfl <;> simp
  · rcases waits with rfl | rfl <;> simp
  · rcases waits with rfl | rfl <;> simp
  · rcases waits with rfl | rfl <;> simp

/-- The command moves on to another attempt. -/
theorem Invariant.switch {r : RunRow} (inv : c.Invariant s) (asking : s.phase = .asking)
    (hr : s.store.db.run? c.run = some r) (free : c.attempt = "")
    (other : text r.activeAttempt ≠ s.attempt)
    (complete : s.printedFor s.attempt = logsOf c.run s.attempt s.store.db) :
    c.Invariant { s with
      phase := .selected r.status (text r.activeAttempt), attempt := text r.activeAttempt
      cursor := 0, terminalSeen := false, left := s.attempt :: s.left, reads := [] } := by
  obtain ⟨member, hrun⟩ := Table.lookup_mem hr
  have unfixed : ¬c.fixed := by simp [fixed, free]
  have later : ∀ a ∈ s.attempt :: s.left, a = "" ∨ Past c.run a s.store.db := by
    refine List.forall_mem_cons.mpr ⟨?_, fun a ha => ?_⟩
    · refine (inv.known s.attempt (.inl rfl)).imp (fun given => given.trans free) ?_
      exact (inactive_closed inv.reach hr other).2
    · refine (inv.past a ha).imp_right fun past => past.resolve_left fun ended => ?_
      cases asking.symm.trans ended.1
  have fresh : s.printedFor (text r.activeAttempt) = [] := by
    by_cases left : text r.activeAttempt ∈ s.left
    · rcases later _ (List.mem_cons_of_mem _ left) with unnamed | past
      · rw [unnamed]
        exact inv.unnamed
      · have inactive := past.inactive inv.reach member hrun
        cases hactive : r.activeAttempt with
        | none => exact inv.unnamed
        | some a =>
          rw [hactive] at inactive
          exact absurd rfl inactive
    · exact inv.elsewhere _ other left
  constructor
  · exact inv.reach
  · change s.printedFor _ <+: _
    rw [fresh]
    exact List.nil_prefix
  · refine List.forall_mem_cons.mpr ⟨⟨complete, ?_⟩, inv.done⟩
    exact (inactive_closed inv.reach hr other).1
  · intro a _ unleft
    rw [List.mem_cons, not_or] at unleft
    exact inv.elsewhere a unleft.1 unleft.2
  · change 0 = Cursor.position _ 0 (s.printedFor _)
    rw [fresh]
    rfl
  · change (s.printedFor _).length = _
    rw [fresh]
    rfl
  · simp
  · rintro status active answer (terminal | ⟨fixed, _⟩)
    · rcases answer with phase | ⟨name, phase⟩
      · cases phase
        exact closed_of_terminal inv.reach member hrun terminal
      · cases phase
    · exact absurd fixed unfixed
  · simp
  · rintro status active (phase | ⟨name, phase⟩) _
    · cases phase
      rfl
    · cases phase
  · exact fun fixed => absurd fixed unfixed
  · rintro a (rfl | ha)
    · cases hactive : r.activeAttempt with
      | none => exact .inl (by rw [text_none, free])
      | some a => exact .inr (belongs_active inv.reach member hrun hactive)
    · rcases List.mem_cons.mp ha with rfl | ha
      · exact inv.known _ (.inl rfl)
      · exact inv.known a (.inr ha)
  · exact fun a ha => (later a ha).imp_right .inr
  · simp

theorem Invariant.run (inv : c.Invariant s) (caughtUp : c.CaughtUp s .run)
    (h : c.system.step s .run = some s') : c.Invariant s' := by
  simp only [system, step, Option.ite_none_right_eq_some] at h
  obtain ⟨asking, h⟩ := h
  have goes : s.phase ≠ .ended := fun ended => by cases asking.symm.trans ended
  cases hr : s.store.db.run? c.run with
  | none =>
    rw [hr] at h
    cases h
    exact inv.waits goes (.inr rfl)
  | some r =>
    rw [hr] at h
    cases h
    obtain ⟨member, hrun⟩ := Table.lookup_mem hr
    unfold State.select
    split
    next moves =>
      simp only [Bool.and_eq_true, Bool.not_eq_true', fixed, decide_eq_false_iff_not, not_not,
        decide_eq_true_eq] at moves
      exact inv.switch asking hr moves.1 moves.2
        (inv.paced.mpr (caughtUp r hr moves.1 moves.2))
    next stays =>
      refine inv.turn goes (by simp) ?_ (by simp) ?_
      · rintro status active (phase | ⟨name, phase⟩) finished
        · cases phase
          rcases finished with terminal | ⟨_, other⟩
          · exact closed_of_terminal inv.reach member hrun terminal
          · exact (inactive_closed inv.reach hr other).1
        · cases phase
      · rintro status active (phase | ⟨name, phase⟩) free
        · cases phase
          by_contra other
          exact stays (by simp [free, Ne.symm other])
        · cases phase

theorem Invariant.logs (inv : c.Invariant s) (h : c.system.step s .logs = some s') :
    c.Invariant s' := by
  simp only [system, step] at h
  split at h
  next status active selected =>
    have goes : s.phase ≠ .ended := fun ended => by cases selected.symm.trans ended
    cases hr : s.store.db.run? c.run with
    | none =>
      rw [hr] at h
      cases h
      exact inv.waits goes (.inr rfl)
    | some r =>
      rw [hr] at h
      cases h
      refine inv.turn goes (by simp) ?_ ?_ ?_
      · rintro status' active' (phase | ⟨name, phase⟩)
        · cases phase
        · cases phase
          exact inv.answer status active (.inl selected)
      · intro status' active' name phase named
        cases phase
        exact if_neg named
      · rintro status' active' (phase | ⟨name, phase⟩)
        · cases phase
        · cases phase
          exact inv.selects status active (.inl selected)
  next => cases h

@[simp] theorem store_print (status : RunStatus) (active : String) (items : List Telemetry) :
    (s.print c status active items).store = s.store := by
  simp only [State.print]
  split
  · rfl
  · split <;> rfl

@[simp] theorem printed_print (status : RunStatus) (active : String) (items : List Telemetry) :
    (s.print c status active items).printed =
      s.printed ++ items.map fun item => (s.attempt, item) := by
  simp only [State.print]
  split
  · rfl
  · split <;> rfl

theorem printedFor_append {items : List Telemetry}
    (appended : s'.printed = s.printed ++ items.map fun item => (s.attempt, item)) (a : String) :
    s'.printedFor a = s.printedFor a ++ if a = s.attempt then items else [] := by
  simp only [State.printedFor, appended, List.filter_append, List.map_append]
  congr 1
  by_cases same : s.attempt = a
  · simp [same, List.filter_map, Function.comp_def]
  · simp [same, List.filter_map, Function.comp_def, Ne.symm same]

/-- The answer is a page of the logs of the selected attempt. -/
theorem Invariant.answered {status : RunStatus} {active name : String} (inv : c.Invariant s)
    (reading : s.phase = .reading status active name) (caughtUp : c.CaughtUp s .page) :
    telemetry c.run name s.cursor 100 "logs" "" s.store.db =
      Cursor.page (·.sequence) s.cursor 100 (logsOf c.run s.attempt s.store.db) := by
  rw [telemetry_logs inv.wf (gapless_reachable inv.reach)]
  by_cases named : s.attempt = ""
  · obtain ⟨free, rfl⟩ := inv.unselected reading named
    rw [caughtUp status name reading free, named, logsOf_unnamed inv.wf]
    rfl
  · have asked : target c.run name s.store.db = s.attempt := by
      rw [inv.reading status active name reading named]
      exact if_neg named
    rw [asked]
    rfl

/-- The records of a page are printed. -/
theorem Invariant.grow {items : List Telemetry} (inv : c.Invariant s)
    (hitems : items = Cursor.page (·.sequence) s.cursor 100 (logsOf c.run s.attempt s.store.db))
    (goes : s.phase ≠ .ended) :
    c.Invariant { s with
      phase := .asking
      printed := s.printed ++ items.map fun item => (s.attempt, item)
      cursor := Cursor.position (·.sequence) s.cursor items
      reads := (logsOf c.run s.attempt s.store.db).length :: s.reads } := by
  let grown : State := { s with
    phase := .asking
    printed := s.printed ++ items.map fun item => (s.attempt, item)
    cursor := Cursor.position (·.sequence) s.cursor items
    reads := (logsOf c.run s.attempt s.store.db).length :: s.reads }
  have printed (a : String) :
      grown.printedFor a = s.printedFor a ++ if a = s.attempt then items else [] :=
    printedFor_append rfl a
  have current : grown.printedFor s.attempt = s.printedFor s.attempt ++ items := by
    rw [printed, if_pos rfl]
  have increasing : Cursor.Increasing (·.sequence) (logsOf c.run s.attempt s.store.db) :=
    logsOf_increasing (gapless_reachable inv.reach)
  have positive : ∀ t ∈ logsOf c.run s.attempt s.store.db, 0 < t.sequence :=
    logsOf_positive (gapless_reachable inv.reach)
  constructor
  · exact inv.reach
  · dsimp only
    rw [current, hitems, inv.cursor]
    exact Cursor.page_held increasing positive inv.held 100
  · intro a ha
    obtain ⟨same, finished⟩ := inv.done a ha
    refine ⟨?_, finished⟩
    rw [printed a]
    split
    next here =>
      subst here
      have none := (Cursor.page_eq_nil (by decide : 0 < 100)).mpr (inv.complete.mp same)
      rw [hitems, none, List.append_nil]
      exact same
    next => rw [List.append_nil, same]
  · intro a other unleft
    rw [printed a, if_neg other, List.append_nil]
    exact inv.elsewhere a other unleft
  · dsimp only
    rw [current, inv.cursor, Cursor.position_append]
  · dsimp only
    rw [current, hitems, inv.cursor, Cursor.length_append_page increasing positive inv.held,
      Cursor.covered, inv.pace, min_comm]
  · exact inv.seen
  · simp
  · simp
  · simp
  · exact inv.given
  · exact inv.known
  · exact fun a ha => (inv.past a ha).imp_right (Or.imp_left fun ended => absurd ended.1 goes)
  · simp

/-- The command remembers that the attempt is finished. -/
theorem Invariant.remember {finished : Bool} (inv : c.Invariant s) (asking : s.phase = .asking)
    (closed : finished → Closed c.run s.attempt s.store) :
    c.Invariant { s with terminalSeen := finished } where
  reach := inv.reach
  held := inv.held
  done := inv.done
  elsewhere := inv.elsewhere
  cursor := inv.cursor
  pace := inv.pace
  seen := closed
  answer := inv.answer
  reading := inv.reading
  selects := inv.selects
  given := inv.given
  known := inv.known
  past := inv.past
  idle idle := by cases asking.symm.trans idle

/-- The command ends with an attempt that it saw to be finished. -/
theorem Invariant.end (inv : c.Invariant s) (goes : s.phase ≠ .ended) (seen : s.terminalSeen)
    (complete : s.printedFor s.attempt = logsOf c.run s.attempt s.store.db) :
    c.Invariant { s with phase := .ended, left := s.attempt :: s.left } where
  reach := inv.reach
  held := inv.held
  done := List.forall_mem_cons.mpr ⟨⟨complete, inv.seen seen⟩, inv.done⟩
  elsewhere a other unleft := inv.elsewhere a other (mt (List.mem_cons_of_mem _) unleft)
  cursor := inv.cursor
  pace := inv.pace
  seen := inv.seen
  answer := by simp
  reading := by simp
  selects := by simp
  given fixed := ⟨(inv.given fixed).1,
    List.forall_mem_cons.mpr ⟨(inv.given fixed).1, (inv.given fixed).2⟩⟩
  known a tracked := inv.known a (tracked.elim .inl fun ha => List.mem_cons.mp ha)
  past := by
    refine List.forall_mem_cons.mpr ⟨.inr (.inl ⟨rfl, rfl⟩), fun a ha => ?_⟩
    exact (inv.past a ha).imp_right (Or.imp_left fun ended => absurd ended.1 goes)
  idle := by simp

theorem Invariant.page (inv : c.Invariant s) (caughtUp : c.CaughtUp s .page)
    (h : c.system.step s .page = some s') : c.Invariant s' := by
  simp only [system, step] at h
  split at h
  swap
  · cases h
  next status active name reading =>
    cases h
    have goes : s.phase ≠ .ended := fun ended => by cases reading.symm.trans ended
    have grown := inv.grow (inv.answered reading caughtUp) goes
    unfold State.print
    dsimp only
    split
    · exact grown
    split
    · split
      next finished =>
        simp only [Bool.and_eq_true, List.isEmpty_iff] at finished
        obtain ⟨seen, empty⟩ := finished
        have none := empty
        rw [inv.answered reading caughtUp, Cursor.page_eq_nil (by decide)] at none
        refine Invariant.end grown (by simp) seen (grown.complete.mpr fun t ht => ?_)
        dsimp only
        rw [empty]
        exact none t ht
      next => exact grown.turn (by simp) (by simp) (by simp) (by simp) (by simp)
    next =>
      refine grown.remember rfl fun finished => inv.answer status active (.inr ⟨name, reading⟩) ?_
      simpa using finished

theorem Invariant.step {act : Act} (inv : c.Invariant s) (undrawn : c.Undrawn s act)
    (caughtUp : c.CaughtUp s act) (h : c.system.step s act = some s') : c.Invariant s' := by
  cases act with
  | store e => exact inv.store undrawn h
  | run => exact inv.run caughtUp h
  | logs => exact inv.logs h
  | page => exact inv.page caughtUp h
  | start =>
    simp only [system, ShowLogs.step, Option.ite_none_right_eq_some, Option.some.injEq] at h
    obtain ⟨idle, rfl⟩ := h
    exact inv.waits (fun ended => by cases idle.symm.trans ended) (.inl rfl)
  | fail =>
    simp only [system, ShowLogs.step, Option.ite_none_left_eq_some, Option.some.injEq,
      not_or] at h
    obtain ⟨⟨_, goes⟩, rfl⟩ := h
    exact inv.waits goes (.inr rfl)

theorem invariant_run (run : c.system.Leads (fun s act => c.Undrawn s act ∧ c.CaughtUp s act)
    c.system.init s) : c.Invariant s :=
  run.invariant Invariant.init fun _ _ _ inv ok h => inv.step ok.1 ok.2 h

/-- A command that moves on too early, or that reads without an attempt what an attempt has
reported, breaks what it promises. -/
theorem Invariant.caughtUp {act : Act} (inv : c.Invariant s)
    (h : c.system.step s act = some s') (once : c.Once s') : c.CaughtUp s act := by
  cases act with
  | run =>
    intro r hr free other
    have moved : s' = s.select c r.status (text r.activeAttempt) := by
      simp only [system, ShowLogs.step, Option.ite_none_right_eq_some, hr, Option.some.injEq] at h
      exact h.2.symm
    have moves : (!c.fixed && decide (text r.activeAttempt ≠ s.attempt)) = true := by
      simp [fixed, free, other]
    rw [State.select, if_pos moves] at moved
    subst moved
    exact inv.paced.mp (once.2 s.attempt List.mem_cons_self)
  | page =>
    intro status name reading free
    have unnamed : s.attempt = "" :=
      inv.selects status "" (.inr ⟨name, reading⟩) (by simp [fixed, free])
    simp only [system, ShowLogs.step, reading, Option.some.injEq] at h
    subst h
    have begins := once.1 ""
    rw [store_print, logsOf_unnamed inv.wf, List.prefix_nil,
      printedFor_append (printed_print ..), if_pos unnamed.symm, inv.unnamed, List.nil_append,
      telemetry_logs inv.wf (gapless_reachable inv.reach),
      Cursor.page_eq_nil (by decide)] at begins
    have start : s.cursor = 0 := by
      rw [inv.cursor, unnamed, inv.unnamed]
      rfl
    refine List.eq_nil_iff_forall_not_mem.mpr fun t ht => ?_
    have above := logsOf_positive (gapless_reachable inv.reach) t ht
    have below := begins t ht
    omega
  | store | start | logs | fail => trivial

end ShowLogs

/-- While the log of an attempt keeps the pace of the pages until the run is seen to have another
attempt, and no page is read of a run without an attempt once the next one has records, every
record is printed once and in order, and none is missing of an attempt that was left. The first
step that does otherwise breaks this. -/
theorem logs_printed_once (c : ShowLogs) {s : ShowLogs.State}
    (run : c.system.Leads (fun s act => c.Undrawn s act ∧ c.CaughtUp s act) c.system.init s) :
    c.Once s ∧ ∀ act s', c.Undrawn s act → c.system.step s act = some s' →
      (c.Once s' ↔ c.CaughtUp s act) := by
  have inv := ShowLogs.invariant_run run
  refine ⟨inv.once, fun act s' undrawn h => ?_⟩
  constructor
  · exact inv.caughtUp h
  · exact fun caughtUp => (inv.step undrawn caughtUp h).once

namespace Sample

def follower : ShowLogs := ⟨store, runId.text, "", true⟩

def output : Telemetry := { sequence := 1, kind := "stdout" }

def queue : List ShowLogs.Act :=
  [.store ⟨1, .submit runId spec "key" "fingerprint"⟩,
    .store ⟨2, .registerWorker "worker" "session" ⟨4000, 4096⟩ {}⟩]

def placed : List ShowLogs.Act :=
  [.store ⟨3, .assign attemptId [] "worker" "session"⟩,
    .store ⟨4, .start attemptId.text 1 "runner" ""⟩]

def speak : ShowLogs.Act := .store ⟨5, .report attemptId.text 1 "runner" [output]⟩

/-- The attempt reports after the last page was read, and the run gets another attempt. -/
def replaced : List ShowLogs.Act :=
  queue ++ placed ++ [.start, .run, .logs, .page, speak,
    .store ⟨seconds 40, .recoverAttempt attemptId.text⟩, .store ⟨seconds 50, .recoverRequeue⟩,
    .store ⟨seconds 51, .workerHeartbeat "worker" "session"⟩,
    .store ⟨seconds 52, .assign nextId [] "worker" "session"⟩, .run]

/-- The run gets its attempt between the two requests. -/
def straddled : List ShowLogs.Act :=
  queue ++ [.start, .run] ++ placed ++ [speak, .logs, .page, .run, .logs, .page]

def nextOutput : Telemetry := { output with text := [0x6f, 0x6b] }

/-- The second attempt is assigned after the page with all records of the first one. -/
def followed : List ShowLogs.Act :=
  queue ++ placed ++ [speak, .start, .run, .logs, .page,
    .store ⟨seconds 40, .recoverAttempt attemptId.text⟩, .store ⟨seconds 50, .recoverRequeue⟩,
    .store ⟨seconds 51, .workerHeartbeat "worker" "session"⟩,
    .store ⟨seconds 52, .assign nextId [] "worker" "session"⟩,
    .store ⟨seconds 53, .start nextId.text 2 "runner" ""⟩,
    .store ⟨seconds 54, .report nextId.text 2 "runner" [nextOutput]⟩, .run, .logs, .page]

/-- The steps of runs in which the reader keeps up. -/
def calm (s : ShowLogs.State) : ShowLogs.Act → Bool
  | .store e => s.phase = .idle || e.op.draws? ≠ some ""
  | .run => (logsOf runId.text s.attempt s.store.db).length ≤ Cursor.covered 100 s.reads
  | .page =>
    match s.phase with
    | .reading _ active _ => active ≠ ""
    | _ => true
  | _ => true

end Sample

open Sample in
theorem logs_printed_once_followed : ∃ s,
    follower.system.Leads (fun s act => follower.Undrawn s act ∧ follower.CaughtUp s act)
      follower.system.init s ∧ attemptId.text ∈ s.left ∧
    s.printed = [(attemptId.text, output), (nextId.text, nextOutput)] ∧ follower.Once s := by
  have reached : (follower.system.replay calm follower.system.init followed).any (fun s =>
      s.left.contains attemptId.text &&
        s.printed = [(attemptId.text, output), (nextId.text, nextOutput)]) := by
    decide +kernel
  obtain ⟨s, hs, printed⟩ := (Option.any_eq_true _ _).mp reached
  simp only [Bool.and_eq_true, List.contains_iff_mem, decide_eq_true_eq] at printed
  have run : follower.system.Leads (fun s act => follower.Undrawn s act ∧ follower.CaughtUp s act)
      follower.system.init s := by
    refine (System.replay_leads hs).mono fun s act permitted => ?_
    cases act with
    | store e =>
      have undrawn : s.phase = .idle ∨ e.op.draws? ≠ some "" := by simpa [calm] using permitted
      exact ⟨undrawn.imp_right fun other drawn => absurd drawn other, trivial⟩
    | run => exact ⟨trivial, fun _ _ _ _ => Cursor.le_covered.mp (of_decide_eq_true permitted)⟩
    | page =>
      refine ⟨trivial, fun status name reading _ => ?_⟩
      simp [calm, reading] at permitted
    | start | logs | fail => exact ⟨trivial, trivial⟩
  exact ⟨s, run, printed.1, printed.2, (logs_printed_once follower run).1⟩

open Sample in
theorem logs_lost_and_doubled :
    (∃ s, follower.system.Reachable s ∧ ∃ a ∈ s.left,
      ∃ r ∈ logsOf follower.run a s.store.db, r ∉ s.printedFor a) ∧
    ∃ s, follower.system.Reachable s ∧ logsOf follower.run attemptId.text s.store.db = [output] ∧
      s.printed = [("", output), (attemptId.text, output)] := by
  constructor
  · have reached : (follower.system.replay (fun _ _ => true) follower.system.init replaced).any
        (fun s => s.left.any fun a =>
          (logsOf follower.run a s.store.db).any fun r => r ∉ s.printedFor a) := by
      decide +kernel
    obtain ⟨s, hs, lost⟩ := (Option.any_eq_true _ _).mp reached
    simp only [List.any_eq_true, decide_eq_true_eq] at lost
    exact ⟨s, System.replay_reachable hs, lost⟩
  · have reached : (follower.system.replay (fun _ _ => true) follower.system.init straddled).any
        (fun s => logsOf follower.run attemptId.text s.store.db = [output] &&
          s.printed = [("", output), (attemptId.text, output)]) := by
      decide +kernel
    obtain ⟨s, hs, doubled⟩ := (Option.any_eq_true _ _).mp reached
    simp only [Bool.and_eq_true, decide_eq_true_eq] at doubled
    exact ⟨s, System.replay_reachable hs, doubled⟩

end Runyard
