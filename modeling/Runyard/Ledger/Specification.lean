import Runyard.Ledger.Effect

/-!
# The store has the listed effects

One lemma for each transaction, from the function of the store to `Effect`, and
`apply_effect` for all of them.
-/

namespace Runyard

/-- The rows that `lockAttempt` reads, and what it computes from them. -/
structure Locked (now : Int) (id : String) (j : Journal) (x : LockedAttempt) : Prop where
  attempt : j.attempt? x.attempt.id = some x.attempt
  run : j.run? x.attempt.runId = some x.run
  same : x.attempt.id = id
  named : id ≠ ""
  claimed : x.attempt.instanceId ≠ some ""
  lease : x.leaseValid = x.attempt.leaseValid now
  launch : x.launchValid = decide (now < x.attempt.launchDeadline)
  deadline : x.deadlineValid = x.attempt.deadlineValid now

theorem lockAttempt_ok {now : Int} {id : String} {db : Db} {x : LockedAttempt}
    (wf : db.toJournal.WellFormed) (h : lockAttempt now id db = .ok x) :
    Locked now id db.toJournal x := by
  rw [lockAttempt] at h
  cases ha : db.attempt? id with
  | none => simp [ha] at h
  | some a =>
    cases hr : db.run? a.runId with
    | none => simp [ha, hr] at h
    | some r =>
      simp only [ha, hr, Except.ok.injEq] at h
      obtain ⟨hmem, hid⟩ := Table.lookup_mem ha
      have hnamed := wf.named a hmem
      have hclaimed := wf.claimed a hmem
      subst h
      subst hid
      exact ⟨ha, hr, rfl, hnamed, hclaimed, rfl, rfl, rfl⟩

theorem owned_ok {now : Int} {id caller : String} {generation : Int} {db : Db}
    {x : LockedAttempt} (wf : db.toJournal.WellFormed)
    (h : owned now id generation caller db = .ok x) :
    Locked now id db.toJournal x ∧ Owned now caller x.run x.attempt ∧
      x.run.generation = generation ∧ caller ≠ "" := by
  obtain ⟨a, hlock, h⟩ := Result.bind_ok.mp h
  obtain ⟨_, hguard, h⟩ := Result.bind_ok.mp h
  obtain rfl := Result.pure_ok.mp h
  have locked := lockAttempt_ok wf hlock
  simp only [Result.throwIf_ok, Bool.or_eq_true, Bool.and_eq_true, decide_eq_true_eq,
    Bool.not_eq_true', not_or, not_and, Decidable.not_not, Bool.not_eq_false, ne_eq] at hguard
  obtain ⟨⟨⟨⟨⟨⟨hactive, hgeneration⟩, hinstance⟩, hcaller⟩, hlease⟩, hdeadline⟩, hstatus⟩ := hguard
  refine ⟨locked, ?_, hgeneration, hcaller⟩
  constructor
  · rw [locked.same]
    exact text_eq hactive locked.named
  · exact text_eq hinstance hcaller
  · rw [← locked.lease]
    exact hlease
  · rw [← locked.deadline]
    exact hdeadline
  · by_cases hrunning : a.run.status = .running
    · exact .inl hrunning
    · exact .inr (hstatus hrunning)

section Event

variable {now : Int} {kind : EventKind} {detail : String} {db db' : Db}

theorem event_ok {id : String} (h : event now id kind detail db = .ok db') :
    ∃ r, db.run? id = some r ∧ db' = { db with
      runs := Table.update (fun r => r.id = id) (fun r => r.count now) db.runs
      events := db.events ++ [⟨id, r.eventSequence + 1, kind, detail, now⟩] } := by
  have counted : (db.updateRun id fun r => r.count now).run? id =
      (db.run? id).map fun r => if r.id = id then r.count now else r := by
    have keeps : ∀ r : RunRow, (fun r => decide (r.id = id)) r → (r.count now).id = r.id := by
      intro r _
      rfl
    simpa [Db.updateRun, Journal.run?] using Table.lookup_update keeps db.runs
  simp only [event, counted] at h
  cases hr : db.run? id with
  | none => simp [hr] at h
  | some r =>
    have hid : r.id = id := (Table.lookup_mem hr).2
    simp only [hr, Option.map_some, hid, if_true] at h
    refine ⟨r, rfl, ?_⟩
    rw [Db.insertEvent] at h
    split at h
    · cases h
    · cases h
      rfl

/-- A statement on a run and its event: the row is replaced, and its events go on. -/
theorem event_updateRun {r : RunRow} {g : RunRow → RunRow}
    (h : event now r.id kind detail (db.updateRun r.id g) = .ok db')
    (keyed : Table.Keyed (·.id) db.runs) (hr : db.run? r.id = some r) (hg : ∀ s, (g s).id = s.id)
    (hgs : (g r).eventSequence = r.eventSequence) :
    db' = { db with
      runs := Table.replace (·.id) ((g r).count now) db.runs
      events := db.events ++ [r.eventRow now kind detail] } := by
  have keeps : ∀ s : RunRow, (fun s => decide (s.id = r.id)) s → (g s).id = s.id :=
    fun s _ => hg s
  have found : (db.updateRun r.id g).run? r.id = some (g r) := by
    have hlookup := Table.lookup_update (k := r.id) keeps db.runs
    simp only [Journal.run?] at hr
    simpa [Journal.run?, Db.updateRun, hr] using hlookup
  obtain ⟨s, hs, rfl⟩ := event_ok h
  rw [found] at hs
  cases hs
  have hruns : Table.update (fun s => decide (s.id = r.id)) (fun s => s.count now)
      (Table.update (fun s => decide (s.id = r.id)) g db.runs) =
      Table.replace (·.id) ((g r).count now) db.runs := by
    rw [Table.update_update, Table.replace]
    refine List.map_congr_left ?_
    intro s hs
    by_cases hid : s.id = r.id
    · have same : s = r := keyed.eq hs (Table.lookup_mem hr).1 hid
      simp [same, hg]
    · simp [hid, hg]
  simp [Db.updateRun, hruns, RunRow.eventRow, hgs]

/-- One statement on the attempt, one on its run, and the event: a `Journal.put`. -/
theorem event_put {r : RunRow} {a : AttemptRow} {f : AttemptRow → AttemptRow}
    {g : RunRow → RunRow} (wf : db.toJournal.WellFormed) (ha : db.attempt? a.id = some a)
    (hr : db.run? a.runId = some r) (hf : (f a).id = a.id) (hg : ∀ r, (g r).id = r.id)
    (hgs : (g r).eventSequence = r.eventSequence)
    (h : event now r.id kind detail ((db.updateAttempt a.id f).updateRun r.id g) = .ok db') :
    db'.toLedger = { db.toLedger with
      toJournal := db.put ((g r).count now) (f a) [r.eventRow now kind detail] } := by
  have hrun : r.id = a.runId := (Table.lookup_mem hr).2
  have hattempts : Table.update (fun s => decide (s.id = a.id)) f db.attempts =
      Table.replace (·.id) (f a) db.attempts :=
    wf.attempts.update_eq_replace (Table.lookup_mem ha).1 hf
  have written := event_updateRun h wf.runs (hrun ▸ hr) hg hgs
  rw [written]
  simp [Db.updateAttempt, Journal.put, hattempts]

end Event

section Attempts

variable {p : PostgresStore} {now : Int} {id caller : String} {generation : Int} {db db' : Db}

theorem Locked.moved {x : LockedAttempt} {op : Op} {r' : RunRow} {a' : AttemptRow}
    {events : List EventRow} (locked : Locked now id db.toJournal x)
    (move : Move p.timing now x.run x.attempt op r' a' events)
    (written : db'.toLedger = { db.toLedger with toJournal := db.put r' a' events }) :
    Effect p now db.toLedger op db'.toLedger := by
  rw [written]
  exact .moved locked.attempt locked.run move

/-- An update of the attempt alone, as a `Journal.put`. -/
theorem Locked.put_attempt {x : LockedAttempt} {f : AttemptRow → AttemptRow}
    (wf : db.toJournal.WellFormed) (locked : Locked now id db.toJournal x)
    (hf : (f x.attempt).id = x.attempt.id) :
    (db.updateAttempt id f).toLedger = { db.toLedger with
      toJournal := db.put x.run (f x.attempt) [] } := by
  have hruns : Table.replace (·.id) x.run db.runs = db.runs :=
    Table.replace_same wf.runs (Table.lookup_mem locked.run).1
  have hattempts := wf.attempts.update_eq_replace (Table.lookup_mem locked.attempt).1 hf
  rw [locked.same] at hattempts
  simp [Db.updateAttempt, Journal.put, hruns, hattempts]

/-- `start` replays the claim of the same instance or claims an unclaimed attempt. -/
theorem start_ok {nodeName : String} {x : Assignment} (wf : db.toJournal.WellFormed)
    (h : start p.timing now id generation caller nodeName db = .ok (db', x)) :
    ∃ a, Locked now id db.toJournal a ∧ a.run.activeAttempt = some a.attempt.id ∧
      a.run.generation = generation ∧ a.run.status.live ∧
      (a.attempt.instanceId = some caller ∧ a.attempt.leaseValid now ∧
          a.attempt.deadlineValid now ∧ db' = db ∨
        a.attempt.instanceId = none ∧ caller ≠ "" ∧ a.run.status = .starting ∧
          now < a.attempt.launchDeadline ∧
          db'.toLedger = { db.toLedger with
            toJournal := db.put ((a.run.enter .running).count now)
              (a.attempt.claim now caller nodeName (seconds p.timing.leaseSeconds)
                (seconds a.run.spec.timeoutSeconds))
              [a.run.eventRow now .started "runner claimed execution"] }) := by
  simp only [start, Result.bind_ok, Result.throwIf_ok, exists_and_left, exists_const] at h
  obtain ⟨_, hcaller, a, hlock, hcurrent, hexecuting, _, h⟩ := h
  have locked := lockAttempt_ok wf hlock
  simp only [Bool.or_eq_true, Bool.and_eq_true, decide_eq_true_eq, not_or, not_and,
    Decidable.not_not, ne_eq] at hcurrent hcaller hexecuting
  obtain ⟨⟨hactive, hgeneration⟩, _⟩ := hcurrent
  have active : a.run.activeAttempt = some a.attempt.id := by
    rw [locked.same]
    exact text_eq hactive locked.named
  have live : a.run.status.live := by
    cases hstatus : a.run.status <;> simp_all [RunStatus.live]
  refine ⟨a, locked, active, hgeneration, live, ?_⟩
  split at h
  · simp only [Result.bind_ok, Result.throwIf_ok, Result.pure_ok, Prod.mk.injEq, exists_and_left,
      exists_const, Bool.or_eq_true, decide_eq_true_eq, Bool.not_eq_true', not_or,
      Decidable.not_not, Bool.not_eq_false, ne_eq] at h
    obtain ⟨⟨⟨⟨hinstance, _⟩, hlease⟩, hdeadline⟩, rfl, _⟩ := h
    rw [locked.lease] at hlease
    rw [locked.deadline] at hdeadline
    exact .inl ⟨text_eq hinstance hcaller.1, hlease, hdeadline, rfl⟩
  · rename_i hinstance
    simp only [Result.bind_ok, Result.throwIf_ok, Result.pure_ok, Prod.mk.injEq, exists_and_left,
      exists_const] at h
    obtain ⟨hlaunch, db'', hevent, rfl, _⟩ := h
    simp only [locked.launch, Bool.or_eq_true, decide_eq_true_eq, Bool.not_eq_true',
      decide_eq_false_iff_not, not_or, Decidable.not_not, ne_eq] at hlaunch
    have unclaimed : a.attempt.instanceId = none := by
      cases hi : a.attempt.instanceId with
      | none => rfl
      | some v =>
        have hempty : v = "" := by simpa [hi] using hinstance
        exact absurd (hempty ▸ hi) locked.claimed
    rw [← locked.same] at hevent
    have written := event_put (g := fun r => r.enter .running) wf locked.attempt locked.run rfl
      (fun _ => rfl) rfl hevent
    exact .inr ⟨unclaimed, hcaller.1, hlaunch.1, hlaunch.2, written⟩

theorem start_effect {nodeName : String} {x : Assignment} (wf : db.toJournal.WellFormed)
    (h : start p.timing now id generation caller nodeName db = .ok (db', x)) :
    Effect p now db.toLedger (.start id generation caller nodeName) db'.toLedger := by
  obtain ⟨a, locked, active, hgeneration, _, hreplay | hclaim⟩ := start_ok wf h
  · rw [hreplay.2.2.2]
    exact .same
  · obtain ⟨unclaimed, nonempty, starting, inTime, written⟩ := hclaim
    rw [← locked.same, ← hgeneration]
    exact locked.moved (.claimed active starting unclaimed nonempty inTime) written

theorem heartbeat_effect (wf : db.toJournal.WellFormed)
    (h : heartbeat p.timing now id generation caller db = .ok db') :
    Effect p now db.toLedger (.heartbeat id generation caller) db'.toLedger := by
  obtain ⟨a, howned, hreturn⟩ := Result.bind_ok.mp h
  obtain ⟨locked, owned, rfl, _⟩ := owned_ok wf howned
  obtain rfl := Result.pure_ok.mp hreturn
  have written := locked.put_attempt wf
    (f := fun row => row.renew (now + seconds p.timing.leaseSeconds)) rfl
  rw [← locked.same] at written ⊢
  exact locked.moved (.renewed owned) written

theorem beginFinalization_effect (wf : db.toJournal.WellFormed)
    (h : beginFinalization p.timing now id generation caller db = .ok db') :
    Effect p now db.toLedger (.beginFinalization id generation caller) db'.toLedger := by
  obtain ⟨a, howned, hbody⟩ := Result.bind_ok.mp h
  obtain ⟨locked, owned, rfl, _⟩ := owned_ok wf howned
  split at hbody
  · rename_i hrunning
    rw [← locked.same] at hbody ⊢
    have written := event_put (g := fun r => r.enter .finalizing) wf locked.attempt locked.run rfl
      (fun _ => rfl) rfl hbody
    exact locked.moved (.finalizing owned hrunning) written
  · obtain rfl := Result.pure_ok.mp hbody
    exact .same

theorem fail_effect {a : LockedAttempt} {failure : Failure} {reason : String}
    {exitCode : Option Int} {op : Op} (wf : db.toJournal.WellFormed)
    (locked : Locked now id db.toJournal a) (active : a.run.activeAttempt = some a.attempt.id)
    (cause : Cause now a.run a.attempt op failure reason exitCode)
    (h : fail p.timing now a failure reason exitCode db = .ok db') :
    Effect p now db.toLedger op db'.toLedger := by
  simp only [fail] at h
  have written := event_put wf locked.attempt locked.run rfl (by intro r; rfl) rfl h
  exact locked.moved (.failed active cause rfl rfl) written

theorem finish_effect {exitCode finalSequence : Int} {reason : String}
    (wf : db.toJournal.WellFormed)
    (h : finish p.timing now id generation caller exitCode reason finalSequence db = .ok db') :
    Effect p now db.toLedger (.finish id generation caller exitCode reason finalSequence)
      db'.toLedger := by
  obtain ⟨_, _, hbody⟩ := Result.bind_ok.mp h
  split at hbody
  · obtain rfl := Result.pure_ok.mp hbody
    exact .same
  · simp only [Result.bind_ok, Result.throwIf_ok, exists_and_left, exists_const] at hbody
    obtain ⟨a, howned, hsynced, hfinal, hwrite⟩ := hbody
    obtain ⟨locked, owned, rfl, _⟩ := owned_ok wf howned
    have synced : a.attempt.ackSequence = finalSequence := by simpa using hsynced
    rw [← locked.same] at hwrite ⊢
    split at hwrite
    · rename_i hzero
      subst hzero
      have finalizing : a.run.status = .finalizing := by simpa using hfinal
      have written := event_put (g := fun r => r.enter .succeeded) wf locked.attempt locked.run
        rfl (fun _ => rfl) rfl hwrite
      exact locked.moved (.completed owned synced finalizing) written
    · rename_i hnonzero
      exact fail_effect wf locked owned.active (.reported owned synced hnonzero) hwrite

theorem recoverAttempt_effect (wf : db.toJournal.WellFormed)
    (h : recoverAttempt p.timing now id db = .ok db') :
    Effect p now db.toLedger (.recoverAttempt id) db'.toLedger := by
  obtain ⟨a, hlock, h⟩ := Result.bind_ok.mp h
  have locked := lockAttempt_ok wf hlock
  split at h
  · obtain rfl := Result.pure_ok.mp h
    exact .same
  rename_i hguard
  simp only [Bool.or_eq_true, decide_eq_true_eq, not_or, Decidable.not_not, ne_eq] at hguard
  have active : a.run.activeAttempt = some a.attempt.id := by
    rw [locked.same]
    exact text_eq hguard.1.1 locked.named
  simp only [locked.launch, locked.deadline, locked.lease, Bool.and_eq_true, Bool.or_eq_true,
    decide_eq_true_eq, Bool.not_eq_true', decide_eq_false_iff_not, not_lt] at h
  rw [← locked.same]
  split at h
  · rename_i hcase
    exact fail_effect wf locked active (.launchTimeout hcase.1 hcase.2) h
  split at h
  · rename_i hcase
    exact fail_effect wf locked active (.timeout hcase.1 (by simp [hcase.2])) h
  split at h
  · rename_i hcase
    exact fail_effect wf locked active (.finalizationTimeout hcase.1 (by simp [hcase.2])) h
  split at h
  · rename_i hcase
    exact fail_effect wf locked active (.leaseExpired hcase.1 (by simp [hcase.2])) h
  · obtain rfl := Result.pure_ok.mp h
    exact .same

theorem kubernetesStopped_effect (wf : db.toJournal.WellFormed)
    (h : kubernetesStopped p.timing now id db = .ok db') :
    Effect p now db.toLedger (.kubernetesStopped id) db'.toLedger := by
  simp only [kubernetesStopped, Result.bind_ok, Result.throwIf_ok, exists_and_left,
    exists_const] at h
  obtain ⟨a, hlock, _, h⟩ := h
  have locked := lockAttempt_ok wf hlock
  split at h
  · rename_i hlive
    simp only [Bool.and_eq_true, decide_eq_true_eq] at hlive
    obtain ⟨hactive, live⟩ := hlive
    have active : a.run.activeAttempt = some a.attempt.id := by
      rw [locked.same]
      exact text_eq hactive locked.named
    rw [← locked.same]
    split at h
    · rename_i hlate
      simp only [locked.deadline, Bool.and_eq_true, decide_eq_true_eq, Bool.not_eq_true'] at hlate
      exact fail_effect wf locked active (.stoppedLate live hlate.1 (by simp [hlate.2])) h
    · exact fail_effect wf locked active (.stopped live) h
  · obtain rfl := Result.pure_ok.mp h
    exact .same

theorem insertRecords_ledger {records : List Telemetry} {sequence next : Int} {db db' : Db}
    (h : insertRecords id records sequence db = .ok (db', next)) :
    db'.toLedger = db.toLedger := by
  induction records generalizing sequence db with
  | nil =>
    simp only [insertRecords, Except.ok.injEq, Prod.mk.injEq] at h
    rw [h.1]
  | cons r rest ih =>
    rw [insertRecords] at h
    split at h
    · exact ih h
    split at h
    · cases h
      rfl
    · obtain ⟨db'', hinsert, hrest⟩ := Result.bind_ok.mp h
      rw [ih hrest]
      rw [Db.insertTelemetry] at hinsert
      split at hinsert
      · cases hinsert
      · cases hinsert
        rfl

theorem report_effect {records : List Telemetry} {sequence : Int} (wf : db.toJournal.WellFormed)
    (h : report now id generation caller records db = .ok (db', sequence)) :
    Effect p now db.toLedger (.report id generation caller records) db'.toLedger := by
  simp only [report, Result.bind_ok] at h
  obtain ⟨_, _, _, _, a, howned, ⟨db'', next⟩, hinsert, hreturn⟩ := h
  obtain ⟨locked, owned, rfl, _⟩ := owned_ok wf howned
  simp only [Result.pure_ok, Prod.mk.injEq] at hreturn
  obtain ⟨rfl, rfl⟩ := hreturn
  have unchanged := insertRecords_ledger hinsert
  have written := locked.put_attempt wf (f := fun row => row.acknowledge next) rfl
  rw [← locked.same] at written ⊢
  have move : Move p.timing now a.run a.attempt
      (.report a.attempt.id a.run.generation caller records) a.run
      (a.attempt.acknowledge next) [] := .acknowledged owned
  refine locked.moved move ?_
  rw [← written]
  simp only [Db.updateAttempt, unchanged]

theorem publishArtifact_ledger {value result : Artifact}
    (h : publishArtifact now value generation caller db = .ok (db', result)) :
    db'.toLedger = db.toLedger := by
  simp only [publishArtifact, Result.bind_ok] at h
  obtain ⟨a, _, _, _, h⟩ := h
  split at h
  · simp only [Result.bind_ok, Result.pure_ok, Prod.mk.injEq] at h
    obtain ⟨_, _, rfl, _⟩ := h
    rfl
  · simp only [Result.bind_ok, Result.pure_ok, Prod.mk.injEq] at h
    obtain ⟨_, _, db'', hinsert, rfl, _⟩ := h
    rw [Db.insertArtifact] at hinsert
    split at hinsert
    · cases hinsert
    split at hinsert
    · cases hinsert
    · cases hinsert
      rfl

theorem cancel_effect {x : RunRow} (wf : db.toJournal.WellFormed)
    (h : cancel now id db = .ok (db', x)) :
    Effect p now db.toLedger (.cancel id) db'.toLedger := by
  rw [cancel] at h
  split at h
  · cases h
  rename_i r hr
  have hid : r.id = id := (Table.lookup_mem hr).2
  have hmem : r ∈ db.runs := (Table.lookup_mem hr).1
  subst hid
  split at h
  · simp only [Result.pure_ok, Prod.mk.injEq] at h
    rw [← h.1]
    exact .same
  rename_i hterminal
  obtain ⟨db'', hevent, hreturn⟩ := Result.bind_ok.mp h
  simp only [Result.pure_ok, Prod.mk.injEq] at hreturn
  obtain ⟨rfl, _⟩ := hreturn
  have written := event_updateRun hevent wf.runs hr (fun _ => rfl) rfl
  rw [written]
  exact .cancelled hr hterminal

theorem cleaned_attempts {a : AttemptRow} (wf : db.toJournal.WellFormed)
    (ha : db.attempt? a.id = some a) :
    Table.update (fun row => decide (row.id = a.id)) (fun row => row.clean) db.attempts =
      Table.replace (·.id) a.clean db.attempts :=
  wf.attempts.update_eq_replace (Table.lookup_mem ha).1 rfl

theorem requireWorker_ok {worker session : String} {w : WorkerRow}
    (h : requireWorker worker session db = .ok w) :
    db.worker? worker = some w ∧ w.id = worker ∧ w.session = session := by
  rw [requireWorker] at h
  cases hw : db.worker? worker with
  | none => simp [hw] at h
  | some v =>
    simp only [hw, Result.bind_ok, Result.throwIf_ok, Result.pure_ok, exists_and_left,
      exists_const, decide_eq_true_eq, Decidable.not_not, ne_eq] at h
    obtain ⟨hsession, rfl⟩ := h
    exact ⟨rfl, (Table.lookup_mem hw).2, hsession⟩

theorem runtimeReport_effect {worker session runtime : String} {stopped : Bool}
    (wf : db.toJournal.WellFormed)
    (h : runtimeReport now worker session id runtime stopped db = .ok db') :
    Effect p now db.toLedger (.runtimeReport worker session id runtime stopped) db'.toLedger := by
  simp only [runtimeReport, Result.bind_ok, Result.throwIf_ok, exists_and_left, exists_const,
    decide_eq_true_eq, Decidable.not_not, ne_eq] at h
  obtain ⟨w, hworker, a, hlock, howner, h⟩ := h
  have registered := (requireWorker_ok hworker).1
  have locked := lockAttempt_ok wf hlock
  subst howner
  cases stopped with
  | true =>
    simp only [if_true, Result.bind_ok, Result.throwIf_ok, Result.pure_ok, exists_and_left,
      exists_const] at h
    obtain ⟨hfinished, rfl⟩ := h
    rw [← locked.same]
    have effect : Effect p now db.toLedger
        (.runtimeReport a.attempt.workerId session a.attempt.id runtime true) _ :=
      .stopped ⟨w, registered⟩ locked.attempt rfl hfinished
    rw [← cleaned_attempts wf locked.attempt] at effect
    exact effect
  | false =>
    simp only [Bool.false_eq_true, if_false, Result.pure_ok] at h
    subst h
    have written := locked.put_attempt wf (f := fun row => row.launch runtime) rfl
    rw [← locked.same] at written ⊢
    exact locked.moved .launched written

theorem kubernetesRuntime_effect {runtime : String} {removed : Bool}
    (wf : db.toJournal.WellFormed) (h : kubernetesRuntime now id runtime removed db = .ok db') :
    Effect p now db.toLedger (.kubernetesRuntime id runtime removed) db'.toLedger := by
  simp only [kubernetesRuntime, Result.bind_ok, Result.throwIf_ok, exists_and_left, exists_const,
    decide_eq_true_eq, Decidable.not_not, ne_eq] at h
  obtain ⟨a, hlock, howner, h⟩ := h
  have locked := lockAttempt_ok wf hlock
  cases removed with
  | true =>
    simp only [if_true, Result.bind_ok, Result.throwIf_ok, Result.pure_ok, exists_and_left,
      exists_const] at h
    obtain ⟨hfinished, rfl⟩ := h
    rw [← locked.same]
    have effect : Effect p now db.toLedger (.kubernetesRuntime a.attempt.id runtime true) _ :=
      .removed locked.attempt howner hfinished
    rw [← cleaned_attempts wf locked.attempt] at effect
    exact effect
  | false =>
    simp only [Bool.false_eq_true, if_false, Result.pure_ok] at h
    subst h
    have written := locked.put_attempt wf (f := fun row => row.launch runtime) rfl
    rw [← locked.same] at written ⊢
    exact locked.moved (.jobLaunched howner) written

end Attempts

section Runs

variable {p : PostgresStore} {now : Int} {db db' : Db}

theorem requeueEvents_ok {rows : List RunRow} (keyed : Table.Keyed (·.id) db.runs)
    (distinct : Table.Keyed (·.id) rows)
    (found : ∀ row ∈ rows, ∃ s, db.run? row.id = some s ∧ s.eventSequence = row.eventSequence)
    (h : requeueEvents now rows db = .ok db') :
    db'.toLedger = { db.toLedger with
      runs :=
        Table.update (fun r => rows.any fun row => row.id = r.id) (fun r => r.count now) db.runs
      events :=
        db.events ++ rows.map fun r => r.eventRow now .requeued "retry delay elapsed" } := by
  induction rows generalizing db with
  | nil =>
    simp only [requeueEvents, Except.ok.injEq] at h
    subst h
    have unchanged : Table.update (fun r => ([] : List RunRow).any fun row => row.id = r.id)
        (fun r => r.count now) db.runs = db.runs :=
      Table.update_eq_self fun r _ hr => by simp at hr
    rw [unchanged]
    simp
  | cons row rest ih =>
    obtain ⟨db'', hevent, hrest⟩ := Result.bind_ok.mp h
    obtain ⟨s, hs, rfl⟩ := event_ok hevent
    obtain ⟨s', hs', hsequence⟩ := found row List.mem_cons_self
    rw [hs] at hs'
    cases hs'
    have apart : ∀ other ∈ rest, other.id ≠ row.id := by
      intro other hother hid
      have hnodup := (List.nodup_cons.mp distinct).1
      exact hnodup (List.mem_map.mpr ⟨other, hother, hid⟩)
    have keeps : ∀ r : RunRow, (fun r => decide (r.id = row.id)) r → (r.count now).id = r.id := by
      intro r _
      rfl
    have result := ih (keyed.update keeps) (List.nodup_cons.mp distinct).2 ?_ hrest
    · rw [result]
      have hruns : Table.update (fun r => rest.any fun other => decide (other.id = r.id))
          (fun r => r.count now)
          (Table.update (fun r => decide (r.id = row.id)) (fun r => r.count now) db.runs) =
          Table.update (fun r => (row :: rest).any fun other => decide (other.id = r.id))
            (fun r => r.count now) db.runs := by
        rw [Table.update_update, Table.update]
        refine List.map_congr_left ?_
        intro r _
        by_cases hid : r.id = row.id
        · have hfree : (rest.any fun other => decide (other.id = row.id)) = false := by
            simpa using apart
          simp [hid, hfree]
        · have hid' : row.id ≠ r.id := fun h => hid h.symm
          simp [hid, hid']
      simp [hruns, RunRow.eventRow, hsequence, List.append_assoc]
    · intro other hother
      obtain ⟨t, ht, htseq⟩ := found other (List.mem_cons_of_mem row hother)
      refine ⟨t, ?_, htseq⟩
      have hlookup := Table.lookup_update (k := other.id) keeps db.runs
      simp only [Journal.run?] at ht
      have htid : t.id ≠ row.id := by
        rw [(Table.lookup_mem ht).2]
        exact apart other hother
      simpa [Journal.run?, ht, htid] using hlookup

/-- Exactly the runs whose retry is due are requeued. -/
theorem recoverRequeue_ok (wf : db.toJournal.WellFormed) (h : recoverRequeue now db = .ok db') :
    db'.toLedger = { db.toLedger with
      runs := requeuedRuns now db.runs
      events := db.events ++ requeuedEvents now db.runs } := by
  have keeps : ∀ r : RunRow, retryDue now r → (r.enter .queued).id = r.id := by
    intro r _
    rfl
  have found : ∀ row ∈ db.runs.filter (retryDue now),
      ∃ s, Table.lookup (·.id) row.id
        (Table.update (retryDue now) (fun r => r.enter .queued) db.runs) = some s ∧
        s.eventSequence = row.eventSequence := by
    intro row hrow
    obtain ⟨hmem, hdue⟩ := List.mem_filter.mp hrow
    rw [Table.lookup_update keeps, wf.runs.lookup hmem]
    exact ⟨_, rfl, by simp [hdue]⟩
  have result := requeueEvents_ok (wf.runs.update keeps) (wf.runs.filter _) found h
  have hruns : Table.update
      (fun r => (db.runs.filter (retryDue now)).any fun row => decide (row.id = r.id))
      (fun r => r.count now) (Table.update (retryDue now) (fun r => r.enter .queued) db.runs) =
      requeuedRuns now db.runs := by
    rw [Table.update_update, requeuedRuns, Table.update]
    refine List.map_congr_left ?_
    intro r hr
    by_cases hdue : retryDue now r
    · have hself : (db.runs.filter (retryDue now)).any (fun row => decide (row.id = r.id)) = true :=
        List.any_eq_true.mpr ⟨r, List.mem_filter.mpr ⟨hr, hdue⟩, by simp⟩
      simp [hdue, hself]
    · have hother : (db.runs.filter (retryDue now)).any (fun row => decide (row.id = r.id)) =
          false := by
        rw [List.any_eq_false]
        intro row hrow hid
        obtain ⟨hmem, hdue'⟩ := List.mem_filter.mp hrow
        have same := wf.runs.eq hmem hr (of_decide_eq_true hid)
        exact hdue (same ▸ hdue')
      simp [hdue, hother]
  rw [result, hruns]
  rfl

theorem recoverRequeue_effect (wf : db.toJournal.WellFormed)
    (h : recoverRequeue now db = .ok db') :
    Effect p now db.toLedger .recoverRequeue db'.toLedger := by
  rw [recoverRequeue_ok wf h]
  exact .requeued

theorem insertRun_ok {row : RunRow} (h : db.insertRun row = .ok db') :
    (∀ r ∈ db.runs, r.id ≠ row.id) ∧ db' = { db with runs := db.runs ++ [row] } := by
  rw [Db.insertRun] at h
  split at h
  · cases h
  · rename_i hfresh
    cases h
    exact ⟨by simpa using hfresh, rfl⟩

theorem insertSubmission_ledger {row : SubmissionRow} (h : db.insertSubmission row = .ok db') :
    db'.toLedger = db.toLedger := by
  rw [Db.insertSubmission] at h
  split at h
  · cases h
  · cases h
    rfl

/-- The event of a run that was inserted in the same transaction. -/
theorem event_inserted {row : RunRow} {kind : EventKind} {detail : String} {db₁ : Db}
    (fresh : ∀ r ∈ db.runs, r.id ≠ row.id)
    (inserted : db₁.toLedger = { db.toLedger with runs := db.runs ++ [row] })
    (h : event now row.id kind detail db₁ = .ok db') :
    db'.toLedger = { db.toLedger with
      runs := db.runs ++ [row.count now]
      events := db.events ++ [⟨row.id, row.eventSequence + 1, kind, detail, now⟩] } := by
  obtain ⟨s, hs, rfl⟩ := event_ok h
  have hruns : db₁.runs = db.runs ++ [row] := by rw [inserted]
  have hunchanged : Table.update (fun r => decide (r.id = row.id)) (fun r => r.count now) db.runs =
      db.runs :=
    Table.update_eq_self fun r hr hid => absurd (of_decide_eq_true hid) (fresh r hr)
  have habsent : Table.lookup (·.id) row.id db.runs = none := by
    simpa [Table.lookup] using fresh
  have hs' : s = row := by
    have hlookup : Table.lookup (·.id) row.id db₁.runs = some s := hs
    rw [hruns, Table.lookup_append, habsent] at hlookup
    simpa [Table.lookup] using hlookup.symm
  subst hs'
  simp [inserted, hunchanged]

theorem newRun_fresh {row : RunRow} {id : RandomId} {spec : RunSpec}
    {sweep parent : Option String} (valid : validateSubmission spec = .ok ())
    (new : row = { newRun now id spec with sweepId := sweep, parentRunId := parent }) :
    (row.count now).Fresh now := by
  subst new
  exact ⟨valid, rfl, rfl, rfl, rfl, rfl, rfl, rfl⟩

theorem submit_effect {randomId : RandomId} {spec : RunSpec} {key fingerprint : String}
    {x : RunRow} {op : Op} (wf : db.toJournal.WellFormed)
    (h : submit now randomId spec key fingerprint db = .ok (db', x)) :
    Effect p now db.toLedger op db'.toLedger := by
  obtain ⟨_, hvalid, h⟩ := Result.bind_ok.mp h
  split at h
  · simp only [Result.bind_ok] at h
    obtain ⟨_, _, h⟩ := h
    split at h
    · cases h
    · simp only [Result.pure_ok, Prod.mk.injEq] at h
      rw [← h.1]
      exact .same
  · simp only [Result.bind_ok, Result.pure_ok, Prod.mk.injEq] at h
    obtain ⟨db₁, hrun, db₂, hsubmission, db₃, hevent, rfl, _⟩ := h
    obtain ⟨fresh, rfl⟩ := insertRun_ok hrun
    have written := event_inserted fresh (insertSubmission_ledger hsubmission) hevent
    rw [written]
    have born : ((newRun now randomId spec).count now).Fresh now := newRun_fresh hvalid rfl
    have effect : Effect p now db.toLedger op { db.toLedger with
        runs := db.runs ++ [(newRun now randomId spec).count now]
        events := db.events ++ [(newRun now randomId spec).count now].map fun r =>
          ⟨r.id, 1, .submitted, "run accepted", now⟩ } :=
      .submitted (by simpa using born) (wf.runs.append fresh)
    exact effect

theorem insertSweepRuns_ok {sweep : String} {randomId : Nat → RandomId} {i : Nat}
    {specs : List RunSpec} (wf : Table.Keyed (·.id) db.runs)
    (h : insertSweepRuns now sweep randomId i specs db = .ok db') :
    ∃ rows : List RunRow, (∀ r ∈ rows, r.Fresh now) ∧ Table.Keyed (·.id) (db.runs ++ rows) ∧
      db'.toLedger = { db.toLedger with
        runs := db.runs ++ rows
        events := db.events ++
          rows.map fun r => ⟨r.id, 1, .submitted, "sweep " ++ sweep, now⟩ } := by
  induction specs generalizing i db with
  | nil =>
    simp only [insertSweepRuns, Except.ok.injEq] at h
    subst h
    exact ⟨[], by simp, by simpa using wf, by simp⟩
  | cons spec rest ih =>
    simp only [insertSweepRuns, Result.bind_ok] at h
    obtain ⟨_, hvalid, db₁, hrun, db₂, hevent, hrest⟩ := h
    obtain ⟨fresh, rfl⟩ := insertRun_ok hrun
    have written := event_inserted fresh rfl hevent
    have hruns : db₂.runs = db.runs ++ [RunRow.count { newRun now (randomId i) spec with
        sweepId := some sweep } now] := by rw [written]
    have keyed : Table.Keyed (·.id) db₂.runs := by
      rw [hruns]
      exact wf.append fresh
    obtain ⟨rows, hfresh, hkeyed, hledger⟩ := ih keyed hrest
    refine ⟨RunRow.count { newRun now (randomId i) spec with sweepId := some sweep } now :: rows,
      ?_, ?_, ?_⟩
    · intro r hr
      rcases List.mem_cons.mp hr with rfl | hr
      · exact newRun_fresh hvalid rfl
      · exact hfresh r hr
    · simpa [hruns] using hkeyed
    · rw [hledger, written]
      simp

theorem insertSweep_ledger {row : SweepRow} (h : db.insertSweep row = .ok db') :
    db'.toLedger = db.toLedger := by
  rw [Db.insertSweep] at h
  split at h
  · cases h
  split at h
  · cases h
  · cases h
    rfl

theorem submitSweep_effect {randomId : Nat → RandomId} {spec : SweepSpec} {runs : List RunSpec}
    {key fingerprint : String} {x : Sweep} {op : Op} (wf : db.toJournal.WellFormed)
    (h : submitSweep now randomId spec runs key fingerprint db = .ok (db', x)) :
    Effect p now db.toLedger op db'.toLedger := by
  rw [submitSweep] at h
  split at h
  · simp only [Result.bind_ok, Result.pure_ok, Prod.mk.injEq] at h
    obtain ⟨_, _, _, _, rfl, _⟩ := h
    exact .same
  · simp only [Result.bind_ok, Result.pure_ok, Prod.mk.injEq] at h
    obtain ⟨db₁, hsweep, db₂, hruns, _, _, rfl, _⟩ := h
    have unchanged := insertSweep_ledger hsweep
    have keyed : Table.Keyed (·.id) db₁.runs := by
      rw [unchanged]
      exact wf.runs
    obtain ⟨rows, hfresh, hkeyed, hledger⟩ := insertSweepRuns_ok keyed hruns
    rw [hledger, unchanged]
    rw [unchanged] at hkeyed
    exact .submitted hfresh hkeyed

theorem rerun_effect {randomId : RandomId} {sha256 : String → String} {id key : String}
    {x : RunRow} {op : Op} (wf : db.toJournal.WellFormed)
    (h : rerun now randomId sha256 id key db = .ok (db', x)) :
    Effect p now db.toLedger op db'.toLedger := by
  rw [rerun] at h
  split at h
  · simp only [Result.bind_ok] at h
    obtain ⟨_, _, h⟩ := h
    split at h
    · cases h
    · simp only [Result.pure_ok, Prod.mk.injEq] at h
      rw [← h.1]
      exact .same
  · split at h
    · cases h
    rename_i old _
    simp only [Result.bind_ok, Result.pure_ok, Prod.mk.injEq] at h
    obtain ⟨_, _, _, hvalid, db₁, hrun, db₂, hsubmission, db₃, hevent, rfl, _⟩ := h
    obtain ⟨fresh, rfl⟩ := insertRun_ok hrun
    have written := event_inserted fresh (insertSubmission_ledger hsubmission) hevent
    rw [written]
    have born :
        (RunRow.count { newRun now randomId old.spec with parentRunId := some id } now).Fresh now :=
      newRun_fresh hvalid rfl
    have effect : Effect p now db.toLedger op { db.toLedger with
        runs := db.runs ++
          [RunRow.count { newRun now randomId old.spec with parentRunId := some id } now]
        events := db.events ++
          [RunRow.count { newRun now randomId old.spec with parentRunId := some id } now].map
            fun r => ⟨r.id, 1, .submitted, "rerun of " ++ id, now⟩ } :=
      .submitted (by simpa using born) (wf.runs.append fresh)
    exact effect

end Runs

section Workers

variable {p : PostgresStore} {now : Int} {id session : String} {db db' : Db}

theorem updateWorker_ledger {w : WorkerRow} {f : WorkerRow → WorkerRow}
    (wf : db.toLedger.WellFormed) (hw : db.worker? w.id = some w) (hf : (f w).id = w.id) :
    (db.updateWorker w.id f).toLedger = { db.toLedger with
      workers := Table.replace (·.id) (f w) db.workers } := by
  have hworkers := wf.workers.update_eq_replace (Table.lookup_mem hw).1 hf
  simp [Db.updateWorker, hworkers]

theorem workerHeartbeat_effect (wf : db.toLedger.WellFormed)
    (h : workerHeartbeat now id session db = .ok db') :
    Effect p now db.toLedger (.workerHeartbeat id session) db'.toLedger := by
  obtain ⟨w, hworker, hreturn⟩ := Result.bind_ok.mp h
  obtain ⟨hw, rfl, _⟩ := requireWorker_ok hworker
  obtain rfl := Result.pure_ok.mp hreturn
  rw [updateWorker_ledger wf hw rfl]
  exact .marked hw rfl rfl rfl

theorem drainWorker_effect {drained : Bool} (wf : db.toLedger.WellFormed)
    (h : drainWorker id drained db = .ok db') :
    Effect p now db.toLedger (.drainWorker id drained) db'.toLedger := by
  rw [drainWorker] at h
  split at h
  · cases h
  · rename_i w hw
    cases h
    have hid : w.id = id := (Table.lookup_mem hw).2
    subst hid
    rw [updateWorker_ledger wf hw rfl]
    exact .marked hw rfl rfl rfl

theorem registerWorker_effect {capacity : Capacity} {gpu : GpuRegistration}
    (wf : db.toLedger.WellFormed) (h : registerWorker now id session capacity gpu db = .ok db') :
    Effect p now db.toLedger (.registerWorker id session capacity gpu) db'.toLedger := by
  simp only [registerWorker, Result.bind_ok, Result.throwIf_ok, exists_and_left, exists_const,
    Bool.or_eq_true, not_or] at h
  obtain ⟨hvalid, h⟩ := h
  have docker : ¬ startsWith id "@" := hvalid.1.1.1.1.1.1.1.2
  have positive : 0 < capacity.cpuMillis ∧ 0 < capacity.memoryMib := by
    obtain ⟨⟨⟨⟨_, hcpu⟩, hmemory⟩, _⟩, _⟩ := hvalid
    simp only [decide_eq_true_eq, not_le] at hcpu hmemory
    exact ⟨hcpu, hmemory⟩
  split at h
  · rename_i hw
    obtain rfl := Result.pure_ok.mp h
    exact .registered docker positive hw
  · rename_i w hw
    simp only [Result.bind_ok, Result.throwIf_ok, Result.pure_ok, exists_and_left,
      exists_const] at h
    obtain ⟨_, rfl⟩ := h
    have hid : w.id = id := (Table.lookup_mem hw).2
    subst hid
    rw [updateWorker_ledger wf hw rfl]
    exact .reregistered hw

theorem Discovered.refl (rows : List GpuDeviceRow) : Discovered rows rows :=
  ⟨fun h => h, fun d hd => ⟨d, hd, rfl, rfl⟩⟩

theorem Discovered.trans {before rows after : List GpuDeviceRow} (first : Discovered before rows)
    (second : Discovered rows after) : Discovered before after := by
  constructor
  · exact fun h => second.keyed (first.keyed h)
  · intro d hd
    obtain ⟨d', hd', huuid, hworker⟩ := first.kept d hd
    obtain ⟨d'', hd'', huuid', hworker'⟩ := second.kept d' hd'
    exact ⟨d'', hd'', huuid'.trans huuid, hworker'.trans hworker⟩

theorem Discovered.update {p : GpuDeviceRow → Bool} {f : GpuDeviceRow → GpuDeviceRow}
    (uuid : ∀ d, (f d).uuid = d.uuid) (worker : ∀ d, (f d).workerId = d.workerId)
    (rows : List GpuDeviceRow) : Discovered rows (Table.update p f rows) := by
  constructor
  · exact fun h => h.update fun d _ => uuid d
  · intro d hd
    by_cases hp : p d
    · exact ⟨f d, Table.mem_update_of_mem f hd hp, uuid d, worker d⟩
    · exact ⟨d, Table.mem_update_of_not f hd hp, rfl, rfl⟩

theorem upsertDevice_ok {worker : String} {device : GpuDevice}
    (h : upsertDevice now worker device db = .ok db') :
    ∃ devices, db' = { db with gpuDevices := devices } ∧ Discovered db.gpuDevices devices := by
  rw [upsertDevice] at h
  split at h
  · rename_i habsent
    cases h
    have fresh := Table.lookup_none habsent
    refine ⟨_, rfl, ?_, ?_⟩
    · exact fun h => h.append fresh
    · exact fun d hd => ⟨d, List.mem_append_left _ hd, rfl, rfl⟩
  · simp only [Result.bind_ok, Result.throwIf_ok, Result.pure_ok, exists_and_left,
      exists_const] at h
    obtain ⟨_, rfl⟩ := h
    refine ⟨_, rfl, .update ?_ ?_ _⟩
    · intro d
      rfl
    · intro d
      rfl

theorem upsertDevices_ok {worker : String} {devices : List GpuDevice}
    (h : upsertDevices now worker devices db = .ok db') :
    ∃ rows, db' = { db with gpuDevices := rows } ∧ Discovered db.gpuDevices rows := by
  induction devices generalizing db with
  | nil =>
    simp only [upsertDevices, Except.ok.injEq] at h
    subst h
    exact ⟨_, rfl, .refl _⟩
  | cons device rest ih =>
    obtain ⟨db₁, hfirst, hrest⟩ := Result.bind_ok.mp h
    obtain ⟨rows₁, rfl, found₁⟩ := upsertDevice_ok hfirst
    obtain ⟨rows₂, rfl, found₂⟩ := ih hrest
    exact ⟨rows₂, rfl, found₁.trans found₂⟩

theorem reportGpuInventory_effect {snapshot : GpuSnapshot} (wf : db.toLedger.WellFormed)
    (h : reportGpuInventory now id session snapshot db = .ok db') :
    Effect p now db.toLedger (.reportGpuInventory id session snapshot) db'.toLedger := by
  simp only [reportGpuInventory, Result.bind_ok, Result.throwIf_ok, exists_and_left,
    exists_const] at h
  obtain ⟨_, _, _, w, hworker, _, h⟩ := h
  obtain ⟨hw, rfl, _⟩ := requireWorker_ok hworker
  split at h
  · obtain rfl := Result.pure_ok.mp h
    exact .same
  split at h
  · obtain ⟨db₁, hdevices, hreturn⟩ := Result.bind_ok.mp h
    obtain rfl := Result.pure_ok.mp hreturn
    obtain ⟨rows, rfl, found⟩ := upsertDevices_ok hdevices
    have hidden := Discovered.update (p := fun d => d.workerId = w.id) (f := fun d => d.hide)
      (fun _ => rfl) (fun _ => rfl) db.gpuDevices
    have wf' : Ledger.WellFormed { db.toLedger with gpuDevices := rows } :=
      { wf with devices := (hidden.trans found).keyed wf.devices }
    have hw' : ({ db with gpuDevices := rows } : Db).worker? w.id = some w := hw
    have written := updateWorker_ledger (f := fun v => v.observe now snapshot) wf' hw' rfl
    rw [written]
    exact .discovered hw rfl rfl rfl (hidden.trans found)
  · obtain rfl := Result.pure_ok.mp h
    rw [updateWorker_ledger wf hw rfl]
    exact .marked hw rfl rfl rfl

end Workers

section Schedulers

variable {p : PostgresStore} {now : Int} {attempt : RandomId} {locked : List String}
  {db db' : Db}

theorem nextQueued_ok {fits : RunRow → Bool} {r : RunRow} (wf : db.toJournal.WellFormed)
    (h : nextQueued now locked fits db = some r) :
    db.run? r.id = some r ∧ r.status = .queued ∧ r.availableAt ≤ now ∧ fits r := by
  obtain ⟨hmem, hcondition⟩ := List.mem_filter.mp (Table.best_mem h)
  simp only [Bool.and_eq_true, decide_eq_true_eq] at hcondition
  obtain ⟨⟨⟨hstatus, havailable⟩, hfits⟩, _⟩ := hcondition
  exact ⟨wf.runs.lookup hmem, hstatus, havailable, hfits⟩

theorem insertAttempt_ok {row : AttemptRow} (h : db.insertAttempt row = .ok db') :
    (∀ a ∈ db.attempts, a.id ≠ row.id) ∧ db' = { db with attempts := db.attempts ++ [row] } := by
  rw [Db.insertAttempt] at h
  split at h
  · cases h
  rename_i hfresh
  split at h
  · cases h
  · cases h
    exact ⟨by simpa using hfresh, rfl⟩

theorem activate_ok {worker detail : String} {r : RunRow} (wf : db.toJournal.WellFormed)
    (hr : db.run? r.id = some r)
    (h : activate p.timing now attempt worker r detail db = .ok db') :
    (∀ a ∈ db.attempts, a.id ≠ attempt.text) ∧
      db'.toLedger = db.placed p.timing now attempt worker r detail := by
  simp only [activate, Result.bind_ok] at h
  obtain ⟨db₁, hinsert, hevent⟩ := h
  obtain ⟨fresh, rfl⟩ := insertAttempt_ok hinsert
  have written := event_updateRun hevent wf.runs hr (fun _ => rfl) rfl
  exact ⟨fresh, congrArg Db.toLedger written⟩

theorem chosen_of_activate {worker detail : String} {r : RunRow} {fits : RunRow → Bool}
    (wf : db.toJournal.WellFormed) (hnext : nextQueued now locked fits db = some r)
    (h : activate p.timing now attempt worker r detail db = .ok db') :
    Chosen now db.toLedger r attempt ∧ fits r ∧
      db'.toLedger = db.placed p.timing now attempt worker r detail := by
  obtain ⟨hr, hstatus, havailable, hfits⟩ := nextQueued_ok wf hnext
  obtain ⟨fresh, hledger⟩ := activate_ok wf hr h
  exact ⟨⟨hr, hstatus, havailable, fresh⟩, hfits, hledger⟩

theorem reserveGpus_ok {id : String} {count : Nat} {devices : List GpuDeviceRow}
    (h : reserveGpus now id count devices db = .ok db') :
    count ≤ devices.length ∧ db'.toLedger = { db.toLedger with
      attemptGpus := db.attemptGpus ++ reservations now id (devices.take count) } := by
  induction count generalizing devices db with
  | zero =>
    simp only [reserveGpus, Except.ok.injEq] at h
    subst h
    simp [reservations]
  | succ count ih =>
    cases devices with
    | nil => cases h
    | cons device rest =>
      obtain ⟨db₁, hinsert, hrest⟩ := Result.bind_ok.mp h
      obtain ⟨hle, hledger⟩ := ih hrest
      rw [Db.insertAttemptGpu] at hinsert
      split at hinsert
      · cases hinsert
      split at hinsert
      · cases hinsert
      · cases hinsert
        refine ⟨by simpa using hle, ?_⟩
        rw [hledger]
        simp [reservations]

theorem mem_freeGpus {worker : String} {d : GpuDeviceRow} (h : d ∈ freeGpus worker db) :
    d ∈ db.gpuDevices ∧ d.workerId = worker ∧ ¬ db.allocated d.uuid := by
  obtain ⟨hmem, hfree⟩ := List.mem_filter.mp ((List.mem_insertionSort _).mp h)
  simp only [Bool.and_eq_true, decide_eq_true_eq, Bool.not_eq_true'] at hfree
  exact ⟨hmem, hfree.1.1.1, by simp [hfree.2]⟩

theorem freeGpus_distinct {worker : String} (wf : db.toLedger.WellFormed) :
    ((freeGpus worker db).map (·.uuid)).Nodup := by
  have keyed := wf.devices.filter fun d =>
    d.workerId = worker && d.present && d.eligible && !db.allocated d.uuid
  exact ((List.perm_insertionSort _ _).map _).nodup_iff.mpr keyed

theorem mem_offeredGpus {w : WorkerRow} {d : GpuDeviceRow} (h : d ∈ offeredGpus now w db) :
    d ∈ db.gpuDevices ∧ d.workerId = w.id ∧ ¬ db.allocated d.uuid := by
  rw [offeredGpus] at h
  split at h
  · exact mem_freeGpus h
  · cases h

theorem offeredGpus_distinct {w : WorkerRow} (wf : db.toLedger.WellFormed) :
    ((offeredGpus now w db).map (·.uuid)).Nodup := by
  rw [offeredGpus]
  split
  · exact freeGpus_distinct wf
  · exact List.nodup_nil

theorem assign_effect {id session : String} {x : Option Assignment}
    (wf : db.toLedger.WellFormed)
    (h : assign p.timing now attempt locked id session db = .ok (db', x)) :
    Effect p now db.toLedger (.assign attempt locked id session) db'.toLedger := by
  obtain ⟨w, hworker, hbody⟩ := Result.bind_ok.mp h
  obtain ⟨hw, rfl, _⟩ := requireWorker_ok hworker
  split at hbody
  · simp only [Result.pure_ok, Prod.mk.injEq] at hbody
    rw [← hbody.1]
    exact .same
  split at hbody
  · split at hbody
    · cases hbody
    · simp only [Result.pure_ok, Prod.mk.injEq] at hbody
      rw [← hbody.1]
      exact .same
  split at hbody
  · simp only [Result.pure_ok, Prod.mk.injEq] at hbody
    rw [← hbody.1]
    exact .same
  rename_i hundrained
  dsimp only at hbody
  split at hbody
  · simp only [Result.pure_ok, Prod.mk.injEq] at hbody
    rw [← hbody.1]
    exact .same
  rename_i r hnext
  simp only [Result.bind_ok, Result.pure_ok, Prod.mk.injEq] at hbody
  obtain ⟨db₁, hactivate, db₂, hreserve, rfl, _⟩ := hbody
  obtain ⟨chosen, hfits, hplaced⟩ := chosen_of_activate wf.toWellFormed hnext hactivate
  obtain ⟨hcount, hreserved⟩ := reserveGpus_ok hreserve
  simp only [fitsWorker, Bool.and_eq_true, decide_eq_true_eq] at hfits
  obtain ⟨⟨_, hcpu⟩, hmemory⟩ := hfits
  rw [hreserved, hplaced]
  refine .assigned hw hundrained chosen hcpu hmemory ?_ ?_ ?_
  · rw [List.length_take]
    exact Nat.min_eq_left hcount
  · rw [List.map_take]
    exact (List.take_sublist _ _).nodup (offeredGpus_distinct wf)
  · intro d hd
    exact mem_offeredGpus (List.mem_of_mem_take hd)

theorem admitKubernetes_effect {maxActive : Nat} {x : Option Assignment}
    (wf : db.toJournal.WellFormed)
    (h : admitKubernetes p.timing now attempt locked maxActive db = .ok (db', x)) :
    Effect p now db.toLedger (.admitKubernetes attempt locked maxActive) db'.toLedger := by
  obtain ⟨_, _, hbody⟩ := Result.bind_ok.mp h
  split at hbody
  · simp only [Result.pure_ok, Prod.mk.injEq] at hbody
    rw [← hbody.1]
    exact .same
  rename_i hroom
  split at hbody
  · simp only [Result.pure_ok, Prod.mk.injEq] at hbody
    rw [← hbody.1]
    exact .same
  rename_i r hnext
  simp only [Result.bind_ok, Result.pure_ok, Prod.mk.injEq] at hbody
  obtain ⟨db₁, hactivate, rfl, _⟩ := hbody
  obtain ⟨chosen, _, hplaced⟩ := chosen_of_activate wf hnext hactivate
  rw [hplaced]
  exact .admitted (by omega) chosen

end Schedulers

/-- Every committed transaction has one of the listed effects. -/
theorem apply_effect {p : PostgresStore} {now : Int} {op : Op} {db db' : Db}
    (wf : db.toLedger.WellFormed) (h : p.apply now op db = .ok db') :
    Effect p now db.toLedger op db'.toLedger := by
  cases op with
  | submit _ _ _ _ =>
    obtain ⟨x, hx, rfl⟩ := Result.map_ok.mp h
    exact submit_effect wf.toWellFormed hx
  | submitSweep _ _ _ _ _ =>
    obtain ⟨x, hx, rfl⟩ := Result.map_ok.mp h
    exact submitSweep_effect wf.toWellFormed hx
  | rerun _ _ _ =>
    obtain ⟨x, hx, rfl⟩ := Result.map_ok.mp h
    exact rerun_effect wf.toWellFormed hx
  | registerWorker _ _ _ _ => exact registerWorker_effect wf h
  | workerHeartbeat _ _ => exact workerHeartbeat_effect wf h
  | drainWorker _ _ => exact drainWorker_effect wf h
  | reportGpuInventory _ _ _ => exact reportGpuInventory_effect wf h
  | assign _ _ _ _ =>
    obtain ⟨x, hx, rfl⟩ := Result.map_ok.mp h
    exact assign_effect wf hx
  | runtimeReport _ _ _ _ _ => exact runtimeReport_effect wf.toWellFormed h
  | admitKubernetes _ _ _ =>
    obtain ⟨x, hx, rfl⟩ := Result.map_ok.mp h
    exact admitKubernetes_effect wf.toWellFormed hx
  | kubernetesStopped _ => exact kubernetesStopped_effect wf.toWellFormed h
  | kubernetesRuntime _ _ _ => exact kubernetesRuntime_effect wf.toWellFormed h
  | start _ _ _ _ =>
    obtain ⟨x, hx, rfl⟩ := Result.map_ok.mp h
    exact start_effect wf.toWellFormed hx
  | heartbeat _ _ _ => exact heartbeat_effect wf.toWellFormed h
  | report _ _ _ _ =>
    obtain ⟨x, hx, rfl⟩ := Result.map_ok.mp h
    exact report_effect wf.toWellFormed hx
  | beginFinalization _ _ _ => exact beginFinalization_effect wf.toWellFormed h
  | verifyOwner _ _ _ =>
    obtain ⟨_, _, hreturn⟩ := Result.bind_ok.mp h
    obtain rfl := Result.pure_ok.mp hreturn
    exact .same
  | publishArtifact _ _ _ =>
    obtain ⟨x, hx, rfl⟩ := Result.map_ok.mp h
    rw [publishArtifact_ledger hx]
    exact .same
  | finish _ _ _ _ _ _ => exact finish_effect wf.toWellFormed h
  | cancel _ =>
    obtain ⟨x, hx, rfl⟩ := Result.map_ok.mp h
    exact cancel_effect wf.toWellFormed hx
  | recoverRequeue => exact recoverRequeue_effect wf.toWellFormed h
  | recoverAttempt _ => exact recoverAttempt_effect wf.toWellFormed h

end Runyard
