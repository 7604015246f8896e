import Runyard.Run.Lifetime

/-!
# Completion

Once an attempt is over, its row changes only in the columns that name its runtime and its
cleanup. `finish` recognises a repetition by the other columns, so an attempt has one outcome,
however often it is reported.
-/

namespace Runyard

/-- The row `a` of an attempt that is over has become `a'`. -/
def AttemptRow.Settles (a a' : AttemptRow) : Prop :=
  a' = { a with runtimeId := a'.runtimeId, cleanupStatus := a'.cleanupStatus }

namespace AttemptRow.Settles

variable {a a' a'' : AttemptRow}

theorem refl (a : AttemptRow) : a.Settles a := rfl

theorem status (h : a.Settles a') : a'.status = a.status := by
  rw [h]

theorem trans (first : a.Settles a') (second : a'.Settles a'') : a.Settles a'' := by
  rw [Settles] at first second
  rw [second, first]
  rfl

end AttemptRow.Settles

namespace History

variable {h : History} {timing : Timing} {now : Int}

/-- A transaction on an attempt that is over records its runtime at most. -/
theorem Coupled.settles_move (hc : h.Coupled) (hp : h.Proper) {op : Op} {r' : RunRow}
    {a a' : AttemptRow} {events : List EventRow} (ha : a ∈ h.attempts) (ended : ¬ a.status.live)
    (move : Move timing now h.run a op r' a' events) : a.Settles a' := by
  have running : ∀ {caller : String}, ¬ Owned now caller h.run a := by
    intro caller owned
    obtain ⟨_, hs | hs⟩ := hc.owned_status hp ha owned
    · simp [hs, AttemptStatus.live] at ended
    · simp [hs, AttemptStatus.live] at ended
  cases move with
  | claimed active starting _ _ _ =>
    have live := RunStatus.agrees_live (hc.status_of_active hp ha active)
    rw [starting] at live
    exact absurd live ended
  | renewed owned => exact absurd owned running
  | acknowledged owned => exact absurd owned running
  | finalizing owned _ => exact absurd owned running
  | completed owned _ _ => exact absurd owned running
  | failed active cause _ _ =>
    have live := RunStatus.agrees_live (hc.status_of_active hp ha active)
    rw [hc.cause_live hp ha active cause] at live
    exact absurd live ended
  | launched | jobLaunched => rfl

theorem settles_step {h' : History} (hp : h.Proper) (hc : h.Coupled)
    (step : Step timing now h h') :
    ∀ a ∈ h.attempts, ¬ a.status.live → ∃ a' ∈ h'.attempts, a.Settles a' := by
  intro b hb ended
  cases step with
  | @moved _ _ a a' _ member move =>
    have same := move.attempt_identity
    by_cases hid : b.id = a.id
    · obtain rfl := hp.keyed.eq hb member hid
      exact ⟨a', Table.replace_self ⟨b, hb, same.id.symm⟩, hc.settles_move hp hb ended move⟩
    · exact ⟨b, Table.replace_other hb fun h => hid (h.trans same.id), .refl b⟩
  | placed _ _ _ => exact ⟨b, List.mem_append_left _ hb, .refl b⟩
  | @cleaned a member _ =>
    by_cases hid : b.id = a.id
    · obtain rfl := hp.keyed.eq hb member hid
      exact ⟨b.clean, Table.replace_self ⟨b, hb, rfl⟩, rfl⟩
    · exact ⟨b, Table.replace_other hb hid, .refl b⟩
  | cancelled _ _ => exact ⟨b, Table.mem_update_of_not _ hb ended, .refl b⟩
  | requeued _ => exact ⟨b, hb, .refl b⟩

end History

section Reachable

variable {p : PostgresStore} {s : PostgresStore.State}

/-- The outcome of an attempt that is over stays as it is. -/
theorem settled_later {s' : PostgresStore.State} (hs : p.system.Reachable s)
    (later : p.system.Later s s') : ∀ a ∈ s.db.attempts, ¬ a.status.live →
      ∃ a' ∈ s'.db.attempts, a.Settles a' := by
  intro a ha ended
  obtain ⟨r, hr, hrun⟩ := (PostgresStore.reachable_wellFormed hs).toWellFormed.attemptRun a ha
  obtain ⟨r', _, _, hsettles⟩ := history_later
    (R := fun _ h _ h' => ∀ a ∈ h.attempts, ¬ a.status.live → ∃ a' ∈ h'.attempts, a.Settles a')
    (I := fun h => h.Coupled) (fun _ => coupled_reachable)
    (fun _ _ _ _ a ha _ => ⟨a, ha, .refl a⟩)
    (fun _ _ _ _ _ _ first second a ha ended => by
      obtain ⟨a₂, ha₂, h₂⟩ := first a ha ended
      obtain ⟨a₃, ha₃, h₃⟩ := second a₂ ha₂ (by rw [h₂.status]; exact ended)
      exact ⟨a₃, ha₃, h₂.trans h₃⟩)
    (fun _ _ _ _ _ hp hc step => History.settles_step hp hc step) hs later r hr
  obtain ⟨a', ha', hsettled⟩ := hsettles a (Journal.mem_attemptsOf.mpr ⟨ha, hrun.symm⟩) ended
  exact ⟨a', (Journal.mem_attemptsOf.mp ha').1, hsettled⟩

/-- The active attempt is the one with the highest generation. -/
theorem active_iff_newest (hs : p.system.Reachable s) {r : RunRow} (hr : r ∈ s.db.runs)
    {a : AttemptRow} (ha : a ∈ s.db.attempts) (hrun : a.runId = r.id) :
    r.activeAttempt = some a.id ↔
      ∀ b ∈ s.db.attempts, b.runId = r.id → b.generation ≤ a.generation := by
  have wf := (PostgresStore.reachable_wellFormed hs).toWellFormed
  have hc := coupled_reachable hs r hr
  have hp := Journal.history_proper wf r
  have mem : ∀ b, b ∈ (s.db.history r).attempts ↔ b ∈ s.db.attempts ∧ b.runId = r.id :=
    fun b => Journal.mem_attemptsOf
  have hne := List.ne_nil_of_mem ((mem a).mpr ⟨ha, hrun⟩)
  obtain ⟨past, last, hpast⟩ := (List.eq_nil_or_concat' _).resolve_left hne
  have hactive : (s.db.history r).run.activeAttempt = some last.id := by
    have hlast := hc.active
    rw [hpast] at hlast
    simpa using hlast
  change r.activeAttempt = some last.id at hactive
  have hgenerations := hc.generations
  rw [hpast] at hgenerations
  simp only [List.map_append, List.map_singleton, List.length_append, List.length_singleton,
    upTo_succ] at hgenerations
  obtain ⟨hbelow, htop⟩ := List.append_inj' hgenerations rfl
  simp only [List.cons.injEq, and_true] at htop
  have older : ∀ b ∈ past, b.generation < last.generation := by
    intro b hb
    have hmem : b.generation ∈ upTo past.length := by
      rw [← hbelow]
      exact List.mem_map_of_mem hb
    have := upTo_bound hmem
    omega
  have hlastmem := (mem last).mp (by simp [hpast])
  have cases_mem : ∀ b ∈ s.db.attempts, b.runId = r.id → b ∈ past ∨ b = last := by
    intro b hb hbrun
    have hmem := (mem b).mpr ⟨hb, hbrun⟩
    simpa [hpast] using hmem
  constructor
  · intro active b hb hbrun
    rw [hactive, Option.some.injEq] at active
    obtain rfl := wf.attempts.eq hlastmem.1 ha active
    rcases cases_mem b hb hbrun with hb | rfl
    · exact le_of_lt (older b hb)
    · exact le_refl _
  · intro newest
    rcases cases_mem a ha hrun with hold | rfl
    · have := newest last hlastmem.1 hlastmem.2
      have := older a hold
      omega
    · exact hactive

end Reachable

/-! ## The second report -/

/-- The row of an attempt whose runner reported this outcome. -/
structure AttemptRow.Finished (a : AttemptRow) (id : String) (generation : Int) (caller : String)
    (exitCode : Int) : Prop where
  id : a.id = id
  generation : a.generation = generation
  caller : text a.instanceId = caller
  exitCode : a.exitCode = some exitCode
  status : a.status = .succeeded ∨ a.status = .failed

theorem AttemptRow.Finished.over {a : AttemptRow} {id caller : String} {generation exitCode : Int}
    (finished : a.Finished id generation caller exitCode) : ¬ a.status.live := by
  rcases finished.status with hs | hs <;> simp [hs, AttemptStatus.live]

theorem AttemptRow.Finished.settles {a a' : AttemptRow} {id caller : String}
    {generation exitCode : Int} (finished : a.Finished id generation caller exitCode)
    (h : a.Settles a') : a'.Finished id generation caller exitCode := by
  obtain ⟨hid, hgeneration, hcaller, hexit, hstatus⟩ := finished
  rw [h]
  exact ⟨hid, hgeneration, hcaller, hexit, hstatus⟩

section Calls

variable {timing : Timing} {now generation exitCode finalSequence : Int} {id caller reason : String}
  {db : Db} {a : AttemptRow} {r : RunRow}

/-- The fence is closed for an attempt that was replaced or whose run is not executing. -/
theorem owned_closed (ha : db.attempt? id = some a) (hr : db.run? a.runId = some r)
    (named : id ≠ "") (closed : r.activeAttempt ≠ some id ∨ ¬ r.status.live) :
    owned now id generation caller db =
      fault .stale "attempt ownership expired or was replaced" := by
  have refused : text r.activeAttempt ≠ id ∨ r.status ≠ .running ∧ r.status ≠ .finalizing := by
    rcases closed with hactive | hlive
    · exact .inl fun h => hactive (text_eq h named)
    · refine .inr ⟨?_, ?_⟩
      · rintro hs
        simp [hs, RunStatus.live] at hlive
      · rintro hs
        simp [hs, RunStatus.live] at hlive
  rcases refused with hactive | hstatus
  · simp [owned, lockAttempt, ha, hr, throwIf, fault, bind, Except.bind, hactive]
  · simp [owned, lockAttempt, ha, hr, throwIf, fault, bind, Except.bind, hstatus]

theorem finish_again (ha : db.attempt? id = some a) (hr : db.run? a.runId = some r)
    (active : r.activeAttempt = some id) (finished : a.Finished id generation caller exitCode) :
    finish timing now id generation caller exitCode reason finalSequence db = .ok db := by
  obtain ⟨-, hgeneration, hcaller, hexit, hstatus⟩ := finished
  simp [finish, lockAttempt, ha, hr, bind, Except.bind, active, hgeneration, hcaller, hexit,
    hstatus]

theorem finish_refused (ha : db.attempt? id = some a) (hr : db.run? a.runId = some r)
    (named : id ≠ "") (closed : r.activeAttempt ≠ some id ∨ ¬ r.status.live)
    (other : r.activeAttempt ≠ some id ∨ text a.instanceId ≠ caller ∨ a.generation ≠ generation ∨
      a.exitCode ≠ some exitCode) :
    finish timing now id generation caller exitCode reason finalSequence db =
      fault .stale "attempt ownership expired or was replaced" := by
  have different : ¬ (text r.activeAttempt = id ∧ text a.instanceId = caller ∧
      a.generation = generation ∧ a.exitCode = some exitCode) := by
    rintro ⟨hactive, hcaller, hgeneration, hexit⟩
    rcases other with h | h | h | h
    · exact h (text_eq hactive named)
    · exact h hcaller
    · exact h hgeneration
    · exact h hexit
  have stale : owned now id generation caller db = _ := owned_closed ha hr named closed
  simp only [finish, lockAttempt, ha, hr, Bool.and_eq_true, decide_eq_true_eq, bind, Except.bind]
  rw [if_neg fun h => different ⟨h.1.1.1.1, h.1.1.1.2, h.1.1.2, h.1.2⟩, stale]
  rfl

end Calls

section Outcome

variable {p : PostgresStore} {s s' : PostgresStore.State} {now generation exitCode : Int}
  {finalSequence : Int} {id caller reason : String} {db : Db}

/-- A call of `finish` that returns leaves the outcome that it reports in the attempt's row. -/
theorem finish_ok (hs : p.system.Reachable s)
    (h : finish p.timing now id generation caller exitCode reason finalSequence s.db = .ok db) :
    ∃ a ∈ db.attempts, a.Finished id generation caller exitCode := by
  have wf := (PostgresStore.reachable_wellFormed hs).toWellFormed
  obtain ⟨x, hlock, hbody⟩ := Result.bind_ok.mp h
  have locked := lockAttempt_ok wf hlock
  obtain ⟨hmem, -⟩ := Table.lookup_mem locked.attempt
  split at hbody
  · next hsame =>
    obtain rfl := Result.pure_ok.mp hbody
    simp only [Bool.and_eq_true, Bool.or_eq_true, decide_eq_true_eq] at hsame
    obtain ⟨⟨⟨⟨_, hcaller⟩, hgeneration⟩, hexit⟩, hstatus⟩ := hsame
    exact ⟨x.attempt, hmem, locked.same, hgeneration, hcaller, hexit, hstatus⟩
  · simp only [Result.bind_ok, Result.throwIf_ok, exists_and_left, exists_const] at hbody
    obtain ⟨y, howned, -, -, hwrite⟩ := hbody
    obtain ⟨locked, owned, hgeneration, hnonempty⟩ := owned_ok wf howned
    obtain ⟨hmem, -⟩ := Table.lookup_mem locked.attempt
    obtain ⟨hrun, hattempt⟩ := locked.history
    have newest : y.attempt.generation = generation :=
      ((coupled_reachable hs y.run hrun).generation_of_active (Journal.history_proper wf y.run)
        hattempt owned.active).trans hgeneration
    have hcaller : text y.attempt.instanceId = caller := by
      rw [owned.instanceId, text_some]
    have written : ∀ {a' : AttemptRow} {r' : RunRow} {events : List EventRow},
        db.toLedger = { s.db.toLedger with toJournal := s.db.put r' a' events } →
        a'.id = y.attempt.id → a' ∈ db.attempts := by
      intro a' r' events heq hid
      have hattempts : db.attempts = Table.replace (·.id) a' s.db.attempts :=
        congrArg (·.attempts) heq
      rw [hattempts]
      exact Table.replace_self ⟨y.attempt, hmem, hid.symm⟩
    rw [← locked.same] at hwrite
    split at hwrite
    · next hzero =>
      have put := event_put wf locked.attempt locked.run rfl (by intro r; rfl) rfl hwrite
      refine ⟨_, written put rfl, ?_⟩
      exact ⟨locked.same, newest, hcaller, congrArg some hzero.symm, .inl rfl⟩
    · have put := event_put wf locked.attempt locked.run rfl (by intro r; rfl) rfl hwrite
      refine ⟨_, written put rfl, ?_⟩
      exact ⟨locked.same, newest, hcaller, rfl, .inr rfl⟩

/-- Completion is idempotent and cannot change the outcome. After a call of `finish` that
returned, and any further transactions, the same report succeeds and writes nothing as long as
the run has no newer attempt. A report with another exit code, caller or generation, and every
report about a superseded attempt, is refused. -/
theorem finish_once (p : PostgresStore) {s s' : PostgresStore.State} {now generation : Int}
    {exitCode finalSequence : Int} {id caller reason : String} {db : Db}
    (hs : p.system.Reachable s) (hclock : s.clock ≤ now)
    (finished : finish p.timing now id generation caller exitCode reason finalSequence s.db =
      .ok db) (later : p.system.Later ⟨db, now⟩ s') :
    ∃ a ∈ s'.db.attempts, a.id = id ∧
      ∀ (now' generation' exitCode' finalSequence' : Int) (caller' reason' : String),
        let again := Op.finish id generation' caller' exitCode' reason' finalSequence'
        ((∀ b ∈ s'.db.attempts, b.runId = a.runId → b.generation ≤ a.generation) →
          (generation' = generation ∧ caller' = caller ∧ exitCode' = exitCode →
            p.apply now' again s'.db = .ok s'.db) ∧
          (¬ (generation' = generation ∧ caller' = caller ∧ exitCode' = exitCode) →
            p.apply now' again s'.db =
              fault .stale "attempt ownership expired or was replaced")) ∧
        (¬ (∀ b ∈ s'.db.attempts, b.runId = a.runId → b.generation ≤ a.generation) →
          p.apply now' again s'.db =
            fault .stale "attempt ownership expired or was replaced") := by
  obtain ⟨a₁, ha₁, hfinished⟩ := finish_ok hs finished
  have reached : p.system.Reachable ⟨db, now⟩ := by
    have committed := p.reachable_commit hs
      (.finish id generation caller exitCode reason finalSequence) hclock
    have happly : p.apply now (.finish id generation caller exitCode reason finalSequence) s.db =
      .ok db := finished
    rwa [PostgresStore.commit, happly] at committed
  have hs' := reached.later later
  obtain ⟨a, ha, hsettles⟩ := settled_later reached later a₁ ha₁ hfinished.over
  have hkept := hfinished.settles hsettles
  have wf := (PostgresStore.reachable_wellFormed hs').toWellFormed
  obtain ⟨r, hr, hrun⟩ := wf.attemptRun a ha
  have hattempt : s'.db.attempt? id = some a := by
    rw [← hkept.id]
    exact wf.attempts.lookup ha
  have hfound : s'.db.run? a.runId = some r := by
    rw [← hrun]
    exact wf.runs.lookup hr
  have named : id ≠ "" := by
    rw [← hkept.id]
    exact wf.named a ha
  have newest := active_iff_newest hs' hr ha hrun.symm
  rw [hkept.id, hrun] at newest
  refine ⟨a, ha, hkept.id, fun now' generation' exitCode' finalSequence' caller' reason' => ?_⟩
  refine ⟨fun hnewest => ⟨?_, ?_⟩, ?_⟩
  · rintro ⟨rfl, rfl, rfl⟩
    exact finish_again hattempt hfound (newest.mpr hnewest) hkept
  · intro other
    have idle : ¬ r.status.live := by
      have hp := Journal.history_proper wf r
      have hmem : a ∈ (s'.db.history r).attempts := Journal.mem_attemptsOf.mpr ⟨ha, hrun.symm⟩
      have hactive : (s'.db.history r).run.activeAttempt = some a.id := by
        rw [hkept.id]
        exact newest.mpr hnewest
      have agrees := (coupled_reachable hs' r hr).status_of_active hp hmem hactive
      exact fun live => hkept.over ((RunStatus.agrees_live agrees).trans live)
    refine finish_refused hattempt hfound named (.inr idle) ?_
    rw [hkept.caller, hkept.generation, hkept.exitCode]
    by_cases hcaller : caller' = caller
    · by_cases hgeneration : generation' = generation
      · have hexit : exitCode' ≠ exitCode := fun h => other ⟨hgeneration, hcaller, h⟩
        exact .inr (.inr (.inr fun h => hexit (Option.some.inj h).symm))
      · exact .inr (.inr (.inl (Ne.symm hgeneration)))
    · exact .inr (.inl (Ne.symm hcaller))
  · intro superseded
    have replaced : r.activeAttempt ≠ some id := fun h => superseded (newest.mp h)
    exact finish_refused hattempt hfound named (.inl replaced) (.inl replaced)

def Sample.reported : PostgresStore.State :=
  ⟨Sample.store.commit 5 (.finish Sample.attemptId.text 1 "runner" 1 "" 0) Sample.started.db, 5⟩

theorem finish_once_failed :
    Sample.store.apply 6 (.finish Sample.attemptId.text 1 "runner" 1 "" 0) Sample.reported.db =
      .ok Sample.reported.db ∧
    Sample.store.apply 6 (.finish Sample.attemptId.text 1 "runner" 0 "" 0) Sample.reported.db =
      fault .stale "attempt ownership expired or was replaced" := by
  have committed := (Sample.store.commit_cases 5
    (.finish Sample.attemptId.text 1 "runner" 1 "" 0) Sample.started.db).resolve_left
    (by decide +kernel)
  have single : ∀ a ∈ Sample.reported.db.attempts, ∀ b ∈ Sample.reported.db.attempts,
      b.runId = a.runId → b.generation ≤ a.generation := by decide +kernel
  have later : Sample.store.system.Later Sample.reported Sample.reported := .refl
  obtain ⟨a, ha, -, again⟩ := finish_once Sample.store Sample.started_reachable (by decide)
    committed later
  obtain ⟨same, -⟩ := (again 6 1 1 0 "runner" "").1 (single a ha)
  obtain ⟨-, other⟩ := (again 6 1 0 0 "runner" "").1 (single a ha)
  exact ⟨same ⟨rfl, rfl, rfl⟩, other (by decide)⟩

end Outcome

/-! ## Where an exit code comes from -/

namespace History

variable {h h' : History} {timing : Timing} {now : Int}

/-- A live attempt has no exit code yet. -/
def Unreported (h : History) : Prop := ∀ a ∈ h.attempts, a.status.live → a.exitCode = none

theorem Coupled.unreported_move (hc : h.Coupled) (hp : h.Proper) {op : Op} {r' : RunRow}
    {a a' : AttemptRow} {events : List EventRow} (ha : a ∈ h.attempts)
    (unreported : a.status.live → a.exitCode = none)
    (move : Move timing now h.run a op r' a' events) : a'.status.live → a'.exitCode = none := by
  cases move with
  | claimed active starting _ _ _ =>
    have live := RunStatus.agrees_live (hc.status_of_active hp ha active)
    rw [starting] at live
    exact fun _ => unreported (live ▸ rfl)
  | finalizing owned _ =>
    obtain ⟨_, hs | hs⟩ := hc.owned_status hp ha owned
    · exact fun _ => unreported (by simp [hs, AttemptStatus.live])
    · exact fun _ => unreported (by simp [hs, AttemptStatus.live])
  | completed | failed => exact fun live => by cases live
  | renewed | acknowledged | launched | jobLaunched => exact unreported

theorem unreported_step (hp : h.Proper) (hc : h.Coupled) (unreported : h.Unreported)
    (step : Step timing now h h') : h'.Unreported := by
  intro a' ha'
  cases step with
  | moved member move =>
    rcases Table.mem_replace ha' with rfl | ⟨ha', _⟩
    · exact hc.unreported_move hp member (unreported _ member) move
    · exact unreported a' ha'
  | placed _ _ _ =>
    rcases List.mem_append.mp ha' with ha' | ha'
    · exact unreported a' ha'
    · rw [List.mem_singleton.mp ha']
      exact fun _ => rfl
  | @cleaned a member _ =>
    rcases Table.mem_replace ha' with rfl | ⟨ha', _⟩
    · exact unreported a member
    · exact unreported a' ha'
  | cancelled _ _ =>
    obtain ⟨a, ha, rfl⟩ := Table.mem_update.mp ha'
    split
    · exact fun live => by cases live
    · exact unreported a ha
  | requeued _ => exact unreported a' ha'

end History

section ExitCodes

variable {p : PostgresStore} {s : PostgresStore.State} {now : Int} {op : Op}

theorem unreported_reachable (hs : p.system.Reachable s) :
    ∀ a ∈ s.db.attempts, a.status.live → a.exitCode = none := by
  intro a ha
  obtain ⟨r, hr, hrun⟩ := (PostgresStore.reachable_wellFormed hs).toWellFormed.attemptRun a ha
  have both := PostgresStore.history_invariant (P := fun _ h => h.Coupled ∧ h.Unreported)
    (fun now r detail fresh =>
      ⟨History.coupled_born r detail now fresh, fun a ha => by cases ha⟩)
    (fun _ _ _ _ h => h)
    (fun _ _ _ _ _ hp h step =>
      ⟨History.coupled_step hp h.1 step, History.unreported_step hp h.1 h.2 step⟩) hs r hr
  exact both.2 a (Journal.mem_attemptsOf.mpr ⟨ha, hrun.symm⟩)

/-- A row with an exit code had it before, with the same instance and acknowledgement, or the
instance reports it now. -/
theorem exitCode_from (hs : p.system.Reachable s) (clock : s.clock ≤ now) {a' : AttemptRow}
    {code : Int} (ha' : a' ∈ (p.commit now op s.db).attempts) (exited : a'.exitCode = some code) :
    (∃ a ∈ s.db.attempts, a.id = a'.id ∧ a.instanceId = a'.instanceId ∧
      a.exitCode = some code ∧ a.ackSequence = a'.ackSequence) ∨
    ∃ generation caller reason, a'.instanceId = some caller ∧
      op = .finish a'.id generation caller code reason a'.ackSequence := by
  have committed : p.system.Later s ⟨p.commit now op s.db, now⟩ :=
    .single (e := ⟨now, op⟩) trivial (if_pos clock)
  have wf' := (PostgresStore.reachable_wellFormed (hs.later committed)).toWellFormed
  have kept : ∀ a ∈ s.db.attempts, a.id = a'.id → a.instanceId = a'.instanceId →
      a'.exitCode = a.exitCode → a.ackSequence = a'.ackSequence →
      ∃ a ∈ s.db.attempts, a.id = a'.id ∧ a.instanceId = a'.instanceId ∧
        a.exitCode = some code ∧ a.ackSequence = a'.ackSequence :=
    fun a ha hid hcaller hexit hack => ⟨a, ha, hid, hcaller, hexit ▸ exited, hack⟩
  have effect : Effect p now s.db.toLedger op (p.commit now op s.db).toLedger :=
    PostgresStore.commit_effect (PostgresStore.reachable_wellFormed hs)
  rcases effect.row_from ha' with
    ⟨a, ha, rfl | rfl | rfl⟩ | ⟨_, _, a, _, ha, move⟩ | ⟨_, _, _, _, rfl⟩
  · exact .inl (kept a' ha rfl rfl rfl rfl)
  · exact .inl (kept a ha rfl rfl rfl rfl)
  · exact .inl (kept a ha rfl rfl rfl rfl)
  · by_cases live : a.status.live
    · have none := unreported_reachable hs a ha live
      cases move with
      | claimed | renewed | acknowledged | finalizing | launched | jobLaunched =>
        cases none.symm.trans exited
      | completed owned synced _ =>
        obtain rfl := Option.some.inj exited
        subst synced
        exact .inr ⟨_, _, _, owned.instanceId, rfl⟩
      | failed _ cause _ _ =>
        cases cause with
        | reported owned synced _ =>
          obtain rfl := Option.some.inj exited
          subst synced
          exact .inr ⟨_, _, _, owned.instanceId, rfl⟩
        | launchTimeout | timeout | finalizationTimeout | leaseExpired | stoppedLate | stopped =>
          cases exited
    · obtain ⟨b, hb, settles⟩ := settled_later hs committed a ha live
      have same : a' = b := by
        refine wf'.attempts.eq ha' hb ?_
        rw [move.attempt_identity.id, settles]
      subst same
      exact .inl (kept a ha (by rw [settles]) (by rw [settles]) (by rw [settles])
        (by rw [settles]))
  · cases exited

end ExitCodes

end Runyard
