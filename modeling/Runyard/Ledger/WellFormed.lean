import Runyard.Ledger.Specification

/-!
# Well-formed ledgers

Every effect keeps the ledger well formed, so every reachable ledger is. `ledger_invariant`
then proves a property of reachable ledgers from its preservation by the effects.
-/

namespace Runyard

/-- The columns of an attempt that no transaction rewrites. -/
structure AttemptRow.SameIdentity (a a' : AttemptRow) : Prop where
  id : a'.id = a.id
  runId : a'.runId = a.runId
  generation : a'.generation = a.generation
  workerId : a'.workerId = a.workerId
  gpuCount : a'.gpuCount = a.gpuCount
  createdAt : a'.createdAt = a.createdAt
  launchDeadline : a'.launchDeadline = a.launchDeadline

/-- The columns of a run that no transaction rewrites. -/
structure RunRow.SameIdentity (r r' : RunRow) : Prop where
  id : r'.id = r.id
  spec : r'.spec = r.spec
  cpuMillis : r'.cpuMillis = r.cpuMillis
  memoryMib : r'.memoryMib = r.memoryMib
  gpuCount : r'.gpuCount = r.gpuCount

section Moves

variable {timing : Timing} {now : Int} {r r' : RunRow} {a a' : AttemptRow} {op : Op}
  {events : List EventRow}

theorem Move.run_identity (move : Move timing now r a op r' a' events) : r.SameIdentity r' := by
  cases move <;> exact ⟨rfl, rfl, rfl, rfl, rfl⟩

theorem Move.attempt_identity (move : Move timing now r a op r' a' events) :
    a.SameIdentity a' := by
  cases move <;> exact ⟨rfl, rfl, rfl, rfl, rfl, rfl, rfl⟩

theorem Move.events_run (move : Move timing now r a op r' a' events) :
    ∀ e ∈ events, e.runId = r.id := by
  intro e he
  cases move with
  | claimed | finalizing | completed | failed =>
    rw [List.mem_singleton.mp he]
    rfl
  | renewed | acknowledged | launched | jobLaunched => cases he

theorem Move.claimed_instance (move : Move timing now r a op r' a' events)
    (claimed : a.instanceId ≠ some "") : a'.instanceId ≠ some "" := by
  cases move with
  | claimed _ _ _ nonempty _ =>
    intro h
    exact nonempty (Option.some.inj h)
  | renewed | acknowledged | finalizing | completed | failed | launched | jobLaunched =>
    exact claimed

end Moves

namespace Journal

variable {j : Journal}

theorem WellFormed.put {r' : RunRow} {a' : AttemptRow} {events : List EventRow}
    (wf : j.WellFormed) (hrun : ∃ r ∈ j.runs, r.id = a'.runId) (named : a'.id ≠ "")
    (claimed : a'.instanceId ≠ some "") (hevents : ∀ e ∈ events, ∃ r ∈ j.runs, r.id = e.runId) :
    (j.put r' a' events).WellFormed := by
  have kept : ∀ id, (∃ r ∈ j.runs, r.id = id) →
      ∃ r ∈ Table.replace (·.id) r' j.runs, r.id = id := by
    rintro id ⟨r, hr, rfl⟩
    by_cases hid : r.id = r'.id
    · exact ⟨r', Table.replace_self ⟨r, hr, hid⟩, hid.symm⟩
    · exact ⟨r, Table.replace_other hr hid, rfl⟩
  constructor
  · exact wf.runs.replace r'
  · exact wf.attempts.replace a'
  · intro a ha
    rcases Table.mem_replace ha with rfl | ⟨ha, _⟩
    · exact kept _ hrun
    · exact kept _ (wf.attemptRun a ha)
  · intro e he
    rcases List.mem_append.mp he with he | he
    · exact kept _ (wf.eventRun e he)
    · exact kept _ (hevents e he)
  · intro a ha
    rcases Table.mem_replace ha with rfl | ⟨ha, _⟩
    · exact named
    · exact wf.named a ha
  · intro a ha
    rcases Table.mem_replace ha with rfl | ⟨ha, _⟩
    · exact claimed
    · exact wf.claimed a ha

theorem WellFormed.place {r r' : RunRow} {a : AttemptRow} {e : EventRow} (wf : j.WellFormed)
    (hr : r ∈ j.runs) (ha : a.runId = r.id) (he : e.runId = r.id)
    (named : a.id ≠ "") (claimed : a.instanceId ≠ some "") (fresh : ∀ b ∈ j.attempts, b.id ≠ a.id) :
    (j.place r' a e).WellFormed := by
  have kept : ∀ id, (∃ s ∈ j.runs, s.id = id) →
      ∃ s ∈ Table.replace (·.id) r' j.runs, s.id = id := by
    rintro id ⟨s, hs, rfl⟩
    by_cases hsid : s.id = r'.id
    · exact ⟨r', Table.replace_self ⟨s, hs, hsid⟩, hsid.symm⟩
    · exact ⟨s, Table.replace_other hs hsid, rfl⟩
  constructor
  · exact wf.runs.replace r'
  · exact wf.attempts.append fresh
  · intro b hb
    rcases List.mem_append.mp hb with hb | hb
    · exact kept _ (wf.attemptRun b hb)
    · rw [List.mem_singleton.mp hb, ha]
      exact kept _ ⟨r, hr, rfl⟩
  · intro f hf
    rcases List.mem_append.mp hf with hf | hf
    · exact kept _ (wf.eventRun f hf)
    · rw [List.mem_singleton.mp hf, he]
      exact kept _ ⟨r, hr, rfl⟩
  · intro b hb
    rcases List.mem_append.mp hb with hb | hb
    · exact wf.named b hb
    · rw [List.mem_singleton.mp hb]
      exact named
  · intro b hb
    rcases List.mem_append.mp hb with hb | hb
    · exact wf.claimed b hb
    · rw [List.mem_singleton.mp hb]
      exact claimed

/-- Rewriting rows under their identities, and appending rows that refer to known runs. -/
theorem WellFormed.rewrite {j' : Journal} (wf : j.WellFormed)
    (runs : j'.runs.map (·.id) = j.runs.map (·.id))
    (attempts : j'.attempts.map (·.id) = j.attempts.map (·.id))
    (rows : ∀ a' ∈ j'.attempts, ∃ a ∈ j.attempts, a'.id = a.id ∧ a'.runId = a.runId ∧
      a'.instanceId = a.instanceId)
    (events : ∀ e ∈ j'.events, ∃ r ∈ j.runs, r.id = e.runId) : j'.WellFormed := by
  have kept : ∀ id, (∃ r ∈ j.runs, r.id = id) → ∃ r ∈ j'.runs, r.id = id := by
    rintro id ⟨r, hr, rfl⟩
    have hmem : r.id ∈ j'.runs.map (·.id) := by
      rw [runs]
      exact List.mem_map_of_mem hr
    exact List.mem_map.mp hmem
  constructor
  · unfold Table.Keyed
    rw [runs]
    exact wf.runs
  · unfold Table.Keyed
    rw [attempts]
    exact wf.attempts
  · intro a' ha'
    obtain ⟨a, ha, _, hrun, _⟩ := rows a' ha'
    rw [hrun]
    exact kept _ (wf.attemptRun a ha)
  · exact fun e he => kept _ (events e he)
  · intro a' ha'
    obtain ⟨a, ha, hid, _, _⟩ := rows a' ha'
    rw [hid]
    exact wf.named a ha
  · intro a' ha'
    obtain ⟨a, ha, _, _, hinstance⟩ := rows a' ha'
    rw [hinstance]
    exact wf.claimed a ha

theorem WellFormed.clean {a : AttemptRow} (wf : j.WellFormed) (ha : a ∈ j.attempts) :
    WellFormed { j with attempts := Table.replace (·.id) a.clean j.attempts } := by
  refine wf.rewrite rfl ?_ ?_ wf.eventRun
  · exact Table.map_replace _ fun b _ hb => hb.symm
  · intro b hb
    rcases Table.mem_replace hb with rfl | ⟨hb, _⟩
    · exact ⟨a, ha, rfl, rfl, rfl⟩
    · exact ⟨b, hb, rfl, rfl, rfl⟩

end Journal

namespace Ledger

theorem WellFormed.placed {l : Ledger} {timing : Timing} {now : Int} {attempt : RandomId}
    {worker detail : String} {r : RunRow} (wf : l.WellFormed) (chosen : Chosen now l r attempt) :
    (l.placed timing now attempt worker r detail).WellFormed := by
  have hr := (Table.lookup_mem chosen.run).1
  have result : (l.place ((r.activate (newAttempt timing now attempt worker r)).count now)
      (newAttempt timing now attempt worker r) (r.eventRow now .assigned detail)).WellFormed :=
    wf.toWellFormed.place hr rfl rfl attempt.ne_empty (by simp) chosen.fresh
  exact ⟨result, wf.workers, wf.devices⟩

end Ledger

section Effects

variable {p : PostgresStore} {now : Int} {l l' : Ledger} {op : Op}

theorem Effect.wellFormed (wf : l.WellFormed) (effect : Effect p now l op l') :
    l'.WellFormed := by
  cases effect with
  | same => exact wf
  | submitted fresh keyed =>
    refine ⟨?_, wf.workers, wf.devices⟩
    constructor
    · exact keyed
    · exact wf.attempts
    · intro a ha
      obtain ⟨r, hr, hid⟩ := wf.attemptRun a ha
      exact ⟨r, List.mem_append_left _ hr, hid⟩
    · intro e he
      rcases List.mem_append.mp he with he | he
      · obtain ⟨r, hr, hid⟩ := wf.eventRun e he
        exact ⟨r, List.mem_append_left _ hr, hid⟩
      · obtain ⟨r, hr, rfl⟩ := List.mem_map.mp he
        exact ⟨r, List.mem_append_right _ hr, rfl⟩
    · exact wf.named
    · exact wf.claimed
  | @moved _ r r' a a' events attempt run move =>
    have ha := (Table.lookup_mem attempt).1
    have hr := Table.lookup_mem run
    have hattempt := move.attempt_identity
    have result : (l.put r' a' events).WellFormed :=
      wf.toWellFormed.put ⟨r, hr.1, hattempt.runId ▸ hr.2⟩ (hattempt.id ▸ wf.named a ha)
        (move.claimed_instance (wf.claimed a ha))
        (fun e he => ⟨r, hr.1, (move.events_run e he).symm⟩)
    exact ⟨result, wf.workers, wf.devices⟩
  | @assigned _ _ _ detail w _ _ _ _ chosen _ _ _ _ _ =>
    have result : (l.placed p.timing now _ w.id _ detail).WellFormed := wf.placed chosen
    exact ⟨result.toWellFormed, result.workers, result.devices⟩
  | admitted _ chosen => exact wf.placed chosen
  | stopped _ attempt _ _ =>
    exact ⟨wf.toWellFormed.clean (Table.lookup_mem attempt).1, wf.workers, wf.devices⟩
  | removed attempt _ _ =>
    exact ⟨wf.toWellFormed.clean (Table.lookup_mem attempt).1, wf.workers, wf.devices⟩
  | @cancelled r run _ =>
    have hr := (Table.lookup_mem run).1
    refine ⟨wf.toWellFormed.rewrite ?_ ?_ ?_ ?_, wf.workers, wf.devices⟩
    · exact Table.map_replace _ fun s _ hs => hs.symm
    · exact Table.map_update _ (by intro a _; rfl) _
    · intro a' ha'
      obtain ⟨a, ha, rfl⟩ := Table.mem_update.mp ha'
      refine ⟨a, ha, ?_⟩
      split
      · exact ⟨rfl, rfl, rfl⟩
      · exact ⟨rfl, rfl, rfl⟩
    · intro e he
      rcases List.mem_append.mp he with he | he
      · exact wf.eventRun e he
      · rw [List.mem_singleton.mp he]
        exact ⟨r, hr, rfl⟩
  | requeued =>
    refine ⟨wf.toWellFormed.rewrite ?_ rfl (fun a ha => ⟨a, ha, rfl, rfl, rfl⟩) ?_, wf.workers,
      wf.devices⟩
    · exact Table.map_update _ (by intro r _; rfl) _
    · intro e he
      rcases List.mem_append.mp he with he | he
      · exact wf.eventRun e he
      · obtain ⟨r, hr, rfl⟩ := List.mem_map.mp he
        exact ⟨r, (List.mem_filter.mp hr).1, rfl⟩
  | registered _ _ unknown =>
    exact ⟨wf.toWellFormed, wf.workers.append (Table.lookup_none unknown), wf.devices⟩
  | reregistered _ => exact ⟨wf.toWellFormed, wf.workers.replace _, wf.devices⟩
  | marked _ _ _ _ => exact ⟨wf.toWellFormed, wf.workers.replace _, wf.devices⟩
  | discovered _ _ _ _ found =>
    exact ⟨wf.toWellFormed, wf.workers.replace _, found.keyed wf.devices⟩

/-- Where a row of the attempts comes from: it was there, perhaps with another cleanup status or
cancelled now, or a move wrote it, or the transaction placed it. -/
theorem Effect.row_from (effect : Effect p now l op l') {a' : AttemptRow}
    (ha' : a' ∈ l'.attempts) :
    (∃ a ∈ l.attempts, a' = a ∨ a' = a.clean ∨ a' = a.cancel now) ∨
    (∃ r r' a events, a ∈ l.attempts ∧ Move p.timing now r a op r' a' events) ∨
    ∃ attempt worker r, Chosen now l r attempt ∧
      a' = newAttempt p.timing now attempt worker r := by
  have cleaned : ∀ a ∈ l.attempts, a' ∈ Table.replace (·.id) a.clean l.attempts →
      ∃ a ∈ l.attempts, a' = a ∨ a' = a.clean ∨ a' = a.cancel now := by
    intro a ha hmem
    rcases Table.mem_replace hmem with rfl | ⟨hmem, _⟩
    · exact ⟨a, ha, .inr (.inl rfl)⟩
    · exact ⟨a', hmem, .inl rfl⟩
  cases effect with
  | same | submitted | registered | reregistered | marked | discovered | requeued =>
    exact .inl ⟨a', ha', .inl rfl⟩
  | moved attempt _ move =>
    rcases Table.mem_replace ha' with rfl | ⟨ha', _⟩
    · exact .inr (.inl ⟨_, _, _, _, (Table.lookup_mem attempt).1, move⟩)
    · exact .inl ⟨a', ha', .inl rfl⟩
  | assigned _ _ chosen | admitted _ chosen =>
    rcases List.mem_append.mp ha' with ha' | ha'
    · exact .inl ⟨a', ha', .inl rfl⟩
    · exact .inr (.inr ⟨_, _, _, chosen, List.mem_singleton.mp ha'⟩)
  | stopped _ attempt _ _ => exact .inl (cleaned _ (Table.lookup_mem attempt).1 ha')
  | removed attempt _ _ => exact .inl (cleaned _ (Table.lookup_mem attempt).1 ha')
  | cancelled _ _ =>
    obtain ⟨a, ha, rfl⟩ := Table.mem_update.mp ha'
    refine .inl ⟨a, ha, ?_⟩
    split
    · exact .inr (.inr rfl)
    · exact .inl rfl

theorem Ledger.WellFormed.empty : Ledger.WellFormed {} :=
  ⟨⟨.nil, .nil, by simp, by simp, by simp, by simp⟩, .nil, .nil⟩

end Effects

namespace PostgresStore

variable {p : PostgresStore}

/-- A committed transaction has its effect, and one that throws has none. -/
theorem commit_effect {now : Int} {op : Op} {db : Db} (wf : db.toLedger.WellFormed) :
    Effect p now db.toLedger op (p.commit now op db).toLedger := by
  rcases p.commit_cases now op db with hsame | happly
  · rw [hsame]
    exact .same
  · exact apply_effect wf happly

theorem reachable_wellFormed {s : State} (hs : p.system.Reachable s) :
    s.db.toLedger.WellFormed := by
  refine hs.invariant (P := fun s => s.db.toLedger.WellFormed) .empty ?_
  intro s e s' wf hstep
  obtain ⟨_, rfl⟩ := p.step_eq hstep
  exact (commit_effect wf).wellFormed wf

/-- What every effect preserves as the clock advances holds in every reachable state. -/
theorem ledger_invariant {P : Int → Ledger → Prop} (start : P p.created {})
    (keeps : ∀ clock now l op l', clock ≤ now → l.WellFormed → P clock l →
      Effect p now l op l' → P now l')
    {s : State} (hs : p.system.Reachable s) : P s.clock s.db.toLedger := by
  have both : s.db.toLedger.WellFormed ∧ P s.clock s.db.toLedger := by
    refine hs.invariant (P := fun s => s.db.toLedger.WellFormed ∧ P s.clock s.db.toLedger)
      ⟨.empty, start⟩ ?_
    rintro s e s' ⟨wf, hp⟩ hstep
    obtain ⟨hclock, rfl⟩ := p.step_eq hstep
    have effect : Effect p e.now _ e.op _ := commit_effect wf
    exact ⟨effect.wellFormed wf, keeps _ _ _ _ _ hclock wf hp effect⟩
  exact both.2

end PostgresStore

end Runyard
