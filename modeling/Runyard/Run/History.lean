import Runyard.Ledger.WellFormed

/-!
# The history of one run

A history is a run row with the attempts and events of that run. `History.Step` is what
a transaction does to one history, and `history_invariant` proves a property of the histories
in all reachable states from its preservation by `History.Step`.
-/

namespace Runyard

structure History where
  run : RunRow
  attempts : List AttemptRow
  events : List EventRow

def Journal.history (j : Journal) (r : RunRow) : History :=
  ⟨r, j.attemptsOf r.id, j.eventsOf r.id⟩

namespace History

/-- The rows of a history belong to its run and are well formed. -/
structure Proper (h : History) : Prop where
  keyed : Table.Keyed (·.id) h.attempts
  attempts : ∀ a ∈ h.attempts, a.runId = h.run.id
  events : ∀ e ∈ h.events, e.runId = h.run.id
  named : ∀ a ∈ h.attempts, a.id ≠ ""

def born (r : RunRow) (detail : String) (now : Int) : History :=
  ⟨r, [], [⟨r.id, 1, .submitted, detail, now⟩]⟩

/-- What a committed transaction does to the history of one run. -/
inductive Step (timing : Timing) (now : Int) (h : History) : History → Prop where
  | moved {op : Op} {r' : RunRow} {a a' : AttemptRow} {events : List EventRow}
      (member : a ∈ h.attempts) (move : Move timing now h.run a op r' a' events) :
      Step timing now h ⟨r', Table.replace (·.id) a' h.attempts, h.events ++ events⟩
  | placed {attempt : RandomId} {worker detail : String} (queued : h.run.status = .queued)
      (available : h.run.availableAt ≤ now) (fresh : ∀ a ∈ h.attempts, a.id ≠ attempt.text) :
      Step timing now h
        ⟨(h.run.activate (newAttempt timing now attempt worker h.run)).count now,
          h.attempts ++ [newAttempt timing now attempt worker h.run],
          h.events ++ [h.run.eventRow now .assigned detail]⟩
  | cleaned {a : AttemptRow} (member : a ∈ h.attempts) (finished : ¬ a.status.live) :
      Step timing now h ⟨h.run, Table.replace (·.id) a.clean h.attempts, h.events⟩
  | cancelled (detail : String) (unfinished : ¬ h.run.status.terminal) :
      Step timing now h
        ⟨(h.run.enter .cancelled).count now,
          Table.update (fun a => a.status.live) (fun a => a.cancel now) h.attempts,
          h.events ++ [h.run.eventRow now .cancelled detail]⟩
  | requeued (due : retryDue now h.run) :
      Step timing now h
        ⟨(h.run.enter .queued).count now, h.attempts,
          h.events ++ [h.run.eventRow now .requeued "retry delay elapsed"]⟩

end History

/-- How the run `r` of the next journal came out of the previous one. -/
inductive Evolved (timing : Timing) (now : Int) (j j' : Journal) (r' : RunRow) : Prop where
  | born (detail : String) (fresh : r'.Fresh now) (unknown : ∀ r ∈ j.runs, r.id ≠ r'.id)
      (history : j'.history r' = .born r' detail now)
  | kept {r : RunRow} (member : r ∈ j.runs) (history : j'.history r' = j.history r)
  | stepped {r : RunRow} (member : r ∈ j.runs) (id : r'.id = r.id)
      (step : History.Step timing now (j.history r) (j'.history r'))

namespace Journal

variable {j : Journal}

theorem mem_attemptsOf {a : AttemptRow} {id : String} :
    a ∈ j.attemptsOf id ↔ a ∈ j.attempts ∧ a.runId = id := by
  simp [attemptsOf]

theorem history_proper (wf : j.WellFormed) (r : RunRow) : (j.history r).Proper := by
  constructor
  · exact wf.attempts.filter _
  · intro a ha
    exact (mem_attemptsOf.mp ha).2
  · intro e he
    exact of_decide_eq_true (List.mem_filter.mp he).2
  · intro a ha
    exact wf.named a (mem_attemptsOf.mp ha).1

theorem attemptsOf_replace (wf : j.WellFormed) {a a' : AttemptRow} (ha : a ∈ j.attempts)
    (same : a.SameIdentity a') (id : String) :
    (Table.replace (·.id) a' j.attempts).filter (fun b => b.runId = id) =
      Table.replace (·.id) a' (j.attemptsOf id) := by
  refine Table.filter_replace ?_
  intro b hb hid
  have hba : b = a := wf.attempts.eq hb ha (hid.trans same.id)
  rw [hba, same.runId]

theorem attemptsOf_other (wf : j.WellFormed) {a a' : AttemptRow} (ha : a ∈ j.attempts)
    (same : a.SameIdentity a') {id : String} (hid : id ≠ a.runId) :
    (Table.replace (·.id) a' j.attempts).filter (fun b => b.runId = id) = j.attemptsOf id := by
  rw [attemptsOf_replace wf ha same]
  refine Table.replace_absent ?_
  intro b hb hba
  obtain ⟨hmem, hrun⟩ := mem_attemptsOf.mp hb
  have hsame : b = a := wf.attempts.eq hmem ha (hba.trans same.id)
  exact hid (by rw [← hrun, hsame])

theorem filter_events_of_run {events : List EventRow} {id : String}
    (h : ∀ e ∈ events, e.runId = id) : events.filter (fun e => e.runId = id) = events :=
  List.filter_eq_self.mpr fun e he => by simpa using h e he

theorem filter_events_other {events : List EventRow} {id other : String}
    (h : ∀ e ∈ events, e.runId = id) (hne : other ≠ id) :
    events.filter (fun e => e.runId = other) = [] := by
  refine List.filter_eq_nil_iff.mpr ?_
  intro e he
  simpa [h e he] using hne.symm

/-- Rewriting one attempt and its run steps the history of that run. -/
theorem put_evolved {timing : Timing} {now : Int} (wf : j.WellFormed) {r r' : RunRow}
    {a a' : AttemptRow} {events : List EventRow} (hr : r ∈ j.runs) (hid : r'.id = r.id)
    (ha : a ∈ j.attempts) (har : a.runId = r.id) (same : a.SameIdentity a')
    (hevents : ∀ e ∈ events, e.runId = r.id)
    (step : History.Step timing now (j.history r)
      ⟨r', Table.replace (·.id) a' (j.attemptsOf r.id), j.eventsOf r.id ++ events⟩) :
    ∀ s ∈ (j.put r' a' events).runs, Evolved timing now j (j.put r' a' events) s := by
  intro s hs
  rcases Table.mem_replace hs with rfl | ⟨hs, hne⟩
  · refine .stepped hr hid ?_
    simpa [history, put, attemptsOf, eventsOf, hid, attemptsOf_replace wf ha same,
      filter_events_of_run hevents] using step
  · refine .kept hs ?_
    have hother : s.id ≠ r.id := fun h => hne (h.trans hid.symm)
    simp [history, put, attemptsOf, eventsOf,
      attemptsOf_other wf ha same (har ▸ hother), filter_events_other hevents hother]

theorem place_evolved {timing : Timing} {now : Int} {r r' : RunRow}
    {a : AttemptRow} {e : EventRow} (hr : r ∈ j.runs) (hid : r'.id = r.id) (har : a.runId = r.id)
    (her : e.runId = r.id)
    (step : History.Step timing now (j.history r)
      ⟨r', j.attemptsOf r.id ++ [a], j.eventsOf r.id ++ [e]⟩) :
    ∀ s ∈ (j.place r' a e).runs, Evolved timing now j (j.place r' a e) s := by
  intro s hs
  rcases Table.mem_replace hs with rfl | ⟨hs, hne⟩
  · refine .stepped hr hid ?_
    simpa [history, place, attemptsOf, eventsOf, hid, har, her] using step
  · refine .kept hs ?_
    have hother : r.id ≠ s.id := fun h => hne (h.symm.trans hid.symm)
    simp [history, place, attemptsOf, eventsOf, har, her, hother]

theorem submitted_evolved {timing : Timing} {now : Int} {detail : String} {rows : List RunRow}
    (wf : j.WellFormed) (fresh : ∀ r ∈ rows, r.Fresh now)
    (keyed : Table.Keyed (·.id) (j.runs ++ rows)) {j' : Journal}
    (hj' : j' = { j with
      runs := j.runs ++ rows
      events := j.events ++ rows.map fun r => ⟨r.id, 1, .submitted, detail, now⟩ }) :
    ∀ s ∈ j'.runs, Evolved timing now j j' s := by
  intro s hs
  have apart : ∀ r ∈ j.runs, ∀ t ∈ rows, r.id ≠ t.id := by
    intro r hr t ht hid
    have keyed' := keyed
    unfold Table.Keyed at keyed'
    rw [List.map_append] at keyed'
    exact List.disjoint_of_nodup_append keyed' (List.mem_map_of_mem hr)
      (hid ▸ List.mem_map_of_mem ht)
  have hevents : j'.eventsOf s.id = j.eventsOf s.id ++
      (rows.filter fun r => r.id = s.id).map fun r => ⟨r.id, 1, .submitted, detail, now⟩ := by
    simp [hj', eventsOf, List.filter_map, Function.comp_def]
  have hattempts : j'.attemptsOf s.id = j.attemptsOf s.id := by
    rw [hj']
    rfl
  rw [hj'] at hs
  rcases List.mem_append.mp hs with hs | hs
  · refine .kept hs ?_
    have hnone : (rows.filter fun r => r.id = s.id) = [] := by
      refine List.filter_eq_nil_iff.mpr ?_
      intro t ht
      simpa using (apart s hs t ht).symm
    rw [history, hevents, hattempts, hnone]
    simp [history]
  · have unknown : ∀ r ∈ j.runs, r.id ≠ s.id := fun r hr => apart r hr s hs
    refine .born detail (fresh s hs) unknown ?_
    have hnoAttempts : j.attemptsOf s.id = [] := by
      refine List.filter_eq_nil_iff.mpr ?_
      intro a ha hrun
      obtain ⟨r, hr, hid⟩ := wf.attemptRun a ha
      exact unknown r hr (hid.trans (of_decide_eq_true hrun))
    have hnoEvents : j.eventsOf s.id = [] := by
      refine List.filter_eq_nil_iff.mpr ?_
      intro e he hrun
      obtain ⟨r, hr, hid⟩ := wf.eventRun e he
      exact unknown r hr (hid.trans (of_decide_eq_true hrun))
    have hself : (rows.filter fun r => r.id = s.id) = [s] := by
      have keyedRows : Table.Keyed (·.id) rows := by
        unfold Table.Keyed at keyed ⊢
        rw [List.map_append] at keyed
        exact keyed.of_append_right
      exact keyedRows.filter_eq hs
    rw [history, hevents, hattempts, hself, hnoAttempts, hnoEvents]
    rfl

theorem clean_evolved {timing : Timing} {now : Int} (wf : j.WellFormed) {a : AttemptRow}
    (attempt : j.attempt? a.id = some a) (finished : ¬ a.status.live) {j' : Journal}
    (hj' : j' = { j with attempts := Table.replace (·.id) a.clean j.attempts }) :
    ∀ s ∈ j'.runs, Evolved timing now j j' s := by
  have ha := (Table.lookup_mem attempt).1
  obtain ⟨r, hr, hrun⟩ := wf.attemptRun a ha
  have same : a.SameIdentity a.clean := ⟨rfl, rfl, rfl, rfl, rfl, rfl, rfl⟩
  have hput : j' = j.put r a.clean [] := by
    simp [hj', put, Table.replace_same wf.runs hr]
  rw [hput]
  refine put_evolved wf hr rfl ha hrun.symm same (by simp) ?_
  rw [List.append_nil]
  exact .cleaned (mem_attemptsOf.mpr ⟨ha, hrun.symm⟩) finished

theorem cancel_evolved {timing : Timing} {now : Int} {r : RunRow}
    {detail : String} (hr : r ∈ j.runs) (unfinished : ¬ r.status.terminal) {j' : Journal}
    (hj' : j' =
      { runs := Table.replace (·.id) ((r.enter .cancelled).count now) j.runs
        attempts := Table.update (fun a => a.runId = r.id && a.status.live)
          (fun a => a.cancel now) j.attempts
        events := j.events ++ [r.eventRow now .cancelled detail] }) :
    ∀ s ∈ j'.runs, Evolved timing now j j' s := by
  intro s hs
  have hfilter : ∀ id : String, j'.attemptsOf id = Table.update
      (fun a => a.runId = r.id && a.status.live) (fun a => a.cancel now) (j.attemptsOf id) := by
    intro id
    rw [hj']
    exact Table.filter_update (by intro a _; rfl) _
  have hown : j'.attemptsOf r.id =
      Table.update (fun a => a.status.live) (fun a => a.cancel now) (j.attemptsOf r.id) := by
    rw [hfilter]
    refine Table.update_congr ?_
    intro a ha
    simp [(mem_attemptsOf.mp ha).2]
  have hevents : ∀ id : String, j'.eventsOf id = j.eventsOf id ++
      [r.eventRow now .cancelled detail].filter (fun e => e.runId = id) := by
    intro id
    rw [hj']
    exact List.filter_append ..
  have hmem := hs
  rw [hj'] at hmem
  rcases Table.mem_replace hmem with rfl | ⟨hmem, hne⟩
  · refine .stepped hr rfl ?_
    have hself : [r.eventRow now .cancelled detail].filter (fun e => e.runId = r.id) =
        [r.eventRow now .cancelled detail] := by
      simp [RunRow.eventRow]
    have hstep : History.Step timing now (j.history r) _ := .cancelled detail unfinished
    simpa [history, hown, hevents, hself] using hstep
  · refine .kept hmem ?_
    have hother : r.id ≠ s.id := fun h => hne h.symm
    have hattempts : j'.attemptsOf s.id = j.attemptsOf s.id := by
      rw [hfilter]
      refine Table.update_eq_self ?_
      intro a ha hcancel
      simp [(mem_attemptsOf.mp ha).2, hother.symm] at hcancel
    have hnone : [r.eventRow now .cancelled detail].filter (fun e => e.runId = s.id) = [] := by
      simp [RunRow.eventRow, hother]
    rw [history, hattempts, hevents, hnone, List.append_nil]
    rfl

theorem requeue_evolved {timing : Timing} {now : Int} (wf : j.WellFormed) {j' : Journal}
    (hj' : j' = { j with
      runs := requeuedRuns now j.runs
      events := j.events ++ requeuedEvents now j.runs }) :
    ∀ s ∈ j'.runs, Evolved timing now j j' s := by
  intro s hs
  have hattempts : ∀ id : String, j'.attemptsOf id = j.attemptsOf id := by
    intro id
    rw [hj']
    rfl
  have hevents : ∀ id : String, j'.eventsOf id = j.eventsOf id ++
      (((j.runs.filter (retryDue now)).filter fun r => r.id = id).map
        fun r => r.eventRow now .requeued "retry delay elapsed") := by
    intro id
    simp [hj', eventsOf, requeuedEvents, List.filter_map, Function.comp_def, RunRow.eventRow,
      -List.filter_filter]
  have hmem := hs
  rw [hj'] at hmem
  obtain ⟨r, hr, rfl⟩ := Table.mem_update.mp hmem
  by_cases hdue : retryDue now r
  · have hself : (j.runs.filter (retryDue now)).filter (fun t => t.id = r.id) = [r] :=
      (wf.runs.filter _).filter_eq (List.mem_filter.mpr ⟨hr, hdue⟩)
    have hstep : History.Step timing now (j.history r) _ := .requeued hdue
    refine .stepped hr (by simp [hdue]) ?_
    simpa [hdue, history, hattempts, hevents, hself] using hstep
  · have hnone : (j.runs.filter (retryDue now)).filter (fun t => t.id = r.id) = [] := by
      refine List.filter_eq_nil_iff.mpr ?_
      intro t ht hid
      obtain ⟨htmem, htdue⟩ := List.mem_filter.mp ht
      exact hdue (wf.runs.eq htmem hr (of_decide_eq_true hid) ▸ htdue)
    refine .kept hr ?_
    simp [hdue, history, hattempts, hevents, hnone]

end Journal

/-- The history that a locked attempt belongs to. -/
theorem Locked.history {now : Int} {id : String} {j : Journal} {x : LockedAttempt}
    (locked : Locked now id j x) :
    x.run ∈ j.runs ∧ x.attempt ∈ (j.history x.run).attempts := by
  obtain ⟨hr, hrun⟩ := Table.lookup_mem locked.run
  have ha := (Table.lookup_mem locked.attempt).1
  exact ⟨hr, Journal.mem_attemptsOf.mpr ⟨ha, hrun.symm⟩⟩

section Effects

variable {p : PostgresStore} {now : Int} {l l' : Ledger} {op : Op}

theorem Effect.evolved (wf : l.WellFormed) (effect : Effect p now l op l') :
    ∀ r ∈ l'.runs, Evolved p.timing now l.toJournal l'.toJournal r := by
  have unchanged : ∀ r ∈ l.runs, Evolved p.timing now l.toJournal l.toJournal r :=
    fun r hr => .kept hr rfl
  cases effect with
  | same | registered | reregistered | marked | discovered => exact unchanged
  | submitted fresh keyed => exact Journal.submitted_evolved wf.toWellFormed fresh keyed rfl
  | moved attempt run move =>
    obtain ⟨hr, hrun⟩ := Table.lookup_mem run
    have ha := (Table.lookup_mem attempt).1
    refine Journal.put_evolved wf.toWellFormed hr move.run_identity.id ha hrun.symm
      move.attempt_identity move.events_run ?_
    exact .moved (Journal.mem_attemptsOf.mpr ⟨ha, hrun.symm⟩) move
  | assigned _ _ chosen _ _ _ _ _ =>
    have hr := (Table.lookup_mem chosen.run).1
    refine Journal.place_evolved hr rfl rfl rfl ?_
    exact .placed chosen.queued chosen.available
      fun b hb => chosen.fresh b (Journal.mem_attemptsOf.mp hb).1
  | admitted _ chosen =>
    have hr := (Table.lookup_mem chosen.run).1
    refine Journal.place_evolved hr rfl rfl rfl ?_
    exact .placed chosen.queued chosen.available
      fun b hb => chosen.fresh b (Journal.mem_attemptsOf.mp hb).1
  | stopped _ attempt _ finished =>
    exact Journal.clean_evolved wf.toWellFormed attempt finished rfl
  | removed attempt _ finished =>
    exact Journal.clean_evolved wf.toWellFormed attempt finished rfl
  | cancelled run unfinished =>
    exact Journal.cancel_evolved (Table.lookup_mem run).1 unfinished rfl
  | requeued => exact Journal.requeue_evolved wf.toWellFormed rfl

theorem Effect.runs_kept (effect : Effect p now l op l') :
    ∀ r ∈ l.runs, ∃ r' ∈ l'.runs, r'.id = r.id := by
  have replaced : ∀ run : RunRow, ∀ r ∈ l.runs,
      ∃ r' ∈ Table.replace (·.id) run l.runs, r'.id = r.id := by
    intro run r hr
    by_cases hid : r.id = run.id
    · exact ⟨run, Table.replace_self ⟨r, hr, hid⟩, hid.symm⟩
    · exact ⟨r, Table.replace_other hr hid, rfl⟩
  intro r hr
  cases effect with
  | same | registered | reregistered | marked | discovered | stopped | removed => exact ⟨r, hr, rfl⟩
  | submitted => exact ⟨r, List.mem_append_left _ hr, rfl⟩
  | moved | assigned | admitted | cancelled => exact replaced _ r hr
  | requeued =>
    refine ⟨_, Table.mem_update.mpr ⟨r, hr, rfl⟩, ?_⟩
    split
    · rfl
    · rfl

/-- Every run goes on, unchanged or by one step of its history. -/
theorem Effect.forward (wf : l.WellFormed) (effect : Effect p now l op l') :
    ∀ r ∈ l.runs, ∃ r' ∈ l'.runs, r'.id = r.id ∧
      (l'.history r' = l.history r ∨ History.Step p.timing now (l.history r) (l'.history r')) := by
  intro r hr
  obtain ⟨r', hr', hid⟩ := effect.runs_kept r hr
  refine ⟨r', hr', hid, ?_⟩
  cases effect.evolved wf r' hr' with
  | born _ _ unknown _ => exact absurd hid.symm (unknown r hr)
  | kept member history =>
    have hrun : r' = _ := congrArg History.run history
    have same := wf.runs.eq member hr (by rw [← hid, hrun]; rfl)
    exact .inl (same ▸ history)
  | stepped member id step =>
    have same := wf.runs.eq member hr (id.symm.trans hid)
    exact .inr (same ▸ step)

end Effects

/-- A property of fresh histories that `History.Step` preserves as the clock advances
holds of every run in every reachable state. -/
theorem PostgresStore.history_invariant {p : PostgresStore} {P : Int → History → Prop}
    (born : ∀ now r detail, RunRow.Fresh now r → P now (.born r detail now))
    (waits : ∀ clock now h, clock ≤ now → P clock h → P now h)
    (steps : ∀ clock now h h', clock ≤ now → h.Proper → P clock h →
      History.Step p.timing now h h' → P now h')
    {s : State} (hs : p.system.Reachable s) :
    ∀ r ∈ s.db.runs, P s.clock (s.db.history r) := by
  refine ledger_invariant (P := fun clock l => ∀ r ∈ l.runs, P clock (l.history r)) ?_ ?_ hs
  · intro r hr
    cases hr
  · intro clock now l op l' hclock wf hp effect r' hr'
    cases effect.evolved wf r' hr' with
    | born _ fresh _ history =>
      rw [history]
      exact born now _ _ fresh
    | kept member history =>
      rw [history]
      exact waits clock now _ hclock (hp _ member)
    | stepped member _ step =>
      exact steps clock now _ _ hclock (Journal.history_proper wf.toWellFormed _) (hp _ member) step

end Runyard
