import Runyard.Run.History

/-!
# Coupling of a run with its attempts

The attempts of a run are numbered in order, only the last one is current, and the status
of the run determines what status the current attempt may have.
-/

namespace Runyard

/-- The run status of the same name. -/
def AttemptStatus.toRun : AttemptStatus → RunStatus
  | .starting => .starting
  | .running => .running
  | .finalizing => .finalizing
  | .succeeded => .succeeded
  | .failed => .failed
  | .cancelled => .cancelled

/-- The status that the current attempt may have under the status of its run. A run is
cancelled with a failed attempt when it was waiting for the next one. -/
def RunStatus.agrees (run : RunStatus) (attempt : AttemptStatus) : Bool :=
  match run with
  | .queued | .retryWait => attempt = .failed
  | .cancelled => attempt = .cancelled || attempt = .failed
  | status => attempt.toRun = status

theorem RunStatus.agrees_live {run : RunStatus} {attempt : AttemptStatus}
    (h : run.agrees attempt) : attempt.live = run.live := by
  cases run <;> cases attempt <;> simp_all [agrees, AttemptStatus.toRun, AttemptStatus.live, live]

theorem RunStatus.agrees_toRun {run : RunStatus} {attempt : AttemptStatus}
    (h : run.agrees attempt) (live : run.live) : attempt.toRun = run := by
  cases run <;> cases attempt <;> simp_all [agrees, AttemptStatus.toRun, RunStatus.live]

theorem RunStatus.agrees_succeeded {run : RunStatus} {attempt : AttemptStatus}
    (h : run.agrees attempt) : attempt = .succeeded ↔ run = .succeeded := by
  cases run <;> cases attempt <;> simp_all [agrees, AttemptStatus.toRun]

/-- The numbers `1..n`. -/
def upTo (n : Nat) : List Int := (List.range n).map fun i : Nat => (i : Int) + 1

theorem upTo_succ (n : Nat) : upTo (n + 1) = upTo n ++ [(n : Int) + 1] := by
  simp [upTo, List.range_succ]

theorem upTo_bound {n : Nat} {i : Int} (h : i ∈ upTo n) : 0 < i ∧ i ≤ n := by
  simp only [upTo, List.mem_map, List.mem_range] at h
  obtain ⟨k, hk, rfl⟩ := h
  omega

namespace History

structure Coupled (h : History) : Prop where
  generations : h.attempts.map (·.generation) = upTo h.attempts.length
  count : h.run.generation = h.attempts.length
  active : h.run.activeAttempt = (h.attempts.map (·.id)).getLast?
  past : ∀ status ∈ (h.attempts.map (·.status)).dropLast, status = .failed
  current : ∀ status, (h.attempts.map (·.status)).getLast? = some status →
    h.run.status.agrees status
  idle : h.attempts = [] → h.run.status = .queued ∨ h.run.status = .cancelled

variable {h : History}

/-- The active attempt is the last one. -/
theorem Coupled.split (hc : h.Coupled) (hp : h.Proper) {a : AttemptRow} (ha : a ∈ h.attempts)
    (active : h.run.activeAttempt = some a.id) : ∃ past, h.attempts = past ++ [a] := by
  have hlast := hc.active
  rw [active, List.getLast?_map] at hlast
  obtain ⟨b, hb, hid⟩ := Option.map_eq_some_iff.mp hlast.symm
  have hmem : b ∈ h.attempts := List.mem_of_getLast? hb
  have same : b = a := hp.keyed.eq hmem ha hid
  obtain ⟨past, hpast⟩ := List.getLast?_eq_some_iff.mp hb
  exact ⟨past, by rw [hpast, same]⟩

/-- A new row for the active attempt is the last row. -/
theorem Coupled.replace_active (hc : h.Coupled) (hp : h.Proper) {a a' : AttemptRow}
    (ha : a ∈ h.attempts) (active : h.run.activeAttempt = some a.id) (same : a'.id = a.id) :
    ∃ past, h.attempts = past ++ [a] ∧ Table.replace (·.id) a' h.attempts = past ++ [a'] := by
  obtain ⟨past, hpast⟩ := hc.split hp ha active
  have hkeyed := hp.keyed
  rw [hpast] at hkeyed
  refine ⟨past, hpast, ?_⟩
  rw [hpast]
  exact Table.replace_last hkeyed same

theorem Coupled.status_of_active (hc : h.Coupled) (hp : h.Proper) {a : AttemptRow}
    (ha : a ∈ h.attempts) (active : h.run.activeAttempt = some a.id) :
    h.run.status.agrees a.status := by
  obtain ⟨past, hpast⟩ := hc.split hp ha active
  refine hc.current a.status ?_
  simp [hpast]

theorem Coupled.generation_of_active (hc : h.Coupled) (hp : h.Proper) {a : AttemptRow}
    (ha : a ∈ h.attempts) (active : h.run.activeAttempt = some a.id) :
    a.generation = h.run.generation := by
  obtain ⟨past, hpast⟩ := hc.split hp ha active
  have hgenerations := hc.generations
  have hcount := hc.count
  rw [hpast] at hgenerations hcount
  simp only [List.map_append, List.map_singleton, List.length_append, List.length_singleton,
    upTo_succ] at hgenerations hcount
  have hlast := (List.append_inj' hgenerations rfl).2
  simp only [List.cons.injEq, and_true] at hlast
  omega

theorem Coupled.status_of_past (hc : h.Coupled) {a : AttemptRow}
    (ha : a ∈ h.attempts) (superseded : h.run.activeAttempt ≠ some a.id) :
    a.status = .failed := by
  obtain ⟨past, last, hpast⟩ : ∃ past last, h.attempts = past ++ [last] :=
    ⟨_, _, (List.dropLast_append_getLast (List.ne_nil_of_mem ha)).symm⟩
  have hactive := hc.active
  simp only [hpast, List.map_append, List.map_singleton, List.getLast?_concat] at hactive
  rw [hpast] at ha
  rcases List.mem_append.mp ha with ha | ha
  · refine hc.past _ ?_
    simpa [hpast] using ⟨a, ha, rfl⟩
  · rw [List.mem_singleton.mp ha] at superseded
    exact absurd hactive superseded

theorem Coupled.live_active (hc : h.Coupled) (hp : h.Proper) {a : AttemptRow}
    (ha : a ∈ h.attempts) (live : a.status.live) :
    h.run.activeAttempt = some a.id ∧ h.run.status = a.status.toRun := by
  by_cases active : h.run.activeAttempt = some a.id
  · have agrees := hc.status_of_active hp ha active
    refine ⟨active, (RunStatus.agrees_toRun agrees ?_).symm⟩
    rw [← RunStatus.agrees_live agrees]
    exact live
  · rw [hc.status_of_past ha active] at live
    cases live

theorem Coupled.live_run (hc : h.Coupled) (hp : h.Proper) {a : AttemptRow} (ha : a ∈ h.attempts)
    (live : a.status.live) : h.run.status.live := by
  rw [(hc.live_active hp ha live).2]
  cases hcase : a.status <;> simp_all [AttemptStatus.live, AttemptStatus.toRun, RunStatus.live]

/-- A run that is neither queued nor cancelled has an active attempt, of its generation. -/
theorem Coupled.busy (hc : h.Coupled) (hp : h.Proper)
    (hbusy : ¬ (h.run.status = .queued ∨ h.run.status = .cancelled)) :
    ∃ a ∈ h.attempts, h.run.activeAttempt = some a.id ∧ a.generation = h.run.generation ∧
      h.run.status.agrees a.status := by
  have hne : h.attempts ≠ [] := fun hnil => hbusy (hc.idle hnil)
  obtain ⟨past, a, hpast⟩ := (List.eq_nil_or_concat' h.attempts).resolve_left hne
  have ha : a ∈ h.attempts := by simp [hpast]
  have hactive : h.run.activeAttempt = some a.id := by
    have hlast := hc.active
    rw [hpast] at hlast
    simpa using hlast
  exact ⟨a, ha, hactive, hc.generation_of_active hp ha hactive, hc.status_of_active hp ha hactive⟩

theorem Coupled.waiting (hc : h.Coupled) (waits : h.run.status = .queued ∨
    h.run.status = .retryWait) : ∀ status ∈ h.attempts.map (·.status), status = .failed := by
  intro status hstatus
  have hne : h.attempts.map (·.status) ≠ [] := List.ne_nil_of_mem hstatus
  rw [← List.dropLast_append_getLast hne] at hstatus
  rcases List.mem_append.mp hstatus with hpast | hlast
  · exact hc.past status hpast
  · have agrees := hc.current _ (List.getLast?_eq_some_getLast hne)
    rw [← List.mem_singleton.mp hlast] at agrees
    rcases waits with hwaits | hwaits
    · simpa [hwaits, RunStatus.agrees] using agrees
    · simpa [hwaits, RunStatus.agrees] using agrees

theorem coupled_born (r : RunRow) (detail : String) (now : Int) (fresh : r.Fresh now) :
    (History.born r detail now).Coupled := by
  refine ⟨rfl, fresh.generation, fresh.activeAttempt, ?_, ?_, fun _ => .inl fresh.status⟩
  · intro status hstatus
    cases hstatus
  · intro status hstatus
    cases hstatus

/-- A step that rewrites no identity and no status. -/
theorem Coupled.rewrite (hc : h.Coupled) {h' : History}
    (run : h'.run.generation = h.run.generation ∧ h'.run.activeAttempt = h.run.activeAttempt ∧
      h'.run.status = h.run.status)
    (ids : h'.attempts.map (·.id) = h.attempts.map (·.id))
    (generations : h'.attempts.map (·.generation) = h.attempts.map (·.generation))
    (statuses : h'.attempts.map (·.status) = h.attempts.map (·.status)) : h'.Coupled := by
  obtain ⟨hgeneration, hactive, hstatus⟩ := run
  have hlength : h'.attempts.length = h.attempts.length := by
    simpa using congrArg List.length ids
  constructor
  · rw [generations, hlength]
    exact hc.generations
  · rw [hgeneration, hlength]
    exact hc.count
  · rw [hactive, ids]
    exact hc.active
  · rw [statuses]
    exact hc.past
  · rw [statuses, hstatus]
    exact hc.current
  · intro hnil
    rw [hstatus]
    refine hc.idle (List.eq_nil_of_length_eq_zero ?_)
    rw [← hlength, hnil]
    rfl

/-- A step that moves the run and its active attempt to agreeing statuses. -/
theorem Coupled.advance (hc : h.Coupled) (hp : h.Proper) {a a' : AttemptRow} {r' : RunRow}
    {events : List EventRow} (ha : a ∈ h.attempts) (active : h.run.activeAttempt = some a.id)
    (same : a.SameIdentity a') (generation : r'.generation = h.run.generation)
    (keeps : r'.activeAttempt = h.run.activeAttempt) (agrees : r'.status.agrees a'.status) :
    Coupled ⟨r', Table.replace (·.id) a' h.attempts, events⟩ := by
  obtain ⟨past, hpast, hreplace⟩ := hc.replace_active hp ha active same.id
  obtain ⟨generations, count, hactive, hfailed, _, _⟩ := hc
  rw [hpast] at generations count hactive hfailed
  constructor
  · simpa [hreplace, same.generation] using generations
  · simpa [hreplace, generation] using count
  · simpa [hreplace, keeps, same.id] using hactive
  · simpa [hreplace] using hfailed
  · simpa [hreplace] using agrees
  · intro hnil
    simp [hreplace] at hnil

theorem Coupled.move (hc : h.Coupled) (hp : h.Proper) {timing : Timing} {now : Int} {op : Op}
    {r' : RunRow} {a a' : AttemptRow} {events : List EventRow} (ha : a ∈ h.attempts)
    (move : Move timing now h.run a op r' a' events) :
    Coupled ⟨r', Table.replace (·.id) a' h.attempts, h.events ++ events⟩ := by
  have same := move.attempt_identity
  have unchanged : a'.status = a.status → r' = h.run →
      Coupled ⟨r', Table.replace (·.id) a' h.attempts, h.events ++ events⟩ := by
    intro hstatus hrun
    have is_a : ∀ b ∈ h.attempts, b.id = a'.id → b = a :=
      fun b hb hid => hp.keyed.eq hb ha (hid.trans same.id)
    refine hc.rewrite (by simp [hrun]) ?_ ?_ ?_
    · exact Table.map_replace _ fun b _ hid => hid.symm
    · refine Table.map_replace _ fun b hb hid => ?_
      rw [is_a b hb hid]
      exact same.generation
    · refine Table.map_replace _ fun b hb hid => ?_
      rw [is_a b hb hid]
      exact hstatus
  cases move with
  | claimed active _ _ _ _ => exact hc.advance hp ha active same rfl rfl rfl
  | finalizing owned _ => exact hc.advance hp ha owned.active same rfl rfl rfl
  | completed owned _ _ => exact hc.advance hp ha owned.active same rfl rfl rfl
  | @failed _ _ _ _ retry _ active _ _ _ =>
    refine hc.advance hp ha active same rfl rfl ?_
    cases retry <;> rfl
  | renewed | acknowledged | launched | jobLaunched => exact unchanged rfl rfl

theorem Coupled.place (hc : h.Coupled) {timing : Timing} {now : Int} {attempt : RandomId}
    {worker : String} {events : List EventRow} (queued : h.run.status = .queued) :
    Coupled ⟨(h.run.activate (newAttempt timing now attempt worker h.run)).count now,
      h.attempts ++ [newAttempt timing now attempt worker h.run], events⟩ := by
  have failed := hc.waiting (.inl queued)
  constructor
  · simp [hc.generations, upTo_succ, hc.count]
  · simp [hc.count]
  · simp
  · simpa using failed
  · simp [RunStatus.agrees, AttemptStatus.toRun]
  · intro hnil
    simp at hnil

theorem Coupled.cancel (hc : h.Coupled) {now : Int} {events : List EventRow}
    (unfinished : ¬ h.run.status.terminal) :
    Coupled ⟨(h.run.enter .cancelled).count now,
      Table.update (fun a => a.status.live) (fun a => a.cancel now) h.attempts, events⟩ := by
  have ids : (Table.update (fun a => a.status.live) (fun a => a.cancel now) h.attempts).map
      (·.id) = h.attempts.map (·.id) := Table.map_update _ (by intro a _; rfl) _
  have generations : (Table.update (fun a => a.status.live) (fun a => a.cancel now)
      h.attempts).map (·.generation) = h.attempts.map (·.generation) :=
    Table.map_update _ (by intro a _; rfl) _
  have statuses : (Table.update (fun a => a.status.live) (fun a => a.cancel now)
      h.attempts).map (·.status) =
      (h.attempts.map (·.status)).map fun status => if status.live then .cancelled else status := by
    simp only [Table.update, List.map_map]
    refine List.map_congr_left ?_
    intro a _
    by_cases hlive : a.status.live
    · simp [hlive]
    · simp [hlive]
  constructor
  · simpa [generations] using hc.generations
  · simpa using hc.count
  · simpa [ids] using hc.active
  · intro status hstatus
    rw [statuses, ← List.map_dropLast] at hstatus
    obtain ⟨old, hold, rfl⟩ := List.mem_map.mp hstatus
    rw [hc.past old hold]
    rfl
  · intro status hstatus
    rw [statuses, List.getLast?_map] at hstatus
    obtain ⟨old, hold, rfl⟩ := Option.map_eq_some_iff.mp hstatus
    have agrees := hc.current old hold
    cases hrun : h.run.status <;> cases old <;>
      simp_all [RunStatus.agrees, RunStatus.terminal, AttemptStatus.toRun, AttemptStatus.live]
  · exact fun _ => .inr rfl

theorem coupled_step {timing : Timing} {now : Int} {h' : History} (hp : h.Proper)
    (hc : h.Coupled) (step : Step timing now h h') : h'.Coupled := by
  cases step with
  | moved member move => exact hc.move hp member move
  | placed queued _ _ => exact hc.place queued
  | @cleaned a member _ =>
    have is_a : ∀ b ∈ h.attempts, b.id = a.clean.id → b = a :=
      fun b hb hid => hp.keyed.eq hb member hid
    refine hc.rewrite ⟨rfl, rfl, rfl⟩ ?_ ?_ ?_
    · exact Table.map_replace _ fun b _ hid => hid.symm
    · exact Table.map_replace _ fun b hb hid => by rw [is_a b hb hid]; rfl
    · exact Table.map_replace _ fun b hb hid => by rw [is_a b hb hid]; rfl
  | cancelled _ unfinished => exact hc.cancel unfinished
  | requeued due =>
    simp only [retryDue, Bool.and_eq_true, decide_eq_true_eq] at due
    have failed := hc.waiting (.inr due.1)
    refine ⟨hc.generations, hc.count, hc.active, hc.past, ?_, fun _ => .inl rfl⟩
    intro status hstatus
    have hfailed := failed status (List.mem_of_getLast? hstatus)
    simp [hfailed, RunStatus.agrees]

end History

section Reachable

variable {p : PostgresStore} {s : PostgresStore.State}

theorem coupled_reachable (hs : p.system.Reachable s) :
    ∀ r ∈ s.db.runs, (s.db.history r).Coupled :=
  PostgresStore.history_invariant (P := fun _ h => h.Coupled)
    (fun now r detail fresh => History.coupled_born r detail now fresh)
    (fun _ _ _ _ hc => hc)
    (fun _ _ _ _ _ hp hc step => History.coupled_step hp hc step) hs

/-- A preorder on histories with their clocks that contains every step from a history with
the invariant `I` relates each run of a reachable state to itself in all later states. -/
theorem history_later {R : Int → History → Int → History → Prop} {I : History → Prop}
    (inv : ∀ s, p.system.Reachable s → ∀ r ∈ s.db.runs, I (s.db.history r))
    (waits : ∀ clock now h, clock ≤ now → R clock h now h)
    (trans : ∀ t₁ h₁ t₂ h₂ t₃ h₃, R t₁ h₁ t₂ h₂ → R t₂ h₂ t₃ h₃ → R t₁ h₁ t₃ h₃)
    (steps : ∀ clock now h h', clock ≤ now → h.Proper → I h → History.Step p.timing now h h' →
      R clock h now h')
    {s' : PostgresStore.State} (hs : p.system.Reachable s) (later : p.system.Later s s') :
    ∀ r ∈ s.db.runs, ∃ r' ∈ s'.db.runs, r'.id = r.id ∧
      R s.clock (s.db.history r) s'.clock (s'.db.history r') := by
  refine System.Leads.relation hs later ?_ ?_ ?_
    (R := fun s s' => ∀ r ∈ s.db.runs, ∃ r' ∈ s'.db.runs, r'.id = r.id ∧
      R s.clock (s.db.history r) s'.clock (s'.db.history r'))
  · exact fun s r hr => ⟨r, hr, rfl, waits _ _ _ (le_refl _)⟩
  · intro s₁ s₂ s₃ first second r hr
    obtain ⟨r₂, hr₂, hid₂, hR₂⟩ := first r hr
    obtain ⟨r₃, hr₃, hid₃, hR₃⟩ := second r₂ hr₂
    exact ⟨r₃, hr₃, hid₃.trans hid₂, trans _ _ _ _ _ _ hR₂ hR₃⟩
  · intro s e s' hs _ hstep r hr
    obtain ⟨hclock, rfl⟩ := p.step_eq hstep
    have wf := PostgresStore.reachable_wellFormed hs
    have effect : Effect p e.now _ e.op _ := PostgresStore.commit_effect wf
    obtain ⟨r', hr', hid, hsame | hstep⟩ := effect.forward wf r hr
    · refine ⟨r', hr', hid, ?_⟩
      have hsame' : (p.commit e.now e.op s.db).history r' = s.db.history r := hsame
      rw [hsame']
      exact waits _ _ _ hclock
    · exact ⟨r', hr', hid, steps _ _ _ _ hclock (Journal.history_proper wf.toWellFormed r)
        (inv s hs r hr) hstep⟩

/-- The run and attempt rows of every reachable state are coupled. -/
theorem run_attempt_coupling (p : PostgresStore) {s : PostgresStore.State}
    (hs : p.system.Reachable s) : ∀ r ∈ s.db.runs,
    (r.status.live → ∃ a ∈ s.db.attempts, a.runId = r.id ∧ r.activeAttempt = some a.id ∧
      a.generation = r.generation ∧ a.status.toRun = r.status) ∧
    (¬ r.status.live → ∀ a ∈ s.db.attempts, a.runId = r.id → ¬ a.status.live) ∧
    (∀ a ∈ s.db.attempts, a.runId = r.id → a.status = .succeeded →
      r.activeAttempt = some a.id ∧ r.status = .succeeded) ∧
    (r.status = .succeeded → ∃ a ∈ s.db.attempts, a.runId = r.id ∧
      r.activeAttempt = some a.id ∧ a.status = .succeeded) ∧
    (0 ≤ r.generation ∧
      (s.db.attemptsOf r.id).map (·.generation) = upTo r.generation.toNat) := by
  intro r hr
  have hc := coupled_reachable hs r hr
  have hp := Journal.history_proper (PostgresStore.reachable_wellFormed hs).toWellFormed r
  have mem : ∀ a ∈ s.db.attempts, a.runId = r.id → a ∈ (s.db.history r).attempts :=
    fun a ha hrun => Journal.mem_attemptsOf.mpr ⟨ha, hrun⟩
  refine ⟨?_, ?_, ?_, ?_, ?_, ?_⟩
  · intro live
    obtain ⟨a, ha, hactive, hgeneration, agrees⟩ := hc.busy hp fun hidle => by
      have hstatus : r.status = .queued ∨ r.status = .cancelled := hidle
      rcases hstatus with hstatus | hstatus <;> simp [hstatus, RunStatus.live] at live
    obtain ⟨hmem, hrun⟩ := Journal.mem_attemptsOf.mp ha
    exact ⟨a, hmem, hrun, hactive, hgeneration, RunStatus.agrees_toRun agrees live⟩
  · intro hidle a ha hrun live
    exact hidle (hc.live_run hp (mem a ha hrun) live)
  · intro a ha hrun succeeded
    have hactive : r.activeAttempt = some a.id := by
      by_contra hother
      have failed := hc.status_of_past (mem a ha hrun) hother
      rw [succeeded] at failed
      cases failed
    exact ⟨hactive,
      (RunStatus.agrees_succeeded (hc.status_of_active hp (mem a ha hrun) hactive)).mp succeeded⟩
  · intro succeeded
    have hstatus : (s.db.history r).run.status = .succeeded := succeeded
    obtain ⟨a, ha, hactive, _, agrees⟩ := hc.busy hp (by simp [hstatus])
    obtain ⟨hmem, hrun⟩ := Journal.mem_attemptsOf.mp ha
    exact ⟨a, hmem, hrun, hactive, (RunStatus.agrees_succeeded agrees).mpr hstatus⟩
  · have hcount : r.generation = _ := hc.count
    rw [hcount]
    exact Int.natCast_nonneg _
  · have hcount : r.generation = _ := hc.count
    rw [hcount, Int.toNat_natCast]
    exact hc.generations

theorem run_attempt_coupling_started : ∃ r ∈ Sample.started.db.runs, r.status = .running ∧
    ∃ a ∈ Sample.started.db.attempts, a.runId = r.id ∧ r.activeAttempt = some a.id ∧
      a.generation = r.generation ∧ a.status.toRun = r.status := by
  have running : ∃ r ∈ Sample.started.db.runs, r.status = .running := by decide +kernel
  obtain ⟨r, hr, hstatus⟩ := running
  have live : r.status.live := by simp [hstatus, RunStatus.live]
  exact ⟨r, hr, hstatus, (run_attempt_coupling Sample.store Sample.started_reachable r hr).1 live⟩

end Reachable

end Runyard
