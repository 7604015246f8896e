import Runyard.Run.Trace

/-!
# The lifetime of an attempt

Which deadlines an attempt has in each status, and how its row can change: its instance is
recorded once, a final status and a lapsed lease stay, and cleanup is not undone.
-/

namespace Runyard

namespace AttemptRow

/-- The deadline that the attempt has to meet in its present status. -/
def currentDeadline (a : AttemptRow) : Option Int :=
  match a.status with
  | .starting => some a.launchDeadline
  | .running => a.executionDeadline
  | .finalizing => a.finalizationDeadline
  | _ => none

/-- The attempt is over, or its lease or its current deadline has lapsed. -/
def Ended (now : Int) (a : AttemptRow) : Prop :=
  ¬ a.status.live ∨ lapsed a.leaseUntil now ∨ lapsed a.currentDeadline now

/-- The lease and the deadlines that the attempt has in each status. -/
structure Phased (a : AttemptRow) : Prop where
  starting : a.status = .starting → a.leaseUntil = none
  leased : a.status = .running ∨ a.status = .finalizing → a.leaseUntil.isSome
  running : a.status = .running → a.executionDeadline.isSome
  finalizing : a.status = .finalizing → a.finalizationDeadline.isSome

/-- How the row `a` at `clock` may have become `a'` at `now`. -/
structure Evolves (lease clock : Int) (a : AttemptRow) (now : Int) (a' : AttemptRow) : Prop where
  identity : a.SameIdentity a'
  instanceId : ∀ caller, a.instanceId = some caller → a'.instanceId = some caller
  final : ¬ a.status.live → a'.status = a.status
  expired : lapsed a.leaseUntil clock → lapsed a'.leaseUntil now
  ended : a.Ended clock → a'.Ended now
  renewed : ∀ t l, t ≤ clock → a.leaseUntil = some l → t + lease ≤ l →
    a'.status = .cancelled ∨ ∃ l', a'.leaseUntil = some l' ∧ t + lease ≤ l'
  cleaned : a.cleanupStatus = .done → a'.cleanupStatus = .done

end AttemptRow

theorem lapsed_mono {deadline : Option Int} {clock now : Int} (hclock : clock ≤ now)
    (h : lapsed deadline clock) : lapsed deadline now := by
  cases deadline with
  | none => exact h
  | some t =>
    simp only [lapsed, decide_eq_true_eq] at h ⊢
    omega

theorem lapsed_not_leaseValid {a : AttemptRow} {now : Int} (h : lapsed a.leaseUntil now) :
    ¬ a.leaseValid now := by
  cases hlease : a.leaseUntil with
  | none => simp [hlease, lapsed] at h
  | some t =>
    simp only [hlease, lapsed, decide_eq_true_eq] at h
    simpa [AttemptRow.leaseValid, hlease] using h

theorem AttemptRow.Ended.mono {a : AttemptRow} {clock now : Int} (hclock : clock ≤ now)
    (h : a.Ended clock) : a.Ended now := by
  rcases h with h | h | h
  · exact .inl h
  · exact .inr (.inl (lapsed_mono hclock h))
  · exact .inr (.inr (lapsed_mono hclock h))

/-- Once the attempt has ended, its fence is closed. -/
theorem Owned.not_ended {now : Int} {caller : String} {r : RunRow} {a : AttemptRow}
    (owned : Owned now caller r a) (agrees : r.status.agrees a.status) : ¬ a.Ended now := by
  have hstatus : a.status = .running ∨ a.status = .finalizing := by
    rcases owned.status with hr | hr <;> rw [hr] at agrees <;> cases hs : a.status <;>
      simp_all [RunStatus.agrees, AttemptStatus.toRun]
  rintro (hfinal | hlease | hdeadline)
  · rcases hstatus with hs | hs <;> simp [hs, AttemptStatus.live] at hfinal
  · exact lapsed_not_leaseValid hlease owned.lease
  · have hvalid := owned.deadline
    rcases hstatus with hs | hs <;>
      simp only [AttemptRow.currentDeadline, AttemptRow.deadlineValid, AttemptRow.phaseDeadline,
        hs] at hdeadline hvalid
    · cases hd : a.executionDeadline with
      | none => simp [hd, lapsed] at hdeadline
      | some d =>
        simp [hd, lapsed] at hdeadline hvalid
        omega
    · cases hd : a.finalizationDeadline with
      | none => simp [hd, lapsed] at hdeadline
      | some d =>
        simp [hd, lapsed] at hdeadline hvalid
        omega

namespace AttemptRow.Evolves

variable {lease clock now : Int} {a a' : AttemptRow}

theorem wait (hclock : clock ≤ now) : Evolves lease clock a now a where
  identity := ⟨rfl, rfl, rfl, rfl, rfl, rfl, rfl⟩
  instanceId _ h := h
  final _ := rfl
  expired := lapsed_mono hclock
  ended := Ended.mono hclock
  renewed _ l _ hl ht := .inr ⟨l, hl, ht⟩
  cleaned h := h

theorem trans {later : Int} {a'' : AttemptRow} (hclock : clock ≤ now)
    (first : Evolves lease clock a now a') (second : Evolves lease now a' later a'') :
    Evolves lease clock a later a'' := by
  constructor
  · obtain ⟨h₁, h₂, h₃, h₄, h₅, h₆, h₇⟩ := first.identity
    obtain ⟨k₁, k₂, k₃, k₄, k₅, k₆, k₇⟩ := second.identity
    exact ⟨k₁.trans h₁, k₂.trans h₂, k₃.trans h₃, k₄.trans h₄, k₅.trans h₅, k₆.trans h₆,
      k₇.trans h₇⟩
  · exact fun caller h => second.instanceId caller (first.instanceId caller h)
  · intro hfinal
    have hstatus := first.final hfinal
    rw [← hstatus] at hfinal
    exact (second.final hfinal).trans hstatus
  · exact fun h => second.expired (first.expired h)
  · exact fun h => second.ended (first.ended h)
  · intro t l ht hl hfloor
    rcases first.renewed t l ht hl hfloor with hcancelled | ⟨l', hl', hfloor'⟩
    · left
      rw [← hcancelled]
      exact second.final (by simp [hcancelled, AttemptStatus.live])
    · exact second.renewed t l' (le_trans ht hclock) hl' hfloor'
  · exact fun h => second.cleaned (first.cleaned h)

/-- A change of the columns that neither the fence nor the lease depends on. -/
theorem aside (hclock : clock ≤ now) (identity : a.SameIdentity a')
    (instanceId : a'.instanceId = a.instanceId) (status : a'.status = a.status)
    (leaseUntil : a'.leaseUntil = a.leaseUntil)
    (execution : a'.executionDeadline = a.executionDeadline)
    (finalization : a'.finalizationDeadline = a.finalizationDeadline)
    (cleaned : a.cleanupStatus = .done → a'.cleanupStatus = .done) :
    Evolves lease clock a now a' := by
  have hcurrent : a'.currentDeadline = a.currentDeadline := by
    simp only [currentDeadline, status, execution, finalization, identity.launchDeadline]
  constructor
  · exact identity
  · exact fun _ h => instanceId.trans h
  · exact fun _ => status
  · rw [leaseUntil]
    exact lapsed_mono hclock
  · intro h
    have h' : a'.Ended clock := by
      simpa [Ended, status, leaseUntil, hcurrent] using h
    exact h'.mono hclock
  · intro t l _ hl ht
    exact .inr ⟨l, leaseUntil.trans hl, ht⟩
  · exact cleaned

/-- The attempt gets a final status; its lease stays, or ends now. -/
theorem finish (hclock : clock ≤ now) (identity : a.SameIdentity a')
    (instanceId : a'.instanceId = a.instanceId) (live : a.status.live) (final : ¬ a'.status.live)
    (leaseUntil : a'.leaseUntil = a.leaseUntil ∨
      a'.status = .cancelled ∧ a'.leaseUntil = some now)
    (cleanup : a'.cleanupStatus = a.cleanupStatus) : Evolves lease clock a now a' := by
  constructor
  · exact identity
  · exact fun _ h => instanceId.trans h
  · exact fun h => absurd live h
  · intro h
    rcases leaseUntil with hl | ⟨_, hl⟩
    · rw [hl]
      exact lapsed_mono hclock h
    · simp [hl, lapsed]
  · exact fun _ => .inl final
  · intro t l _ hl ht
    rcases leaseUntil with hl' | ⟨hcancelled, _⟩
    · exact .inr ⟨l, hl'.trans hl, ht⟩
    · exact .inl hcancelled
  · exact fun h => cleanup.trans h

end AttemptRow.Evolves

namespace History

variable {h : History} {timing : Timing} {clock now : Int}

def Phased (h : History) : Prop := ∀ a ∈ h.attempts, a.Phased

/-- A caller that owns the attempt finds it running or finalizing. -/
theorem Coupled.owned_status (hc : h.Coupled) (hp : h.Proper) {caller : String} {a : AttemptRow}
    (ha : a ∈ h.attempts) (owned : Owned now caller h.run a) :
    a.status.toRun = h.run.status ∧ (a.status = .running ∨ a.status = .finalizing) := by
  have agrees := hc.status_of_active hp ha owned.active
  rcases owned.status with hr | hr <;> rw [hr] at agrees ⊢ <;> cases hs : a.status <;>
    simp_all [RunStatus.agrees, AttemptStatus.toRun]

theorem Coupled.phased_move (hc : h.Coupled) (hp : h.Proper) {op : Op} {r' : RunRow}
    {a a' : AttemptRow} {events : List EventRow} (ha : a ∈ h.attempts) (phased : a.Phased)
    (move : Move timing now h.run a op r' a' events) : a'.Phased := by
  cases move with
  | claimed => exact ⟨by simp, by simp, by simp, by simp⟩
  | renewed owned =>
    obtain ⟨_, hs | hs⟩ := hc.owned_status hp ha owned
    · exact ⟨by simp [hs], by simp, phased.running, phased.finalizing⟩
    · exact ⟨by simp [hs], by simp, phased.running, phased.finalizing⟩
  | finalizing owned _ =>
    obtain ⟨_, hs⟩ := hc.owned_status hp ha owned
    exact ⟨by simp, fun _ => phased.leased hs, by simp, by simp⟩
  | completed => exact ⟨by simp, by simp, by simp, by simp⟩
  | failed => exact ⟨by simp, by simp, by simp, by simp⟩
  | acknowledged | launched | jobLaunched =>
    exact ⟨phased.starting, phased.leased, phased.running, phased.finalizing⟩

theorem phased_step {h' : History} (hp : h.Proper) (hc : h.Coupled) (phased : h.Phased)
    (step : Step timing now h h') : h'.Phased := by
  intro a' ha'
  cases step with
  | moved member move =>
    rcases Table.mem_replace ha' with rfl | ⟨ha', _⟩
    · exact hc.phased_move hp member (phased _ member) move
    · exact phased a' ha'
  | placed _ _ _ =>
    rcases List.mem_append.mp ha' with ha' | ha'
    · exact phased a' ha'
    · rw [List.mem_singleton.mp ha']
      exact ⟨fun _ => rfl, by simp, by simp, by simp⟩
  | cleaned member _ =>
    rcases Table.mem_replace ha' with rfl | ⟨ha', _⟩
    · have old := phased _ member
      exact ⟨old.starting, old.leased, old.running, old.finalizing⟩
    · exact phased a' ha'
  | cancelled _ _ =>
    obtain ⟨a, ha, rfl⟩ := Table.mem_update.mp ha'
    split
    · exact ⟨by simp, by simp, by simp, by simp⟩
    · exact phased a ha
  | requeued _ => exact phased a' ha'

theorem Coupled.evolves_move (hc : h.Coupled) (hp : h.Proper) (hclock : clock ≤ now) {op : Op}
    {r' : RunRow} {a a' : AttemptRow} {events : List EventRow} (ha : a ∈ h.attempts)
    (phased : a.Phased) (move : Move timing now h.run a op r' a' events) :
    a.Evolves (seconds timing.leaseSeconds) clock now a' := by
  have same := move.attempt_identity
  cases move with
  | claimed active starting unclaimed _ inTime =>
    have agrees := hc.status_of_active hp ha active
    have hstatus : a.status = .starting := by
      rw [starting] at agrees
      cases hs : a.status <;> simp_all [RunStatus.agrees, AttemptStatus.toRun]
    have hlease := phased.starting hstatus
    constructor
    · exact same
    · intro caller hcaller
      rw [unclaimed] at hcaller
      cases hcaller
    · intro hfinal
      simp [hstatus, AttemptStatus.live] at hfinal
    · intro hlapsed
      simp [hlease, lapsed] at hlapsed
    · rintro (hfinal | hlapsed | hlapsed)
      · simp [hstatus, AttemptStatus.live] at hfinal
      · simp [hlease, lapsed] at hlapsed
      · simp only [AttemptRow.currentDeadline, hstatus, lapsed, decide_eq_true_eq] at hlapsed
        omega
    · intro t l _ hl
      rw [hlease] at hl
      cases hl
    · exact fun hcleaned => hcleaned
  | renewed owned =>
    have open_ := owned.not_ended (hc.status_of_active hp ha owned.active)
    constructor
    · exact same
    · exact fun _ hcaller => hcaller
    · exact fun _ => rfl
    · intro hlapsed
      exact absurd owned.lease (lapsed_not_leaseValid (lapsed_mono hclock hlapsed))
    · intro hended
      exact absurd (hended.mono hclock) open_
    · intro t l ht _ _
      refine .inr ⟨_, rfl, ?_⟩
      omega
    · exact fun hcleaned => hcleaned
  | finalizing owned _ =>
    have open_ := owned.not_ended (hc.status_of_active hp ha owned.active)
    constructor
    · exact same
    · exact fun _ hcaller => hcaller
    · intro hfinal
      exact absurd (.inl hfinal) open_
    · exact fun hlapsed => lapsed_mono hclock hlapsed
    · intro hended
      exact absurd (hended.mono hclock) open_
    · exact fun t l _ hl ht => .inr ⟨l, hl, ht⟩
    · exact fun hcleaned => hcleaned
  | completed owned _ _ =>
    obtain ⟨_, hs⟩ := hc.owned_status hp ha owned
    have live : a.status.live := by
      rcases hs with hs | hs <;> simp [hs, AttemptStatus.live]
    exact .finish hclock same rfl live (by simp [AttemptStatus.live]) (.inl rfl) rfl
  | failed active cause _ _ =>
    have live : a.status.live := by
      rw [RunStatus.agrees_live (hc.status_of_active hp ha active)]
      exact hc.cause_live hp ha active cause
    exact .finish hclock same rfl live (by simp [AttemptStatus.live]) (.inl rfl) rfl
  | acknowledged | launched | jobLaunched =>
    exact .aside hclock same rfl rfl rfl rfl rfl fun hcleaned => hcleaned

/-- Every attempt goes on in the next history. -/
theorem evolves_step {h' : History} (hp : h.Proper) (hc : h.Coupled) (phased : h.Phased)
    (hclock : clock ≤ now) (step : Step timing now h h') : ∀ a ∈ h.attempts,
    ∃ a' ∈ h'.attempts, a.Evolves (seconds timing.leaseSeconds) clock now a' := by
  intro b hb
  cases step with
  | @moved _ _ a a' _ member move =>
    have same := move.attempt_identity
    by_cases hid : b.id = a.id
    · have hba := hp.keyed.eq hb member hid
      refine ⟨a', Table.replace_self ⟨b, hb, hid.trans same.id.symm⟩, ?_⟩
      rw [hba]
      exact hc.evolves_move hp hclock member (phased a member) move
    · refine ⟨b, Table.replace_other hb ?_, .wait hclock⟩
      exact fun h => hid (h.trans same.id)
  | placed _ _ _ => exact ⟨b, List.mem_append_left _ hb, .wait hclock⟩
  | @cleaned a member _ =>
    by_cases hid : b.id = a.id
    · have hba := hp.keyed.eq hb member hid
      refine ⟨a.clean, Table.replace_self ⟨b, hb, hid⟩, ?_⟩
      rw [hba]
      exact .aside hclock ⟨rfl, rfl, rfl, rfl, rfl, rfl, rfl⟩ rfl rfl rfl rfl rfl fun _ => rfl
    · exact ⟨b, Table.replace_other hb hid, .wait hclock⟩
  | cancelled _ _ =>
    refine ⟨_, Table.mem_update.mpr ⟨b, hb, rfl⟩, ?_⟩
    by_cases live : b.status.live
    · rw [if_pos live]
      exact .finish hclock ⟨rfl, rfl, rfl, rfl, rfl, rfl, rfl⟩ rfl live
        (by simp [AttemptStatus.live]) (.inr ⟨rfl, rfl⟩) rfl
    · rw [if_neg live]
      exact .wait hclock
  | requeued _ => exact ⟨b, hb, .wait hclock⟩

end History

section Reachable

variable {p : PostgresStore} {s : PostgresStore.State}

theorem coupled_phased_reachable (hs : p.system.Reachable s) :
    ∀ r ∈ s.db.runs, (s.db.history r).Coupled ∧ (s.db.history r).Phased :=
  PostgresStore.history_invariant (P := fun _ h => h.Coupled ∧ h.Phased)
    (fun now r detail fresh =>
      ⟨History.coupled_born r detail now fresh, fun a ha => by cases ha⟩)
    (fun _ _ _ _ hcp => hcp)
    (fun _ _ _ _ _ hp hcp step =>
      ⟨History.coupled_step hp hcp.1 step, History.phased_step hp hcp.1 hcp.2 step⟩) hs

theorem later_clock {s' : PostgresStore.State} (later : p.system.Later s s') :
    s.clock ≤ s'.clock := by
  refine System.Leads.invariant (P := fun s' => s.clock ≤ s'.clock) later (le_refl _) ?_
  intro s₁ e s₂ hle _ hstep
  obtain ⟨hclock, rfl⟩ := p.step_eq hstep
  exact le_trans hle hclock

/-- Every attempt of a reachable state evolves along every later run. -/
theorem attempt_later {s' : PostgresStore.State} (hs : p.system.Reachable s)
    (later : p.system.Later s s') : ∀ a ∈ s.db.attempts, ∃ a' ∈ s'.db.attempts,
      a.Evolves (seconds p.timing.leaseSeconds) s.clock s'.clock a' := by
  intro a ha
  have wf := (PostgresStore.reachable_wellFormed hs).toWellFormed
  obtain ⟨r, hr, hrun⟩ := wf.attemptRun a ha
  obtain ⟨r', _, _, _, hevolves⟩ := history_later
    (R := fun clock h now h' => clock ≤ now ∧ ∀ a ∈ h.attempts, ∃ a' ∈ h'.attempts,
      a.Evolves (seconds p.timing.leaseSeconds) clock now a')
    (I := fun h => h.Coupled ∧ h.Phased) (fun _ => coupled_phased_reachable)
    (fun _ _ _ hclock => ⟨hclock, fun a ha => ⟨a, ha, .wait hclock⟩⟩)
    (fun _ _ _ _ _ _ first second => by
      refine ⟨le_trans first.1 second.1, fun a ha => ?_⟩
      obtain ⟨a₂, ha₂, h₂⟩ := first.2 a ha
      obtain ⟨a₃, ha₃, h₃⟩ := second.2 a₂ ha₂
      exact ⟨a₃, ha₃, h₂.trans first.1 h₃⟩)
    (fun _ _ _ _ hclock hp hcp step =>
      ⟨hclock, History.evolves_step hp hcp.1 hcp.2 hclock step⟩)
    hs later r hr
  obtain ⟨a', ha', hevolved⟩ := hevolves a (Journal.mem_attemptsOf.mpr ⟨ha, hrun.symm⟩)
  exact ⟨a', (Journal.mem_attemptsOf.mp ha').1, hevolved⟩

end Reachable

end Runyard
