import Runyard.Run.Fencing
import Runyard.Runner.Supervision

/-!
# The lease guard is conservative

`Secured t` says that the server's lease reaches at least one lease time beyond `t`. It holds
for the time of every call whose reply the runner may use, it is kept by all
transactions, and every value of `until_` is derived from it. `Supervised` bounds the time
at which the supervision loop kills the child by such a value.
-/

namespace Runyard

section Clocks

theorem millis_le {t : Int} (nonneg : 0 ≤ t) : millis t * 1000 ≤ t := by
  rw [millis, Int.tdiv_eq_ediv_of_nonneg nonneg]
  omega

theorem lt_of_millis_lt {t bound : Int} (h : millis t < bound) : t < bound * 1000 := by
  have next : t < (t.tdiv 1000 + 1) * 1000 := Int.lt_tdiv_add_one_mul_self t (by decide)
  rw [millis] at h
  omega

/-- What the check of the settings guarantees. -/
structure Timing.Valid (timing : Timing) : Prop where
  heartbeat : 1 ≤ timing.heartbeatSeconds
  termination : 1 ≤ timing.terminationSeconds
  lease : timing.heartbeatSeconds + timing.terminationSeconds + 2 < timing.leaseSeconds

theorem envInt_ok {setting : String → Option Int} {name : String} {fallback value : Int}
    (positive : 1 ≤ fallback) (h : envInt setting name fallback = .ok value) : 1 ≤ value := by
  unfold envInt at h
  split at h
  · obtain rfl := Result.pure_ok.mp h
    exact positive
  · simp only [Result.bind_ok, Result.throwIf_ok, Result.pure_ok, exists_and_left, exists_const,
      decide_eq_true_eq, not_lt] at h
    obtain ⟨hvalue, rfl⟩ := h
    exact hvalue

theorem loadTiming_valid {setting : String → Option Int} {timing : Timing}
    (h : loadTiming setting = .ok timing) : timing.Valid := by
  simp only [loadTiming, Result.bind_ok, Result.throwIf_ok, Result.pure_ok, exists_and_left,
    exists_const, decide_eq_true_eq, not_le] at h
  obtain ⟨heartbeat, hheartbeat, lease, _, _, _, _, _, _, _, termination, htermination, _, _,
    _, _, _, _, hlease, rfl⟩ := h
  exact ⟨envInt_ok (by decide) hheartbeat, envInt_ok (by decide) htermination, hlease⟩

end Clocks

section Server

variable {p : PostgresStore} {s s' : PostgresStore.State} {id : String} {t : Int}

/-- Where the instance of an attempt comes from. -/
theorem Effect.instance_from {now : Int} {l l' : Ledger} {op : Op}
    (effect : Effect p now l op l') {a' : AttemptRow} {caller : String} (ha' : a' ∈ l'.attempts)
    (claimed : a'.instanceId = some caller) :
    (∃ a ∈ l.attempts, a.id = a'.id ∧ a.instanceId = some caller) ∨
    ((∃ generation nodeName, op = .start a'.id generation caller nodeName) ∧
      a'.leaseUntil = some (now + seconds p.timing.leaseSeconds)) := by
  have kept : ∀ a ∈ l.attempts, a.id = a'.id → a'.instanceId = a.instanceId →
      ∃ a ∈ l.attempts, a.id = a'.id ∧ a.instanceId = some caller :=
    fun a ha hid hinstance => ⟨a, ha, hid, hinstance ▸ claimed⟩
  rcases effect.row_from ha' with
    ⟨a, ha, rfl | rfl | rfl⟩ | ⟨_, _, a, _, ha, move⟩ | ⟨_, _, _, _, rfl⟩
  · exact .inl (kept a' ha rfl rfl)
  · exact .inl (kept a ha rfl rfl)
  · exact .inl (kept a ha rfl rfl)
  · cases move with
    | claimed _ _ _ _ _ =>
      obtain rfl := Option.some.inj claimed
      exact .inr ⟨⟨_, _, rfl⟩, rfl⟩
    | renewed | acknowledged | finalizing | completed | failed | launched | jobLaunched =>
      exact .inl (kept _ ha rfl rfl)
  · cases claimed

/-- The lease of the attempt reaches one lease time beyond `t`, unless it was cancelled. -/
def PostgresStore.Secured (p : PostgresStore) (id : String) (s : PostgresStore.State)
    (t : Int) : Prop :=
  t ≤ s.clock ∧ ∃ a, s.db.attempt? id = some a ∧ (a.status = .cancelled ∨
    ∃ lease, a.leaseUntil = some lease ∧ t + seconds p.timing.leaseSeconds ≤ lease)

theorem secured_later (hs : p.system.Reachable s) (later : p.system.Later s s')
    (secured : p.Secured id s t) : p.Secured id s' t := by
  obtain ⟨ht, a, found, hlease⟩ := secured
  obtain ⟨ha, hid⟩ := Table.lookup_mem found
  obtain ⟨a', ha', evolved⟩ := attempt_later hs later a ha
  have found' := (PostgresStore.reachable_wellFormed (hs.later later)).attempts.lookup ha'
  rw [evolved.identity.id, hid] at found'
  refine ⟨le_trans ht (later_clock later), a', found', ?_⟩
  rcases hlease with hcancelled | ⟨lease, hlease, hfloor⟩
  · left
    rw [evolved.final (by simp [hcancelled, AttemptStatus.live]), hcancelled]
  · exact evolved.renewed t lease ht hlease hfloor

/-- An accepted `Start` leaves the attempt claimed by its caller. -/
theorem start_claims {now generation : Int} {caller nodeName : String} {db' : Db}
    {x : Assignment} (hs : p.system.Reachable s)
    (h : start p.timing now id generation caller nodeName s.db = .ok (db', x)) :
    ∃ a ∈ db'.attempts, a.id = id ∧ a.instanceId = some caller := by
  have wf := (PostgresStore.reachable_wellFormed hs).toWellFormed
  obtain ⟨y, locked, _, _, _, hcases⟩ := start_ok wf h
  have hmem := (Table.lookup_mem locked.attempt).1
  rcases hcases with ⟨hinstance, _, _, rfl⟩ | ⟨_, _, _, _, written⟩
  · exact ⟨y.attempt, hmem, locked.same, hinstance⟩
  · have hattempts : db'.attempts = _ := congrArg (fun l : Ledger => l.attempts) written
    refine ⟨y.attempt.claim now caller nodeName (seconds p.timing.leaseSeconds)
      (seconds y.run.spec.timeoutSeconds), ?_, locked.same, rfl⟩
    rw [hattempts]
    exact Table.replace_self ⟨y.attempt, hmem, rfl⟩

/-- An accepted heartbeat renews the lease. -/
theorem heartbeat_renews {now generation : Int} {caller : String} {db' : Db}
    (hs : p.system.Reachable s)
    (h : heartbeat p.timing now id generation caller s.db = .ok db') :
    ∃ a, db'.attempt? id = some a ∧
      a.leaseUntil = some (now + seconds p.timing.leaseSeconds) := by
  have wf := (PostgresStore.reachable_wellFormed hs).toWellFormed
  obtain ⟨x, howned, hreturn⟩ := Result.bind_ok.mp h
  obtain ⟨locked, _, _, _⟩ := owned_ok wf howned
  obtain rfl := Result.pure_ok.mp hreturn
  have found := locked.attempt
  rw [locked.same] at found
  have keeps : ∀ a : AttemptRow, decide (a.id = id) = true →
      (a.renew (now + seconds p.timing.leaseSeconds)).id = a.id := fun _ _ => rfl
  refine ⟨x.attempt.renew (now + seconds p.timing.leaseSeconds), ?_, rfl⟩
  have lookup := Table.lookup_update (k := id) keeps s.db.attempts
  simp only [Journal.attempt?] at found
  simpa [Db.updateAttempt, Journal.attempt?, found, locked.same] using lookup

end Server

namespace LeaseSetup

variable {c : LeaseSetup} {s s' : State}

/-- The lease reaches one lease time beyond the client's reading `t`. -/
def Secured (c : LeaseSetup) (s : State) (t : Int) : Prop :=
  0 ≤ t ∧ c.store.Secured c.id s.store (t - c.offset)

/-- The value `until` of a lease guard is two seconds before the end of a secured lease. -/
def Covers (c : LeaseSetup) (s : State) (until_ : Int) : Prop :=
  ∃ t, c.Secured s t ∧ until_ * 1000 ≤ t + seconds (c.store.timing.leaseSeconds - 2)

/-- What holds between the runner and the server in every reachable state. -/
structure Sound (c : LeaseSetup) (s : State) : Prop where
  reachable : c.store.system.Reachable s.store
  clock : s.store.clock ≤ s.now
  steady : s.runner.phase ≠ .idle → 0 ≤ s.now + c.offset
  sent : 0 ≤ s.runner.sent ∧ s.runner.sent ≤ max 0 (s.now + c.offset)
  beats : ∀ before ∈ s.beats, 0 ≤ before ∧ before ≤ s.now + c.offset
  claimed : ∀ a ∈ s.store.db.attempts, a.id = c.id → a.instanceId = some c.instanceId →
    s.runner.phase ≠ .idle ∧ c.Secured s s.runner.sent
  started : s.started.isSome → s.runner.phase ≠ .idle ∧ c.Secured s s.runner.sent
  answered : ∀ before ∈ s.answered, c.Secured s before
  guarded : ∀ lease, s.runner.lease = some lease → c.Covers s lease.until_

theorem step_eq {e : Event} (h : c.system.step s e = some s') :
    s.now ≤ e.now ∧ c.act { s with now := e.now } e.act = some s' := by
  have hstep : (if s.now ≤ e.now then c.act { s with now := e.now } e.act else none) = some s' := h
  by_cases hclock : s.now ≤ e.now
  · rw [if_pos hclock] at hstep
    exact ⟨hclock, hstep⟩
  · rw [if_neg hclock] at hstep
    cases hstep

theorem covers_bound (c : LeaseSetup) {t : Int} (secured : c.Secured s t) :
    c.Covers s (LeaseGuard.bound t c.store.timing.leaseSeconds) := by
  obtain ⟨setting, hloaded⟩ := c.loaded
  have valid := loadTiming_valid hloaded
  obtain ⟨_, _, _⟩ := valid
  refine ⟨t, secured, millis_le ?_⟩
  have hnonneg := secured.1
  simp only [seconds]
  omega

/-- Nothing is lost when the clock advances. -/
theorem Sound.wait (sound : c.Sound s) {now : Int} (hclock : s.now ≤ now) :
    c.Sound { s with now := now } := by
  constructor
  · exact sound.reachable
  · exact le_trans sound.clock hclock
  · intro hphase
    have hsteady := sound.steady hphase
    dsimp only
    omega
  · obtain ⟨hnonneg, hsent⟩ := sound.sent
    dsimp only
    omega
  · intro before hbefore
    obtain ⟨hnonneg, hsent⟩ := sound.beats before hbefore
    dsimp only
    omega
  · exact sound.claimed
  · exact sound.started
  · exact sound.answered
  · exact sound.guarded

/-- A transaction of the server keeps what was secured. -/
theorem Sound.execute (sound : c.Sound s) (op : Op) :
    c.store.system.Reachable (c.execute op s).store ∧
    (∀ t, c.Secured s t → c.Secured (c.execute op s) t) ∧
    ∀ until_, c.Covers s until_ → c.Covers (c.execute op s) until_ := by
  have hs' := c.store.reachable_commit sound.reachable op sound.clock
  have later : c.store.system.Later s.store ⟨c.store.commit s.now op s.store.db, s.now⟩ :=
    System.Leads.single (e := ⟨s.now, op⟩) trivial (if_pos sound.clock)
  have kept : ∀ t, c.Secured s t → c.Secured (c.execute op s) t := by
    rintro t ⟨hnonneg, secured⟩
    exact ⟨hnonneg, secured_later sound.reachable later secured⟩
  refine ⟨hs', kept, ?_⟩
  rintro until_ ⟨t, secured, hbound⟩
  exact ⟨t, kept t secured, hbound⟩

/-- The attempt is claimed by this runner only through its own `Start`. -/
theorem Sound.execute_claimed (sound : c.Sound s) (op : Op)
    (own : c.startsAs op → op = c.startOp ∧ s.runner.phase ≠ .idle) :
    ∀ a' ∈ (c.execute op s).store.db.attempts, a'.id = c.id →
      a'.instanceId = some c.instanceId →
      s.runner.phase ≠ .idle ∧ c.Secured (c.execute op s) s.runner.sent := by
  intro a' ha' hid hinstance
  have wf := PostgresStore.reachable_wellFormed sound.reachable
  obtain ⟨hs', kept, _⟩ := sound.execute op
  have effect : Effect c.store s.now s.store.db.toLedger op
      (c.execute op s).store.db.toLedger := PostgresStore.commit_effect wf
  rcases effect.instance_from ha' hinstance with ⟨a, ha, hsame, hclaimed⟩ | ⟨⟨_, _, hop⟩, hlease⟩
  · obtain ⟨hphase, secured⟩ := sound.claimed a ha (hsame.trans hid) hclaimed
    exact ⟨hphase, kept _ secured⟩
  · obtain ⟨_, hphase⟩ := own (by simp [hop, startsAs])
    have hsteady := sound.steady hphase
    obtain ⟨hnonneg, hsent⟩ := sound.sent
    have found := (PostgresStore.reachable_wellFormed hs').attempts.lookup ha'
    rw [hid] at found
    have executed : s.runner.sent - c.offset ≤ (c.execute op s).store.clock := by
      have hclock : (c.execute op s).store.clock = s.now := rfl
      omega
    refine ⟨hphase, hnonneg, executed, a', found, .inr ⟨_, hlease, ?_⟩⟩
    omega

theorem Sound.other (sound : c.Sound s) (op : Op)
    (own : c.startsAs op → op = c.startOp ∧ s.runner.phase ≠ .idle) :
    c.Sound (c.execute op s) := by
  obtain ⟨hs', kept, covered⟩ := sound.execute op
  constructor
  · exact hs'
  · exact le_refl s.now
  · exact sound.steady
  · exact sound.sent
  · exact sound.beats
  · exact sound.execute_claimed op own
  · exact fun hstarted => ⟨(sound.started hstarted).1, kept _ (sound.started hstarted).2⟩
  · exact fun before hbefore => kept _ (sound.answered before hbefore)
  · exact fun lease hlease => covered _ (sound.guarded lease hlease)

/-- A change of the runner that keeps its claim. -/
theorem Sound.advance (sound : c.Sound s) {runner : Runner} {beats : List Int}
    (steady : runner.phase ≠ .idle → 0 ≤ c.reading s)
    (sent : runner.sent = s.runner.sent) (phase : s.runner.phase ≠ .idle → runner.phase ≠ .idle)
    (hbeats : ∀ before ∈ beats, before ∈ s.beats ∨ before = c.reading s ∧ 0 ≤ c.reading s)
    (guarded : ∀ lease, runner.lease = some lease → c.Covers s lease.until_) :
    c.Sound { s with runner := runner, beats := beats } := by
  constructor
  · exact sound.reachable
  · exact sound.clock
  · exact steady
  · dsimp only
    rw [sent]
    exact sound.sent
  · intro before hbefore
    rcases hbeats before hbefore with hbefore | ⟨rfl, hnonneg⟩
    · exact sound.beats before hbefore
    · exact ⟨hnonneg, le_refl _⟩
  · intro a ha hid hinstance
    obtain ⟨hphase, secured⟩ := sound.claimed a ha hid hinstance
    refine ⟨phase hphase, ?_⟩
    dsimp only
    rw [sent]
    exact secured
  · intro hstarted
    obtain ⟨hphase, secured⟩ := sound.started hstarted
    refine ⟨phase hphase, ?_⟩
    dsimp only
    rw [sent]
    exact secured
  · exact sound.answered
  · exact guarded

/-- A runner that holds a lease has read the clock. -/
theorem Sound.leased (sound : c.Sound s) {lease : LeaseGuard}
    (hlease : s.runner.lease = some lease) : 0 ≤ c.reading s := by
  obtain ⟨t, ⟨hnonneg, ht, -⟩, -⟩ := sound.guarded lease hlease
  have hclock := sound.clock
  simp only [reading]
  omega

/-- What a step of the main thread does to the identity of the runner's call and its guard. -/
theorem step_lease {timing : Timing} {spec : Option RunSpec} {now : Int} {r r' : Runner}
    {act : Runner.Act} (h : r.step timing spec now act = some r') :
    (r.phase = .idle ∧ r'.sent = now ∧ r'.lease = r.lease ∧ r'.phase ≠ .idle) ∨
    r'.sent = r.sent ∧ (r.phase ≠ .idle → r'.phase ≠ .idle) ∧
      ∀ lease, r'.lease = some lease → r.lease = some lease ∨
        spec.isSome ∧ lease.until_ = LeaseGuard.bound r.sent timing.leaseSeconds := by
  have closed : r' = r.close → r'.sent = r.sent ∧ (r.phase ≠ .idle → r'.phase ≠ .idle) ∧
      ∀ lease, r'.lease = some lease → r.lease = some lease ∨
        spec.isSome ∧ lease.until_ = LeaseGuard.bound r.sent timing.leaseSeconds := by
    rintro rfl
    exact ⟨rfl, fun _ => by simp [Runner.close], fun _ hlease => by simp [Runner.close] at hlease⟩
  have same : r'.sent = r.sent → r'.lease = r.lease → r'.phase ≠ .idle →
      r'.sent = r.sent ∧ (r.phase ≠ .idle → r'.phase ≠ .idle) ∧
      ∀ lease, r'.lease = some lease → r.lease = some lease ∨
        spec.isSome ∧ lease.until_ = LeaseGuard.bound r.sent timing.leaseSeconds :=
    fun hsent hlease hphase => ⟨hsent, fun _ => hphase, fun _ hl => .inl (hlease ▸ hl)⟩
  cases act with
  | call =>
    simp only [Runner.step] at h
    split at h
    · rename_i hphase
      cases h
      exact .inl ⟨hphase, rfl, rfl, by simp⟩
    · cases h
  | startReply =>
    simp only [Runner.step] at h
    split at h
    · cases h
      refine .inr ⟨rfl, fun _ => by simp, fun lease hlease => .inr ⟨rfl, ?_⟩⟩
      cases hlease
      rfl
    · cases h
  | readBeforeLaunch | spawn | iterate | stop =>
    right
    simp only [Runner.step] at h
    split at h
    · cases h
      exact same rfl rfl (by simp)
    · cases h
  | ask | readLease | compareLease | readDeadline =>
    right
    simp only [Runner.step] at h
    split at h
    · split at h
      · cases h
        exact same rfl rfl (by simp [Runner.stopFor])
      · cases h
        exact same rfl rfl (by simp)
    · cases h
  | checkBeforeLaunch =>
    right
    simp only [Runner.step] at h
    split at h
    · split at h
      · exact closed (Option.some.inj h).symm
      · cases h
        exact same rfl rfl (by simp)
    · cases h
  | poll =>
    right
    simp only [Runner.step] at h
    split at h
    · split at h
      · split at h
        · cases h
        · cases h
          exact same rfl rfl (by simp)
      · cases h
        exact same rfl rfl (by simp)
    · cases h
  | childExit =>
    right
    simp only [Runner.step] at h
    split at h
    · split at h
      · cases h
        exact ⟨rfl, fun hphase => hphase, fun _ hlease => .inl hlease⟩
      · cases h
    · cases h
  | unwind =>
    right
    simp only [Runner.step] at h
    split at h
    · cases h
    · exact closed (Option.some.inj h).symm
  | finish =>
    right
    simp only [Runner.step] at h
    split at h
    · exact closed (Option.some.inj h).symm
    · cases h

theorem Sound.main (sound : c.Sound s) {runner : Runner} {act : Runner.Act}
    (steady : 0 ≤ c.reading s)
    (h : s.runner.step c.store.timing s.started (c.reading s) act = some runner) :
    c.Sound { s with runner := runner } := by
  rcases step_lease h with ⟨hidle, hsent, hlease, hphase⟩ | ⟨hsent, hphase, hlease⟩
  · -- The first `Start` goes out: the server has not executed one yet.
    have unclaimed : ∀ a ∈ s.store.db.attempts, a.id = c.id →
        a.instanceId = some c.instanceId → False :=
      fun a ha hid hinstance => (sound.claimed a ha hid hinstance).1 hidle
    constructor
    · exact sound.reachable
    · exact sound.clock
    · exact fun _ => steady
    · dsimp only
      rw [hsent]
      exact ⟨steady, le_max_right _ _⟩
    · exact sound.beats
    · exact fun a ha hid hinstance => (unclaimed a ha hid hinstance).elim
    · exact fun hstarted => absurd hidle (sound.started hstarted).1
    · exact sound.answered
    · intro lease hl
      exact sound.guarded lease (hlease ▸ hl)
  · refine sound.advance (fun _ => steady) hsent hphase (fun _ hbefore => .inl hbefore) ?_
    intro lease hl
    rcases hlease lease hl with hold | ⟨hstarted, hbound⟩
    · exact sound.guarded lease hold
    · rw [hbound]
      exact covers_bound c (sound.started hstarted).2

theorem Sound.act (sound : c.Sound s) {act : Act} (h : c.act s act = some s') : c.Sound s' := by
  cases act with
  | other op =>
    simp only [LeaseSetup.act] at h
    split at h
    · cases h
    · rename_i hother
      cases h
      exact sound.other op fun hown => absurd hown hother
  | executeStart =>
    simp only [LeaseSetup.act] at h
    split at h
    · cases h
    · rename_i hphase
      cases h
      have next := sound.other c.startOp fun _ => ⟨rfl, hphase⟩
      refine { next with started := fun hstarted => ?_ }
      simp only [startReply] at hstarted
      split at hstarted
      · rename_i db' x hstart
        obtain ⟨a, ha, hid, hinstance⟩ := start_claims sound.reachable hstart
        have committed : (c.execute c.startOp s).store.db = db' := by
          simp only [LeaseSetup.execute, PostgresStore.commit, PostgresStore.apply, startOp,
            hstart, Except.map]
        exact next.claimed a (committed ▸ ha) hid hinstance
      · exact next.started hstarted
  | executeHeartbeat before =>
    simp only [LeaseSetup.act] at h
    split at h
    · rename_i hsent
      cases h
      have next := sound.other c.heartbeatOp fun hown => by simp [startsAs, heartbeatOp] at hown
      refine { next with answered := fun b hb => ?_ }
      dsimp only at hb
      split at hb
      · rename_i haccepts
        rcases List.mem_cons.mp hb with rfl | hb
        · -- The heartbeat is executed no earlier than it was sent.
          obtain ⟨hnonneg, hbefore⟩ := sound.beats b hsent
          simp only [accepts] at haccepts
          split at haccepts
          · rename_i db' hheartbeat
            obtain ⟨a, found, hlease⟩ := heartbeat_renews sound.reachable hheartbeat
            have committed : (c.execute c.heartbeatOp s).store.db = db' := by
              simp only [LeaseSetup.execute, PostgresStore.commit, PostgresStore.apply,
                heartbeatOp, hheartbeat]
            have executed : b - c.offset ≤ (c.execute c.heartbeatOp s).store.clock := by
              have hclock : (c.execute c.heartbeatOp s).store.clock = s.now := rfl
              omega
            refine ⟨hnonneg, executed, a, committed.symm ▸ found, .inr ⟨_, hlease, ?_⟩⟩
            omega
          · cases haccepts
        · exact next.answered b hb
      · exact next.answered b hb
    · cases h
  | wake =>
    simp only [LeaseSetup.act, Option.bind_eq_bind, Option.bind_eq_some_iff, Option.pure_def,
      Option.some.injEq] at h
    obtain ⟨lease, hlease, lease', hwake, rfl⟩ := h
    refine sound.advance sound.steady rfl (fun hphase => hphase) ?_ ?_
    · intro before hbefore
      rcases List.mem_cons.mp hbefore with rfl | hbefore
      · exact .inr ⟨rfl, sound.leased hlease⟩
      · exact .inl hbefore
    · intro g hg
      cases hg
      have same : lease'.until_ = lease.until_ := by
        simp only [LeaseGuard.wake] at hwake
        split at hwake
        · split at hwake
          · cases hwake
            rfl
          · cases hwake
        · cases hwake
      rw [same]
      exact sound.guarded lease hlease
  | heartbeatReply =>
    simp only [LeaseSetup.act, Option.bind_eq_bind, Option.bind_eq_some_iff, Option.pure_def,
      Option.some.injEq] at h
    obtain ⟨lease, hlease, lease', hreply, rfl⟩ := h
    refine sound.advance sound.steady rfl (fun hphase => hphase) (fun _ hb => .inl hb) ?_
    intro g hg
    cases hg
    simp only [LeaseGuard.replied] at hreply
    split at hreply
    · cases hreply
    · split at hreply
      · rename_i hanswered
        cases hreply
        exact covers_bound c (sound.answered _ hanswered)
      · cases hreply
  | heartbeatFailed unavailable =>
    simp only [LeaseSetup.act, Option.bind_eq_bind, Option.bind_eq_some_iff, Option.pure_def,
      Option.some.injEq] at h
    obtain ⟨lease, hlease, lease', hfailed, rfl⟩ := h
    refine sound.advance sound.steady rfl (fun hphase => hphase) (fun _ hb => .inl hb) ?_
    intro g hg
    cases hg
    have same : lease'.until_ = lease.until_ := by
      simp only [LeaseGuard.failed] at hfailed
      split at hfailed
      · cases hfailed
      · cases hfailed
        rfl
    rw [same]
    exact sound.guarded lease hlease
  | main act =>
    simp only [LeaseSetup.act, Option.ite_none_right_eq_some, Option.bind_eq_bind,
      Option.bind_eq_some_iff, Option.pure_def, Option.some.injEq] at h
    obtain ⟨steady, runner, hstep, rfl⟩ := h
    exact sound.main steady hstep

theorem sound_init (c : LeaseSetup) : c.Sound c.system.init := by
  constructor
  · exact System.reachable_init
  · exact le_refl _
  · exact fun hphase => absurd rfl hphase
  · exact ⟨le_refl _, le_max_left _ _⟩
  · intro before hbefore
    cases hbefore
  · intro a ha
    cases ha
  · intro hstarted
    cases hstarted
  · intro before hbefore
    cases hbefore
  · intro lease hlease
    cases hlease

theorem sound_reachable (hs : c.system.Reachable s) : c.Sound s := by
  refine hs.invariant (P := c.Sound) (sound_init c) ?_
  intro s e s' sound hstep
  obtain ⟨hclock, hact⟩ := step_eq hstep
  exact (sound.wait hclock).act hact

/-- The server inside the composed system is a `PostgresStore`. -/
theorem embeds (c : LeaseSetup) : c.system.Embeds c.store.system (·.store) := by
  refine ⟨rfl, ?_⟩
  intro s e s' hs hstep
  obtain ⟨hclock, hact⟩ := step_eq hstep
  have sound := sound_reachable hs
  have executed : ∀ op, ∃ d, c.store.system.step s.store d =
      some ⟨c.store.commit e.now op s.store.db, e.now⟩ :=
    fun op => ⟨⟨e.now, op⟩, if_pos (le_trans sound.clock hclock)⟩
  cases hcase : e.act with
  | other op =>
    simp only [hcase, LeaseSetup.act] at hact
    split at hact
    · cases hact
    · cases hact
      exact .inr (executed op)
  | executeStart =>
    simp only [hcase, LeaseSetup.act] at hact
    split at hact
    · cases hact
    · cases hact
      exact .inr (executed c.startOp)
  | executeHeartbeat before =>
    simp only [hcase, LeaseSetup.act] at hact
    split at hact
    · cases hact
      exact .inr (executed c.heartbeatOp)
    · cases hact
  | wake | heartbeatReply | heartbeatFailed =>
    simp only [hcase, LeaseSetup.act, Option.bind_eq_bind, Option.bind_eq_some_iff,
      Option.pure_def, Option.some.injEq] at hact
    obtain ⟨_, _, _, _, rfl⟩ := hact
    exact .inl rfl
  | main act =>
    simp only [hcase, LeaseSetup.act, Option.ite_none_right_eq_some, Option.bind_eq_bind,
      Option.bind_eq_some_iff, Option.pure_def, Option.some.injEq] at hact
    obtain ⟨_, _, _, rfl⟩ := hact
    exact .inl rfl

theorem covers_step {e : Event} {until_ : Int} (hs : c.system.Reachable s)
    (h : c.system.step s e = some s') (covers : c.Covers s until_) : c.Covers s' until_ := by
  have next : c.system.Later s s' := System.Leads.single trivial h
  have later : c.store.system.Later s.store s'.store := c.embeds.later hs next
  obtain ⟨t, ⟨hnonneg, secured⟩, hbound⟩ := covers
  exact ⟨t, ⟨hnonneg, secured_later (sound_reachable hs).reachable later secured⟩, hbound⟩

end LeaseSetup

/-! ## The supervision loop -/

namespace Runner

/-- No stop has been asked for yet. -/
def Calm (r : Runner) : Prop := r.reason = "" ∧ ∃ process, r.process = some process ∧
  process.killAt = none

/-- The iteration and the termination grace end before a covered bound plus `slack`. -/
def Early (covers : Int → Prop) (grace slack : Int) (r : Runner) : Prop :=
  ∃ until_, covers until_ ∧ r.iteration + seconds grace < until_ * 1000 + slack

/-- The child will be killed within a second of a covered bound. -/
def Stopping (covers : Int → Prop) (slack : Int) (r : Runner) : Prop :=
  r.reason ≠ "" ∧ ∃ process killAt until_, r.process = some process ∧
    process.killAt = some killAt ∧ covers until_ ∧ killAt < until_ * 1000 + 1000000 ∧
    r.iteration < killAt + slack

/-- What the supervision loop has established at each point. -/
def Supervised (covers : Int → Prop) (grace : Int) (r : Runner) : Prop :=
  match r.phase with
  | .idle | .starting | .preparing => r.process = none ∧ r.reason = ""
  | .prechecking reading => r.process = none ∧ r.reason = "" ∧ r.iteration ≤ reading
  | .spawning => r.process = none ∧ r.reason = "" ∧ r.Early covers grace 0
  | .looping .top => r.childRunning →
    r.Calm ∧ r.Early covers grace 0 ∨ r.Stopping covers 0
  | .looping .asking | .looping .leasing => r.childRunning →
    r.Calm ∧ r.Early covers grace 500000
  | .looping (.comparing reading) => r.childRunning →
    r.Calm ∧ r.Early covers grace 500000 ∧ r.iteration ≤ reading
  | .looping .timing => r.childRunning → r.Calm ∧ r.Early covers grace 0
  | .looping .stopping => r.childRunning →
    r.reason ≠ "" ∧ (∃ process, r.process = some process ∧ process.killAt = none) ∧
      r.Early covers grace 500000
  | .looping .polling => r.childRunning →
    r.Calm ∧ r.Early covers grace 0 ∨ r.Stopping covers 500000
  | .finishing | .ended => r.childRunning = false

variable {covers wider : Int → Prop} {grace : Int} {r : Runner}

theorem Early.mono (weaker : ∀ u, covers u → wider u) {slack : Int}
    (early : r.Early covers grace slack) : r.Early wider grace slack := by
  obtain ⟨until_, hcovers, hbound⟩ := early
  exact ⟨until_, weaker _ hcovers, hbound⟩

/-- A later iteration leaves less of the slack. -/
theorem Early.later {r' : Runner} {slack slack' : Int} (early : r.Early covers grace slack)
    (hle : r'.iteration + slack ≤ r.iteration + slack') : r'.Early covers grace slack' := by
  obtain ⟨until_, hcovers, hbound⟩ := early
  exact ⟨until_, hcovers, by omega⟩

/-- A lease that is not near its expiry ends after the iteration and the grace. -/
theorem Early.of_guard {lease : LeaseGuard} {reading : Int}
    (far : ¬ lease.nearExpiry reading grace) (hcovers : covers lease.until_)
    (hreading : r.iteration ≤ reading) : r.Early covers grace 0 := by
  simp only [LeaseGuard.nearExpiry, decide_eq_true_eq, not_le] at far
  have hbound := lt_of_millis_lt far
  exact ⟨lease.until_, hcovers, by omega⟩

theorem Stopping.mono (weaker : ∀ u, covers u → wider u) {slack : Int}
    (stopping : r.Stopping covers slack) : r.Stopping wider slack := by
  obtain ⟨hreason, process, killAt, until_, hprocess, hkill, hcovers, hbounds⟩ := stopping
  exact ⟨hreason, process, killAt, until_, hprocess, hkill, weaker _ hcovers, hbounds⟩

theorem Supervised.mono (weaker : ∀ u, covers u → wider u) (h : r.Supervised covers grace) :
    r.Supervised wider grace := by
  unfold Supervised at h ⊢
  split at h
  · exact h
  · exact h
  · exact h
  · exact h
  · exact ⟨h.1, h.2.1, h.2.2.mono weaker⟩
  · intro running
    rcases h running with ⟨calm, early⟩ | stopping
    · exact .inl ⟨calm, early.mono weaker⟩
    · exact .inr (stopping.mono weaker)
  · exact fun running => ⟨(h running).1, (h running).2.mono weaker⟩
  · exact fun running => ⟨(h running).1, (h running).2.mono weaker⟩
  · exact fun running =>
      ⟨(h running).1, (h running).2.1.mono weaker, (h running).2.2⟩
  · exact fun running => ⟨(h running).1, (h running).2.mono weaker⟩
  · exact fun running =>
      ⟨(h running).1, (h running).2.1, (h running).2.2.mono weaker⟩
  · intro running
    rcases h running with ⟨calm, early⟩ | stopping
    · exact .inl ⟨calm, early.mono weaker⟩
    · exact .inr (stopping.mono weaker)
  · exact h
  · exact h

theorem close_supervised : r.close.Supervised covers grace := by
  have stopped : r.close.childRunning = false := by
    cases hprocess : r.process with
    | none => simp [close, childRunning, hprocess]
    | some process =>
      by_cases hchild : process.child = .running
      · simp [close, childRunning, hprocess, PosixProcess.kill, hchild]
      · simp [close, childRunning, hprocess, PosixProcess.kill, hchild]
  exact stopped

theorem stopFor_supervised {reason : String} {slack : Int} (nonempty : reason ≠ "")
    (hslack : slack ≤ 500000)
    (h : r.childRunning → r.Calm ∧ r.Early covers grace slack) :
    (r.stopFor reason).Supervised covers grace := by
  intro running
  obtain ⟨calm, early⟩ := h running
  refine ⟨nonempty, calm.2, early.later ?_⟩
  dsimp only [stopFor]
  omega

theorem stop_child (process : PosixProcess) (now grace : Int) :
    (process.stop now grace).child = process.child := by
  unfold PosixProcess.stop
  cases process.killAt with
  | none => rfl
  | some killAt =>
    dsimp only
    split
    · rfl
    · rfl

/-- A process that `poll` leaves running was not due to be killed. -/
theorem killDue_running {process : PosixProcess} {now : Int}
    (running : (process.killDue now).child = .running) :
    process.killDue now = process ∧ ∀ killAt, process.killAt = some killAt → now < killAt := by
  unfold PosixProcess.killDue at running ⊢
  split at running
  · rename_i hnone
    simp [hnone]
  · rename_i killAt hsome
    split at running
    · simp only [PosixProcess.kill] at running
      split at running
      · cases running
      · rename_i hchild
        exact absurd running hchild
    · rename_i hdue
      simp only [hsome, hdue, if_false, Option.some.injEq, true_and]
      rintro _ rfl
      omega

/-- One step of the main thread keeps what the loop has established, when iterations are
prompt and `until_` is covered. -/
theorem step_supervised {timing : Timing} {spec : Option RunSpec} {now : Int} {r' : Runner}
    {act : Act} (h : r.Supervised covers timing.terminationSeconds)
    (grace : 1 ≤ timing.terminationSeconds) (past : r.iteration ≤ now)
    (prompt : r.supervises → now ≤ r.iteration + 500000)
    (guarded : ∀ lease, r.lease = some lease → covers lease.until_)
    (hstep : r.step timing spec now act = some r') :
    r'.Supervised covers timing.terminationSeconds ∧ r'.iteration ≤ now := by
  have far : 1000000 ≤ seconds timing.terminationSeconds := by
    simp only [seconds]
    omega
  cases act with
  | call =>
    simp only [step] at hstep
    split at hstep
    · rename_i hphase
      cases hstep
      simp only [Supervised, hphase] at h
      exact ⟨h, past⟩
    · cases hstep
  | startReply =>
    simp only [step] at hstep
    split at hstep
    · rename_i _ hphase
      cases hstep
      simp only [Supervised, hphase] at h
      exact ⟨h, past⟩
    · cases hstep
  | readBeforeLaunch =>
    simp only [step] at hstep
    split at hstep
    · rename_i hphase
      cases hstep
      simp only [Supervised, hphase] at h
      exact ⟨⟨h.1, h.2, le_refl _⟩, le_refl _⟩
    · cases hstep
  | checkBeforeLaunch =>
    simp only [step] at hstep
    split at hstep
    · rename_i reading lease hphase hlease
      split at hstep
      · cases hstep
        exact ⟨close_supervised, past⟩
      · rename_i hnear
        cases hstep
        simp only [Supervised, hphase] at h
        obtain ⟨hprocess, hreason, hreading⟩ := h
        have early := Early.of_guard hnear (guarded lease hlease) hreading
        exact ⟨⟨hprocess, hreason, early⟩, past⟩
    · cases hstep
  | spawn =>
    simp only [step] at hstep
    split at hstep
    · rename_i hphase
      cases hstep
      simp only [Supervised, hphase] at h
      obtain ⟨_, hreason, early⟩ := h
      exact ⟨fun _ => .inl ⟨⟨hreason, _, rfl, rfl⟩, early⟩, past⟩
    · cases hstep
  | iterate =>
    simp only [step] at hstep
    split at hstep
    · rename_i hphase
      cases hstep
      have late := prompt (by simp [supervises, hphase])
      simp only [Supervised, hphase] at h
      refine ⟨?_, le_refl _⟩
      by_cases hreason : r.reason = ""
      · simp only [Supervised, hreason, if_true]
        intro running
        rcases h running with ⟨calm, early⟩ | stopping
        · refine ⟨⟨rfl, calm.2⟩, early.later ?_⟩
          dsimp only
          omega
        · exact absurd hreason stopping.1
      · simp only [Supervised, hreason, if_false]
        intro running
        rcases h running with ⟨calm, _⟩ | stopping
        · exact absurd calm.1 hreason
        · obtain ⟨_, process, killAt, until_, hprocess, hkill, hcovers, hlimit, hbound⟩ := stopping
          refine .inr ⟨hreason, process, killAt, until_, hprocess, hkill, hcovers, hlimit, ?_⟩
          dsimp only
          omega
    · cases hstep
  | ask stopRequested =>
    simp only [step] at hstep
    split at hstep
    · rename_i hphase
      simp only [Supervised, hphase] at h
      split at hstep
      · cases hstep
        exact ⟨stopFor_supervised (by decide) (le_refl _) h, past⟩
      · cases hstep
        exact ⟨h, past⟩
    · cases hstep
  | readLease =>
    simp only [step] at hstep
    split at hstep
    · rename_i hphase _
      simp only [Supervised, hphase] at h
      split at hstep
      · cases hstep
        exact ⟨stopFor_supervised (by decide) (le_refl _) h, past⟩
      · cases hstep
        exact ⟨fun running => ⟨(h running).1, (h running).2, past⟩, past⟩
    · cases hstep
  | compareLease =>
    simp only [step] at hstep
    split at hstep
    · rename_i reading lease hphase hlease
      simp only [Supervised, hphase] at h
      split at hstep
      · cases hstep
        exact ⟨stopFor_supervised (by decide) (le_refl _)
          fun running => ⟨(h running).1, (h running).2.1⟩, past⟩
      · rename_i hnear
        cases hstep
        refine ⟨fun running => ?_, past⟩
        obtain ⟨calm, _, hreading⟩ := h running
        exact ⟨calm, Early.of_guard hnear (guarded lease hlease) hreading⟩
    · cases hstep
  | readDeadline =>
    simp only [step] at hstep
    split at hstep
    · rename_i hphase
      simp only [Supervised, hphase] at h
      split at hstep
      · cases hstep
        exact ⟨stopFor_supervised (by decide) (by decide) h, past⟩
      · cases hstep
        exact ⟨fun running => .inl (h running), past⟩
    · cases hstep
  | stop =>
    simp only [step] at hstep
    split at hstep
    · rename_i hphase
      cases hstep
      have late := prompt (by simp [supervises, hphase])
      simp only [Supervised, hphase] at h
      refine ⟨fun running => ?_, past⟩
      have hbefore : r.childRunning := by
        cases hprocess : r.process with
        | none => simp [childRunning, hprocess] at running
        | some process => simpa [childRunning, hprocess, stop_child] using running
      obtain ⟨hreason, ⟨process, hprocess, hnone⟩, until_, hcovers, hbound⟩ := h hbefore
      refine .inr ⟨hreason, process.stop now timing.terminationSeconds,
        now + seconds timing.terminationSeconds, until_, ?_, ?_, hcovers, ?_, ?_⟩
      · simp [hprocess]
      · simp [PosixProcess.stop, hnone]
      · omega
      · dsimp only
        omega
    · cases hstep
  | poll reaped =>
    simp only [step] at hstep
    split at hstep
    · rename_i process hphase hprocess
      simp only [Supervised, hphase] at h
      split at hstep
      · split at hstep
        · cases hstep
        · rename_i hchild
          cases hstep
          have stopped : ¬ (process.killDue now).child = .running := hchild
          exact ⟨by simp [Supervised, childRunning, stopped], past⟩
      · cases hstep
        refine ⟨fun running => ?_, past⟩
        simp only [childRunning, Option.any_some, decide_eq_true_eq] at running
        obtain ⟨same, due⟩ := killDue_running running
        rw [same] at running
        have hbefore : r.childRunning := by simp [childRunning, hprocess, running]
        rcases h hbefore with ⟨calm, early⟩ | stopping
        · refine .inl ⟨⟨calm.1, ?_⟩, early⟩
          rw [same, ← hprocess]
          exact calm.2
        · obtain ⟨hreason, p, killAt, until_, hp, hkill, hcovers, hlimit, _⟩ := stopping
          rw [hprocess, Option.some.injEq] at hp
          subst hp
          have hdue := due killAt hkill
          refine .inr ⟨hreason, process, killAt, until_, by simp [same], hkill, hcovers, hlimit, ?_⟩
          dsimp only
          omega
    · cases hstep
  | childExit =>
    simp only [step] at hstep
    split at hstep
    · rename_i process hprocess
      split at hstep
      · cases hstep
        refine ⟨?_, past⟩
        unfold Supervised at h ⊢
        split at h <;> simp_all [childRunning]
      · cases hstep
    · cases hstep
  | unwind =>
    simp only [step] at hstep
    split at hstep
    · cases hstep
    · cases hstep
      exact ⟨close_supervised, past⟩
  | finish =>
    simp only [step] at hstep
    split at hstep
    · cases hstep
      exact ⟨close_supervised, past⟩
    · cases hstep

/-- A running child is less than two seconds beyond a covered bound. -/
theorem Supervised.bound {now : Int} (h : r.Supervised covers grace) (hgrace : 1 ≤ grace)
    (prompt : r.supervises → now ≤ r.iteration + 500000) (running : r.childRunning) :
    ∃ until_, covers until_ ∧ now < until_ * 1000 + 2000000 := by
  have far : 1000000 ≤ seconds grace := by
    simp only [seconds]
    omega
  have early : ∀ slack, slack ≤ 500000 → r.supervises → r.Early covers grace slack →
      ∃ until_, covers until_ ∧ now < until_ * 1000 + 2000000 := by
    rintro slack hslack hphase ⟨until_, hcovers, hbound⟩
    have late := prompt hphase
    exact ⟨until_, hcovers, by omega⟩
  have stopping : ∀ slack, slack ≤ 500000 → r.supervises → r.Stopping covers slack →
      ∃ until_, covers until_ ∧ now < until_ * 1000 + 2000000 := by
    rintro slack hslack hphase ⟨_, _, killAt, until_, _, _, hcovers, hlimit, hbound⟩
    have late := prompt hphase
    exact ⟨until_, hcovers, by omega⟩
  have idle : r.process = none → False := by
    intro hnone
    simp [childRunning, hnone] at running
  cases hphase : r.phase with
  | idle | starting | preparing | prechecking | spawning =>
    simp only [Supervised, hphase] at h
    exact (idle h.1).elim
  | looping at_ =>
    have supervises : r.supervises := by simp [Runner.supervises, hphase]
    cases at_ with
    | top =>
      simp only [Supervised, hphase] at h
      rcases h running with ⟨_, hearly⟩ | hstopping
      · exact early 0 (by decide) supervises hearly
      · exact stopping 0 (by decide) supervises hstopping
    | asking | leasing | timing =>
      simp only [Supervised, hphase] at h
      exact early _ (by decide) supervises (h running).2
    | comparing | stopping =>
      simp only [Supervised, hphase] at h
      obtain ⟨_, hsecond, hthird⟩ := h running
      first
        | exact early _ (by decide) supervises hsecond
        | exact early _ (by decide) supervises hthird
    | polling =>
      simp only [Supervised, hphase] at h
      rcases h running with ⟨_, hearly⟩ | hstopping
      · exact early 0 (by decide) supervises hearly
      · exact stopping _ (le_refl _) supervises hstopping
  | finishing | ended =>
    simp only [Supervised, hphase] at h
    rw [h] at running
    cases running

end Runner

namespace LeaseSetup

variable {c : LeaseSetup} {s s' : State}

/-- Along a run whose iterations are prompt, the loop keeps its bounds. -/
theorem supervised_prompt (run : c.system.Leads (fun s e => c.prompt s e) c.system.init s) :
    s.runner.Supervised (c.Covers s) c.store.timing.terminationSeconds ∧
      s.runner.iteration ≤ max 0 (s.now + c.offset) := by
  obtain ⟨setting, hloaded⟩ := c.loaded
  have valid := loadTiming_valid hloaded
  refine System.Leads.stable System.reachable_init run (P := fun s =>
    s.runner.Supervised (c.Covers s) c.store.timing.terminationSeconds ∧
      s.runner.iteration ≤ max 0 (s.now + c.offset)) ⟨⟨rfl, rfl⟩, le_max_left _ _⟩ ?_
  rintro s e s' hs ⟨supervised, past⟩ prompt hstep
  have covers : ∀ u, c.Covers s u → c.Covers s' u := fun u => covers_step hs hstep
  obtain ⟨hclock, hact⟩ := step_eq hstep
  have later : s.runner.iteration ≤ max 0 (e.now + c.offset) := by omega
  have unchanged : s'.now = e.now → (∃ lease, s'.runner = { s.runner with lease := lease }) →
      s'.runner.Supervised (c.Covers s') c.store.timing.terminationSeconds ∧
        s'.runner.iteration ≤ max 0 (s'.now + c.offset) := by
    rintro hnow ⟨lease, hrunner⟩
    rw [hnow, hrunner]
    have same : Runner.Supervised (c.Covers s) c.store.timing.terminationSeconds
        { s.runner with lease := lease } := supervised
    exact ⟨same.mono covers, later⟩
  cases hcase : e.act with
  | other | executeStart =>
    simp only [hcase, LeaseSetup.act] at hact
    split at hact
    · cases hact
    · cases hact
      exact unchanged rfl ⟨_, rfl⟩
  | executeHeartbeat =>
    simp only [hcase, LeaseSetup.act] at hact
    split at hact
    · cases hact
      exact unchanged rfl ⟨_, rfl⟩
    · cases hact
  | wake | heartbeatReply | heartbeatFailed =>
    simp only [hcase, LeaseSetup.act, Option.bind_eq_bind, Option.bind_eq_some_iff,
      Option.pure_def, Option.some.injEq] at hact
    obtain ⟨_, _, _, _, rfl⟩ := hact
    exact unchanged rfl ⟨_, rfl⟩
  | main act =>
    simp only [hcase, LeaseSetup.act, Option.ite_none_right_eq_some, Option.bind_eq_bind,
      Option.bind_eq_some_iff, Option.pure_def, Option.some.injEq] at hact
    obtain ⟨steady, runner, hmain, rfl⟩ := hact
    simp only [LeaseSetup.prompt, decide_eq_true_eq] at prompt
    have past : s.runner.iteration ≤ e.now + c.offset := later.trans (max_le steady (le_refl _))
    obtain ⟨supervised', past'⟩ := Runner.step_supervised supervised valid.termination past prompt
      (sound_reachable hs).guarded hmain
    exact ⟨supervised', past'.trans (le_max_right _ _)⟩

/-- A covered bound is two seconds before the lease's end. -/
theorem Covers.lease {until_ : Int} (covers : c.Covers s until_) :
    ∃ a, s.store.db.attempt? c.id = some a ∧ (a.status ≠ .cancelled →
      ∃ lease, a.leaseUntil = some lease ∧ until_ * 1000 ≤ lease + c.offset - seconds 2) := by
  obtain ⟨t, ⟨_, _, a, found, hlease⟩, hbound⟩ := covers
  refine ⟨a, found, fun active => ?_⟩
  rcases hlease with hcancelled | ⟨lease, hlease, hfloor⟩
  · exact absurd hcancelled active
  · refine ⟨lease, hlease, ?_⟩
    simp only [seconds] at *
    omega

end LeaseSetup

/-- Recovery does not declare a valid lease expired. -/
theorem recover_leaseValid {p : PostgresStore} {db : Db} {now : Int} {id : String}
    {a a' : AttemptRow} (wf : db.toLedger.WellFormed) (found : db.attempt? id = some a)
    (valid : a.leaseValid now)
    (found' : (p.commit now (.recoverAttempt id) db).attempt? id = some a')
    (expired : a'.reason = some "LEASE_EXPIRED") : a.reason = some "LEASE_EXPIRED" := by
  have effect : Effect p now db.toLedger (.recoverAttempt id) _ := PostgresStore.commit_effect wf
  generalize (p.commit now (.recoverAttempt id) db).toLedger = l' at effect found'
  have kept : l'.attempts = db.attempts → a.reason = some "LEASE_EXPIRED" := by
    intro hattempts
    rw [Journal.attempt?, hattempts] at found'
    have same : a = a' := Option.some.inj (found.symm.trans found')
    rw [same]
    exact expired
  cases effect with
  | same | submitted | marked | discovered => exact kept rfl
  | @moved _ _ _ b _ _ attempt _ move =>
    cases move with
    | @failed _ _ reason exitCode _ _ _ cause _ _ =>
      have hid : id = b.id := by
        cases cause <;> rfl
      subst hid
      have lookup : Table.lookup (·.id) (b.fail now reason exitCode).id
          (Table.replace (·.id) (b.fail now reason exitCode) db.attempts) =
            some (b.fail now reason exitCode) := Table.lookup_replace_self attempt
      have failed : a' = b.fail now reason exitCode :=
        Option.some.inj (found'.symm.trans lookup)
      rw [failed, AttemptRow.fail_reason, Option.some.injEq] at expired
      cases cause with
      | launchTimeout | timeout | finalizationTimeout => simp at expired
      | leaseExpired _ late =>
        have same : a = b := Option.some.inj (found.symm.trans attempt)
        exact absurd (same ▸ valid) late

namespace LeaseSetup

/-- The lease guard stays two seconds behind the server's lease, and with prompt iterations
the child is gone before the lease ends. -/
theorem lease_guard_conservative (c : LeaseSetup) :
    (∀ s, c.system.Reachable s → ∀ lease, s.runner.lease = some lease →
      ∃ a, s.store.db.attempt? c.id = some a ∧ (a.status ≠ .cancelled →
        ∃ t, a.leaseUntil = some t ∧ lease.until_ * 1000 ≤ t + c.offset - seconds 2)) ∧
    (∀ s, c.system.Leads (fun s e => c.prompt s e) c.system.init s → s.runner.childRunning →
      ∃ a, s.store.db.attempt? c.id = some a ∧ (a.status ≠ .cancelled →
        (∃ t, a.leaseUntil = some t ∧ ∀ e, c.prompt s e → e.now < t) ∧
        ∀ e, c.prompt s e → ∀ a',
          (c.store.commit e.now (.recoverAttempt c.id) s.store.db).attempt? c.id = some a' →
          a'.reason = some "LEASE_EXPIRED" → a.reason = some "LEASE_EXPIRED")) := by
  constructor
  · intro s hs lease hlease
    exact ((sound_reachable hs).guarded lease hlease).lease
  · intro s run running
    obtain ⟨setting, hloaded⟩ := c.loaded
    have valid := loadTiming_valid hloaded
    have wf := PostgresStore.reachable_wellFormed (sound_reachable run.later).reachable
    obtain ⟨supervised, _⟩ := supervised_prompt run
    have before : ∀ e, c.prompt s e → ∃ a, s.store.db.attempt? c.id = some a ∧
        (a.status ≠ .cancelled → ∃ t, a.leaseUntil = some t ∧ e.now < t) := by
      intro e prompt
      simp only [LeaseSetup.prompt, decide_eq_true_eq] at prompt
      obtain ⟨until_, hcovers, hbound⟩ := supervised.bound valid.termination prompt running
      obtain ⟨a, found, hlease⟩ := hcovers.lease
      refine ⟨a, found, fun active => ?_⟩
      obtain ⟨t, ht, hle⟩ := hlease active
      refine ⟨t, ht, ?_⟩
      simp only [seconds] at hle
      omega
    -- Some event is always prompt: one at the moment when the iteration began.
    obtain ⟨a, found, hlease⟩ := before ⟨s.runner.iteration - c.offset, .wake⟩ (by
      simp only [LeaseSetup.prompt, decide_eq_true_eq]
      omega)
    refine ⟨a, found, fun active => ?_⟩
    obtain ⟨t, ht, _⟩ := hlease active
    have every : ∀ e, c.prompt s e → e.now < t := by
      intro e prompt
      obtain ⟨b, found', hlease'⟩ := before e prompt
      have same : a = b := Option.some.inj (found.symm.trans found')
      obtain ⟨t', ht', hlt⟩ := hlease' (same ▸ active)
      rw [← same, ht, Option.some.injEq] at ht'
      omega
    refine ⟨⟨t, ht, every⟩, fun e prompt a' found' expired => ?_⟩
    have leaseValid : a.leaseValid e.now := by
      simp [AttemptRow.leaseValid, ht, every e prompt]
    exact recover_leaseValid wf found leaseValid found' expired

end LeaseSetup

namespace Sample

def runner : LeaseSetup :=
  ⟨store, attemptId.text, 1, "runner", "", -4, fun _ => none, by decide⟩

/-- A host that was started after the attempt was assigned. The runner starts its child, is asked
to stop and sends SIGTERM. -/
def supervision : List LeaseSetup.Event :=
  [⟨1, .other (.submit runId spec "key" "fingerprint")⟩,
    ⟨2, .other (.registerWorker "worker" "session" ⟨4000, 4096⟩ {})⟩,
    ⟨3, .other (.assign attemptId [] "worker" "session")⟩,
    ⟨4, .main .call⟩, ⟨5, .executeStart⟩, ⟨6, .main .startReply⟩,
    ⟨7, .main .readBeforeLaunch⟩, ⟨8, .main .checkBeforeLaunch⟩, ⟨9, .main .spawn⟩,
    ⟨10, .main .iterate⟩, ⟨11, .main (.ask true)⟩, ⟨12, .main .stop⟩, ⟨13, .main (.poll false)⟩]

end Sample

open Sample in
theorem LeaseSetup.lease_guard_conservative_stopping : ∃ s,
    runner.system.Leads (fun s e => runner.prompt s e) runner.system.init s ∧
    s.runner.reason = "STOP_REQUESTED" ∧ s.runner.childRunning ∧
    ∃ a t, s.store.db.attempt? runner.id = some a ∧ a.leaseUntil = some t ∧
      ∀ e, runner.prompt s e → e.now < t := by
  have stopping : (runner.system.replay runner.prompt runner.system.init supervision).any
      (fun s => s.runner.reason = "STOP_REQUESTED" && s.runner.childRunning &&
        (s.store.db.attempt? runner.id).all fun a => a.status = .running) := by
    decide +kernel
  obtain ⟨s, hs, hstate⟩ := (Option.any_eq_true _ _).mp stopping
  simp only [Bool.and_eq_true, decide_eq_true_eq] at hstate
  obtain ⟨⟨hreason, running⟩, hstatus⟩ := hstate
  obtain ⟨a, found, hlease⟩ :=
    (lease_guard_conservative runner).2 s (System.replay_leads hs) running
  rw [found] at hstatus
  have active : a.status ≠ .cancelled := by
    intro hcancelled
    simp [hcancelled] at hstatus
  obtain ⟨⟨t, ht, before⟩, _⟩ := hlease active
  exact ⟨s, System.replay_leads hs, hreason, running, a, t, found, ht, before⟩

end Runyard
