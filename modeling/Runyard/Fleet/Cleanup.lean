import Runyard.Capacity.Gpus
import Runyard.Fleet.Removal

/-!
# Cleanup that is done

A container that was removed for cleanup stays away as long as no agent process still has
the attempt to launch. The coordinator does not make sure of that: it fences the calls of a
superseded agent, but not what that agent does with a reply it already has.
-/

namespace Runyard

/-- The agent has still to launch the attempt. -/
def Agent.holds (a : Agent) (id : String) : Bool := a.phase.work.any fun x => x.attempt.id = id

namespace Fleet

variable {c : Fleet} {s s' : State} {now : Int} {op : Op} {act : Act} {id : String}

/-- No agent has the attempt still to launch when its container is removed for cleanup. -/
def settled (s : State) : Act → Bool
  | .agent i .clean =>
    (removal s (.agent i .clean)).all fun id => s.agents.all fun a => !a.holds id
  | _ => true

/-- The attempt is over and its container will not come back. -/
structure Gone (s : State) (id : String) : Prop where
  retired : s.store.db.Retired id
  containers : ∀ x ∈ s.containers, x.attempt ≠ id
  agents : ∀ a ∈ s.agents, ¬ a.holds id

/-! ## What one step does -/

/-- The reports, the phases and the containers that one step adds, and what it commits. -/
structure Moves (c : Fleet) (s : State) (act : Act) (s' : State) : Prop where
  store : s'.store = s.store ∨ ∃ now op, s.store.clock ≤ now ∧
    s'.store = ⟨c.store.commit now op s.store.db, now⟩ ∧
    ∀ worker session id runtime, op = .runtimeReport worker session id runtime true →
      ∃ r ∈ s.reports, r.stopped ∧ r.attempt = id
  containers : ∀ x ∈ s'.containers, x ∈ s.containers ∨ ∃ a ∈ s.agents, a.holds x.attempt
  holds : ∀ id, ∀ a' ∈ s'.agents, a'.holds id → (∃ a ∈ s.agents, a.holds id) ∨
    ∃ row ∈ s'.store.db.attempts, row.id = id ∧ row.status.live
  removed : ∀ a' ∈ s'.agents, ∀ id rest work, a'.phase = .removed id rest work →
    (∃ a ∈ s.agents, a.phase = .removed id rest work) ∨
    (∃ i, act = .agent i .clean ∧ removal s act = some id) ∧ s.store.db.Retired id ∧
      ∀ x ∈ s'.containers, x.attempt ≠ id
  reports : ∀ r ∈ s'.reports, r ∈ s.reports ∨
    (r.stopped → ∃ a ∈ s.agents, ∃ rest work, a.phase = .removed r.attempt rest work)

/-- A step that leaves the agents and the reports alone and adds no container. -/
theorem Moves.frame (store : s'.store = s.store ∨ ∃ now op, s.store.clock ≤ now ∧
      s'.store = ⟨c.store.commit now op s.store.db, now⟩ ∧
      ∀ worker session id runtime, op = .runtimeReport worker session id runtime true →
        ∃ r ∈ s.reports, r.stopped ∧ r.attempt = id)
    (containers : s'.containers ⊆ s.containers) (agents : s'.agents = s.agents)
    (reports : s'.reports = s.reports) : Moves c s act s' := by
  constructor
  · exact store
  · exact fun x hx => .inl (containers hx)
  · intro id a ha holds
    rw [agents] at ha
    exact .inl ⟨a, ha, holds⟩
  · intro a ha id rest work hphase
    rw [agents] at ha
    exact .inl ⟨a, ha, hphase⟩
  · intro r hr
    rw [reports] at hr
    exact .inl hr

theorem transact_moves {s₀ : State} (h : c.transact now op s₀ = some s')
    (same : s₀.store = s.store ∧ s₀.containers = s.containers ∧ s₀.agents = s.agents ∧
      s₀.reports = s.reports)
    (asked : ∀ worker session id runtime, op = .runtimeReport worker session id runtime true →
      ∃ r ∈ s.reports, r.stopped ∧ r.attempt = id) : Moves c s act s' := by
  obtain ⟨hclock, _, rfl⟩ := transact_ok h
  obtain ⟨store, containers, agents, reports⟩ := same
  refine .frame (.inr ⟨now, op, ?_, ?_, asked⟩) ?_ agents reports
  · rw [← store]
    exact hclock
  · rw [← store]
  · rw [← containers]
    exact List.Subset.refl _

theorem controllerStep_moves {act : ControllerAct} (h : c.controllerStep s act = some s') :
    Moves c s (.controller act) s' := by
  have still : ∀ phase requested, Moves c s (.controller act)
      { s with controller := phase, requested := requested } :=
    fun _ _ => .frame (.inl rfl) (List.Subset.refl _) rfl rfl
  cases act with
  | write now =>
    rw [Fleet.controllerStep] at h
    split at h
    · exact transact_moves h ⟨rfl, rfl, rfl, rfl⟩ (by rintro _ _ _ _ ⟨⟩)
    · exact transact_moves h ⟨rfl, rfl, rfl, rfl⟩ (by rintro _ _ _ _ ⟨⟩)
    · exact transact_moves h ⟨rfl, rfl, rfl, rfl⟩ (by rintro _ _ _ _ ⟨⟩)
    · exact transact_moves h ⟨rfl, rfl, rfl, rfl⟩ (by rintro _ _ _ _ ⟨⟩)
    · cases h
  | admitNext now attempt locked =>
    rw [Fleet.controllerStep] at h
    split at h
    · obtain ⟨s₁, htransact, hreturn⟩ := Option.bind_eq_some_iff.mp h
      cases hreturn
      obtain ⟨hclock, _, rfl⟩ := transact_ok htransact
      refine .frame (.inr ⟨now, _, hclock, rfl, ?_⟩) (List.Subset.refl _) rfl rfl
      rintro _ _ _ _ ⟨⟩
    · cases h
  | snapshot | inventory | sweep | next | remove | ensure | probe | fail | restart =>
    -- The controller moves on, and may request a Job.
    simp only [Fleet.controllerStep] at h
    repeat' split at h
    all_goals first | (cases h; exact still _ _) | cases h

/-- A step of the agent `a` to the phase `phase`. -/
theorem Moves.agent {i : Nat} {a : Agent} {act : AgentAct} {phase : AgentPhase}
    (ha : a ∈ s.agents)
    (store : s'.store = s.store ∨ ∃ now op, s.store.clock ≤ now ∧
      s'.store = ⟨c.store.commit now op s.store.db, now⟩ ∧
      ∀ worker session id runtime, op ≠ .runtimeReport worker session id runtime true)
    (containers : ∀ x ∈ s'.containers, x ∈ s.containers ∨ a.holds x.attempt)
    (work : ∀ x ∈ phase.work, x ∈ a.phase.work ∨
      ∃ row ∈ s'.store.db.attempts, row.id = x.attempt.id ∧ row.status.live)
    (removed : ∀ id rest work, phase = .removed id rest work →
      removal s (.agent i .clean) = some id ∧ act = .clean ∧ s.store.db.Retired id ∧
        ∀ x ∈ s'.containers, x.attempt ≠ id)
    (reports : ∀ r ∈ s'.reports, r ∈ s.reports ∨
      (r.stopped → ∃ rest work, a.phase = .removed r.attempt rest work)) :
    Moves c s (.agent i act) { s' with agents := s.agents.set i { a with phase := phase } } := by
  constructor
  · rcases store with same | ⟨now, op, hclock, same, other⟩
    · exact .inl same
    · refine .inr ⟨now, op, hclock, same, ?_⟩
      exact fun worker session id runtime hop => absurd hop (other worker session id runtime)
  · intro x hx
    rcases containers x hx with hx | holds
    · exact .inl hx
    · exact .inr ⟨a, ha, holds⟩
  · intro id b hb holds
    rcases List.mem_or_eq_of_mem_set hb with hb | rfl
    · exact .inl ⟨b, hb, holds⟩
    · obtain ⟨x, hx, hid⟩ := (Option.any_eq_true _ _).mp holds
      rcases work x hx with hx | ⟨row, hrow, hsame, live⟩
      · exact .inl ⟨a, ha, (Option.any_eq_true _ _).mpr ⟨x, hx, hid⟩⟩
      · exact .inr ⟨row, hrow, hsame.trans (of_decide_eq_true hid), live⟩
  · intro b hb id rest work hphase
    rcases List.mem_or_eq_of_mem_set hb with hb | rfl
    · exact .inl ⟨b, hb, hphase⟩
    · obtain ⟨removes, hact, hnew⟩ := removed id rest work hphase
      subst hact
      exact .inr ⟨⟨i, rfl, removes⟩, hnew⟩
  · intro r hr
    rcases reports r hr with hold | hnew
    · exact .inl hold
    · exact .inr fun hstopped => ⟨a, ha, hnew hstopped⟩

theorem agentMove_moves (sound : c.Sound s) {i : Nat} {a : Agent} (hi : s.agents[i]? = some a)
    {act : AgentAct} {phase : AgentPhase} (move : AgentMove c s a act s' phase) :
    Moves c s (.agent i act) { s' with agents := s.agents.set i { a with phase := phase } } := by
  have ha : a ∈ s.agents := List.mem_of_getElem? hi
  have kept : ∀ x ∈ s.containers, x ∈ s.containers ∨ a.holds x.attempt := fun x hx => .inl hx
  have filtered : ∀ id, ∀ x ∈ (removeContainer a.worker id s).containers,
      x ∈ s.containers ∨ a.holds x.attempt :=
    fun id x hx => .inl (List.mem_of_mem_filter hx)
  have old : ∀ r ∈ s.reports, r ∈ s.reports ∨
      (r.stopped → ∃ rest work, a.phase = .removed r.attempt rest work) := fun r hr => .inl hr
  cases move with
  | observed _ | decided _ _ | listed _ | rested | ended =>
    exact .agent ha (.inl rfl) kept (by rintro x ⟨⟩) (by rintro _ _ _ ⟨⟩) old
  | stopped hphase =>
    exact .agent ha (.inl rfl) (filtered _) (by rintro x ⟨⟩) (by rintro _ _ _ ⟨⟩) old
  | @assigned now _ _ _ db' work _ hphase reply committed =>
    have hdb := transact_db committed (Result.map_ok.mpr ⟨_, reply, rfl⟩)
    obtain ⟨hclock, _, rfl⟩ := transact_ok committed
    refine .agent ha (.inr ⟨now, _, hclock, rfl, ?_⟩) kept ?_ (by rintro _ _ _ ⟨⟩) old
    · rintro _ _ _ _ ⟨⟩
    · intro x hx
      have hwork : work = some x := hx
      rw [hwork] at reply
      dsimp only at hdb ⊢
      rw [hdb]
      exact .inr (assign_work (seated_reachable sound.reachable) reply).1
  | @cleaned id rest work hphase =>
    have hcleans := (sound.agents a ha).cleans id (by rw [hphase]; exact List.mem_cons_self)
    refine .agent ha (.inl rfl) (filtered id) ?_ ?_ old
    · intro x hx
      rw [hphase]
      exact .inl hx
    · rintro _ _ _ ⟨⟩
      refine ⟨?_, rfl, hcleans.2, ?_⟩
      · simp [removal, hi, hphase, AgentPhase.removal]
      · -- Every container of the attempt is on the worker that it was placed on.
        intro x hx hattempt
        obtain ⟨hmem, hother⟩ := List.mem_filter.mp hx
        obtain ⟨⟨b, hb, hbid, hbworker⟩, _, _⟩ := sound.containers x hmem
        obtain ⟨⟨d, hd, hdid, hdworker⟩, _⟩ := hcleans
        have wf := PostgresStore.reachable_wellFormed sound.reachable
        have same : b = d := wf.attempts.eq hb hd (by rw [hbid, hdid, hattempt])
        have hworker : x.worker = a.worker := by rw [← hbworker, same, hdworker]
        simp [hworker, hattempt] at hother
  | @reported id rest work hphase =>
    refine .agent ha (.inl rfl) kept ?_ (by rintro _ _ _ ⟨⟩) ?_
    · intro x hx
      rw [hphase]
      exact .inl hx
    · intro r hr
      rcases List.mem_append.mp hr with hr | hr
      · exact .inl hr
      · rw [List.mem_singleton.mp hr]
        exact .inr fun _ => ⟨rest, work, hphase⟩
  | acknowledged hphase =>
    refine .agent ha (.inl rfl) kept (by rintro x ⟨⟩) (by rintro _ _ _ ⟨⟩) ?_
    intro r hr
    rcases List.mem_append.mp hr with hr | hr
    · exact .inl hr
    · rw [List.mem_singleton.mp hr]
      exact .inr fun hstopped => by cases hstopped
  | replied hphase _ =>
    refine .agent ha (.inl rfl) kept ?_ (by rintro _ _ _ ⟨⟩) old
    intro x hx
    rw [hphase]
    exact .inl hx
  | @ensured work _ hphase =>
    have hreports : (ensureContainer a.worker work s).reports = s.reports := by
      unfold ensureContainer
      split
      · rfl
      · rfl
    refine .agent ha (.inl ensureContainer_store) ?_ (by rintro x ⟨⟩)
      (by rintro _ _ _ ⟨⟩) ?_
    · intro x hx
      unfold ensureContainer at hx
      split at hx
      · exact .inl hx
      · rcases List.mem_append.mp hx with hx | hx
        · exact .inl hx
        · rw [List.mem_singleton.mp hx]
          refine .inr ?_
          simp [Agent.holds, hphase, AgentPhase.work]
    · rw [hreports]
      exact old

theorem step_moves (sound : c.Sound s) (h : c.system.step s act = some s') : Moves c s act s' := by
  have hstep : c.step s act = some s' := h
  cases act with
  | other now op =>
    rw [Fleet.step] at hstep
    split at hstep
    · cases hstep
    · rename_i hop
      refine transact_moves hstep ⟨rfl, rfl, rfl, rfl⟩ ?_
      rintro worker session id runtime rfl
      exact absurd rfl hop
  | register now worker session capacity gpu =>
    rw [Fleet.step] at hstep
    split at hstep
    swap
    · cases hstep
    obtain ⟨hclock, _, rfl⟩ := transact_ok hstep
    constructor
    · refine .inr ⟨now, _, hclock, rfl, ?_⟩
      rintro _ _ _ _ ⟨⟩
    · exact fun x hx => .inl hx
    · intro id a ha holds
      rcases List.mem_append.mp ha with ha | ha
      · exact .inl ⟨a, ha, holds⟩
      · rw [List.mem_singleton.mp ha] at holds
        cases holds
    · intro a ha id rest work hphase
      rcases List.mem_append.mp ha with ha | ha
      · exact .inl ⟨a, ha, hphase⟩
      · rw [List.mem_singleton.mp ha] at hphase
        cases hphase
    · exact fun r hr => .inl hr
  | agent i act =>
    obtain ⟨a, hi, hstep⟩ := Option.bind_eq_some_iff.mp hstep
    obtain ⟨⟨s₁, phase⟩, hagent, hreturn⟩ := Option.bind_eq_some_iff.mp hstep
    cases hreturn
    exact agentMove_moves sound hi (agentStep_move hagent)
  | execute now call =>
    obtain ⟨r, hcall, hstep⟩ := Option.bind_eq_some_iff.mp hstep
    refine transact_moves hstep ⟨rfl, rfl, rfl, rfl⟩ ?_
    intro worker session id runtime hop
    simp only [RuntimeReport.op, Op.runtimeReport.injEq] at hop
    obtain ⟨_, _, hattempt, _, hstopped⟩ := hop
    exact ⟨r, List.mem_of_getElem? hcall, hstopped, hattempt⟩
  | vanish worker id =>
    rw [Fleet.step] at hstep
    cases hstep
    exact .frame (.inl rfl) (List.filter_subset_self _) rfl rfl
  | controller act => exact controllerStep_moves hstep

/-! ## What is gone stays gone -/

theorem Gone.moves (gone : Gone s id) (sound : c.Sound s) (sound' : c.Sound s')
    (moves : Moves c s act s') (later : c.store.system.Later s.store s'.store) : Gone s' id := by
  have retired := retired_later sound.reachable later gone.retired
  constructor
  · exact retired
  · rintro x hx rfl
    rcases moves.containers x hx with hx | ⟨a, ha, holds⟩
    · exact gone.containers x hx rfl
    · exact gone.agents a ha holds
  · intro a' ha' holds
    rcases moves.holds id a' ha' holds with ⟨a, ha, holds⟩ | ⟨row, hrow, hid, live⟩
    · exact gone.agents a ha holds
    · exact retired_not_live sound'.reachable retired row hrow hid live

structure Cleared (c : Fleet) (s : State) : Prop where
  sound : c.Sound s
  removed : ∀ a ∈ s.agents, ∀ id rest work, a.phase = .removed id rest work → Gone s id
  reports : ∀ r ∈ s.reports, r.stopped → Gone s r.attempt
  done : ∀ a ∈ s.store.db.attempts, a.cleanupStatus = .done → a.workerId ≠ kubernetesWorker →
    Gone s a.id

theorem moves_later (moves : Moves c s act s') : c.store.system.Later s.store s'.store := by
  rcases moves.store with same | ⟨now, op, hclock, same, _⟩
  · rw [same]
    exact .refl
  · rw [same]
    exact System.Leads.single (e := ⟨now, op⟩) trivial (if_pos hclock)

/-- What one settled step keeps. -/
theorem Cleared.step (cleared : c.Cleared s) (ok : settled s act)
    (h : c.system.step s act = some s') : c.Cleared s' := by
  have sound := cleared.sound
  have sound' := sound.step h
  have moves := step_moves sound h
  have later := moves_later moves
  have stays : ∀ id, Gone s id → Gone s' id := fun id gone => gone.moves sound sound' moves later
  refine ⟨sound', ?_, ?_, ?_⟩
  · intro a' ha' id rest work hphase
    rcases moves.removed a' ha' id rest work hphase with ⟨a, ha, hold⟩ | ⟨⟨i, hact, removes⟩, hnew⟩
    · exact stays id (cleared.removed a ha id rest work hold)
    · -- The container was just removed, and no agent had the attempt to launch.
      obtain ⟨retired, containers⟩ := hnew
      subst hact
      have retired' := retired_later sound.reachable later retired
      have unheld : ∀ a ∈ s.agents, ¬ a.holds id := by
        simpa [settled, removes] using ok
      refine ⟨retired', containers, ?_⟩
      intro b' hb' holds
      rcases moves.holds id b' hb' holds with ⟨b, hb, holds⟩ | ⟨row, hrow, hid, live⟩
      · exact unheld b hb holds
      · exact retired_not_live sound'.reachable retired' row hrow hid live
  · intro r hr hstopped
    rcases moves.reports r hr with hold | hnew
    · exact stays r.attempt (cleared.reports r hold hstopped)
    · obtain ⟨a, ha, rest, work, hphase⟩ := hnew hstopped
      exact stays r.attempt (cleared.removed a ha r.attempt rest work hphase)
  · intro a' ha' done docker
    rcases moves.store with same | ⟨now, op, hclock, same, asked⟩
    · rw [same] at ha'
      exact stays a'.id (cleared.done a' ha' done docker)
    -- The row was done before, or its report was executed just now.
    have wf := PostgresStore.reachable_wellFormed sound.reachable
    have wf' := PostgresStore.reachable_wellFormed sound'.reachable
    have effect : Effect c.store now s.store.db.toLedger op s'.store.db.toLedger := by
      rw [same]
      exact PostgresStore.commit_effect wf
    rcases effect.attempts_from wf a' ha' with ⟨a, ha, hid⟩ | ⟨_, pending⟩
    swap
    · simp [done] at pending
    obtain ⟨b, hb, evolved⟩ := attempt_later sound.reachable later a ha
    have hsame : a' = b := wf'.attempts.eq ha' hb (hid.symm.trans evolved.identity.id.symm)
    have hworker : a'.workerId = a.workerId := by
      rw [hsame]
      exact evolved.identity.workerId
    rw [hworker] at docker
    rw [← hid]
    refine stays a.id ?_
    cases hcleanup : a.cleanupStatus with
    | done => exact cleared.done a ha hcleanup docker
    | pending =>
      obtain ⟨_, ⟨session, runtime, hop⟩ | ⟨hkubernetes, _⟩⟩ :=
        effect.leaves wf ha hcleanup ha' hid.symm (by simp [done])
      · obtain ⟨r, hr, hstopped, hattempt⟩ := asked _ _ _ _ hop
        rw [← hattempt]
        exact cleared.reports r hr hstopped
      · exact absurd hkubernetes docker

/-! ## Runs of settled steps -/

theorem cleared_init : c.Cleared c.system.init := by
  refine ⟨sound_init, ?_, ?_, ?_⟩
  · intro a ha
    cases ha
  · intro r hr
    cases hr
  · intro a ha
    cases ha

theorem Cleared.run (cleared : c.Cleared s)
    (run : c.system.Leads (fun s act => settled s act) s s') : c.Cleared s' :=
  run.invariant cleared fun _ _ _ cleared ok h => cleared.step ok h

/-- An attempt whose cleanup is done has no container. -/
theorem Cleared.no_container (cleared : c.Cleared s) {a : AttemptRow}
    (ha : a ∈ s.store.db.attempts) (done : a.cleanupStatus = .done) :
    ∀ x ∈ s.containers, x.attempt ≠ a.id := by
  intro x hx hattempt
  have wf := PostgresStore.reachable_wellFormed cleared.sound.reachable
  obtain ⟨⟨b, hb, hbid, hbworker⟩, docker, _⟩ := cleared.sound.containers x hx
  have same : b = a := wf.attempts.eq hb ha (hbid.trans hattempt)
  rw [← hbworker, same] at docker
  exact (cleared.done a ha done docker).containers x hx hattempt

/-- Cleanup is final in every run in which each removal for cleanup finds the attempt settled:
an attempt that is done never has a container again, and what containers use is reserved. -/
theorem cleanup_done_final (c : Fleet) {s : State}
    (run : c.system.Leads (fun s act => settled s act) c.system.init s) :
    (∀ a ∈ s.store.db.attempts, a.cleanupStatus = .done →
      ∀ s', c.system.Leads (fun s act => settled s act) s s' →
        ∀ x ∈ s'.containers, x.attempt ≠ a.id) ∧
    ∀ x ∈ s.containers, ∃ a ∈ s.store.db.attempts, a.id = x.attempt ∧ a.workerId = x.worker ∧
      a.cleanupStatus = .pending ∧ ∀ uuid ∈ x.devices, ∃ g ∈ s.store.db.attemptGpus,
        g.attemptId = a.id ∧ g.uuid = uuid ∧ g.releasedAt = none := by
  have cleared : c.Cleared s := cleared_init.run run
  constructor
  · intro a ha done s' onward
    have cleared' := cleared.run onward
    have later : c.store.system.Later s.store s'.store := by
      refine onward.relation run.later (R := fun s s' => c.store.system.Later s.store s'.store)
        ?_ ?_ ?_
      · exact fun _ => .refl
      · exact fun _ _ _ first second => first.trans second
      · exact fun _ _ _ hs _ h => moves_later (step_moves (sound_reachable hs) h)
    obtain ⟨a', ha', evolved⟩ := attempt_later cleared.sound.reachable later a ha
    rw [← evolved.identity.id]
    exact cleared'.no_container ha' (evolved.cleaned done)
  · intro x hx
    obtain ⟨⟨a, ha, hid, hworker⟩, _, reserved⟩ := cleared.sound.containers x hx
    have pending : a.cleanupStatus = .pending := by
      cases hcleanup : a.cleanupStatus with
      | pending => rfl
      | done => exact absurd hid.symm (cleared.no_container ha hcleanup x hx)
    refine ⟨a, ha, hid, hworker, pending, fun uuid huuid => ?_⟩
    obtain ⟨g, hg, hattempt, hsame⟩ := reserved uuid huuid
    refine ⟨g, hg, hattempt.trans hid.symm, hsame, ?_⟩
    obtain ⟨b, hb, hbid, _, held⟩ := (gpuSafe_reachable cleared.sound.reachable).held g hg
    have wf := PostgresStore.reachable_wellFormed cleared.sound.reachable
    have keyed := Journal.placements_keyed wf.toWellFormed
    have same : b = a.placement :=
      keyed.eq hb (Journal.mem_placements ha) (hbid.trans (hattempt.trans hid.symm))
    rw [same] at held
    exact held.mpr pending

end Fleet

namespace Sample

/-- The agent cleans up after the cancelled run of `rollout`. -/
def retirement : List Fleet.Act :=
  rollout ++ [.agent 0 .stop, .agent 0 .cleanup, .agent 0 (.assign 6 attemptId []),
    .agent 0 .clean, .agent 0 .report, .execute 7 1, .agent 0 .reply]

/-- An agent receives an assignment and is superseded before it launches it. The run is
cancelled, the new agent removes the container that does not exist yet and reports it stopped.
Then the old agent launches. -/
def superseded : List Fleet.Act :=
  [.other 1 (.submit runId spec "key" "fingerprint"),
    .register 2 "worker" "session" ⟨4000, 4096⟩ {},
    .agent 0 (.inventory []), .agent 0 .reconcile, .agent 0 .cleanup,
    .agent 0 (.assign 3 attemptId []),
    .register 4 "worker" "successor" ⟨4000, 4096⟩ {}, .other 5 (.cancel runId.text),
    .agent 1 (.inventory []), .agent 1 .reconcile, .agent 1 .cleanup,
    .agent 1 (.assign 6 attemptId []), .agent 1 .clean, .agent 1 .report, .execute 7 0,
    .agent 1 .reply, .agent 0 (.ensure "container")]

end Sample

open Sample in
theorem Fleet.cleanup_done_final_retired : ∃ s,
    fleet.system.Leads (fun s act => settled s act) fleet.system.init s ∧
    ∃ a ∈ s.store.db.attempts, a.cleanupStatus = .done ∧ ∀ x ∈ s.containers, x.attempt ≠ a.id := by
  have decided : (fleet.system.replay settled fleet.system.init retirement).any (fun s =>
      s.store.db.attempts.any fun a => a.cleanupStatus = .done) := by
    decide +kernel
  obtain ⟨s, hs, hstate⟩ := (Option.any_eq_true _ _).mp decided
  simp only [List.any_eq_true, decide_eq_true_eq] at hstate
  obtain ⟨a, ha, done⟩ := hstate
  have final := (cleanup_done_final fleet (System.replay_leads hs)).1 a ha done s .refl
  exact ⟨s, System.replay_leads hs, a, ha, done, final⟩

open Sample in
theorem Fleet.cleanup_done_undone : ¬ ∀ s : Fleet.State, fleet.system.Reachable s →
    ∀ a ∈ s.store.db.attempts, a.cleanupStatus = .done → ∀ x ∈ s.containers, x.attempt ≠ a.id := by
  intro claimed
  have decided : (fleet.system.replay (fun _ _ => true) fleet.system.init superseded).any (fun s =>
      s.store.db.attempts.any fun a => a.cleanupStatus = .done &&
        s.containers.any fun x => x.attempt = a.id) := by
    decide +kernel
  obtain ⟨s, hs, hstate⟩ := (Option.any_eq_true _ _).mp decided
  simp only [List.any_eq_true, Bool.and_eq_true, decide_eq_true_eq] at hstate
  obtain ⟨a, ha, done, x, hx, hattempt⟩ := hstate
  exact claimed s (System.replay_reachable hs) a ha done x hx hattempt

end Runyard
