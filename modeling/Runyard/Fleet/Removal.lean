import Runyard.Fleet.Attempts

/-!
# Removals spare live attempts

What every process holds from its earlier replies: what it is to stop or to clean up is
foreign or over, and what it is to launch was placed on its worker.
-/

namespace Runyard

namespace AgentPhase

def sees : AgentPhase → List String
  | .observed ids => ids
  | _ => []

def stops : AgentPhase → List String
  | .stopping ids => ids
  | _ => []

def cleans : AgentPhase → List String
  | .assigning ids => ids
  | .cleaning ids _ => ids
  | .removed id ids _ => id :: ids
  | .reporting _ ids _ => ids
  | _ => []

/-- The assignment that the agent has still to launch. -/
def work : AgentPhase → Option Assignment
  | .cleaning _ work => work
  | .removed _ _ work => work
  | .reporting _ _ work => work
  | _ => none

end AgentPhase

namespace ControllerPhase

def attempts : ControllerPhase → List AttemptRow
  | .listing attempts => attempts
  | .sweeping _ attempts => attempts
  | .walking attempts => attempts
  | .deleted _ attempts => attempts
  | .relaunched _ _ attempts => attempts
  | .stopped _ attempts => attempts
  | _ => []

def sweeps : ControllerPhase → List String
  | .sweeping ids _ => ids
  | _ => []

end ControllerPhase

namespace Fleet

variable {c : Fleet} {s s' : State} {db : Db} {now : Int} {op : Op}

/-- The identifier is no attempt's, or the attempt is over. -/
def Removable (c : Fleet) (db : Db) (id : String) : Prop := c.foreign id ∨ db.Retired id

structure AgentSound (c : Fleet) (db : Db) (a : Agent) : Prop where
  sees : ∀ id ∈ a.phase.sees, c.foreign id ∨ db.Placed a.worker id
  stops : ∀ id ∈ a.phase.stops, c.Removable db id
  cleans : ∀ id ∈ a.phase.cleans, db.Placed a.worker id ∧ db.Retired id
  work : ∀ x ∈ a.phase.work, db.Hosts a.worker x.attempt.id x.devices

structure ControllerSound (c : Fleet) (s : State) : Prop where
  attempts : ∀ a ∈ s.controller.attempts, s.store.db.Placed kubernetesWorker a.id ∧
    (¬ a.status.live → s.store.db.Retired a.id)
  sweeps : ∀ id ∈ s.controller.sweeps, c.Removable s.store.db id
  listing : ∀ attempts, s.controller = .listing attempts → ∀ id ∈ s.requested,
    (∃ a ∈ attempts, a.id = id) ∨ s.store.db.Retired id
  admitted : ∀ id left, s.controller = .admitted id left → s.store.db.Placed kubernetesWorker id

structure Sound (c : Fleet) (s : State) : Prop where
  reachable : c.store.system.Reachable s.store
  native : ∀ a ∈ s.store.db.attempts, ¬ c.foreign a.id
  agents : ∀ a ∈ s.agents, c.AgentSound s.store.db a
  containers : ∀ x ∈ s.containers, s.store.db.Hosts x.worker x.attempt x.devices
  requested : ∀ id ∈ s.requested, s.store.db.Placed kubernetesWorker id
  controller : c.ControllerSound s

/-! ## The store moves -/

theorem transact_ok (h : c.transact now op s = some s') : s.store.clock ≤ now ∧
    (∀ id, op.draws? = some id → ¬ c.foreign id) ∧
    s' = { s with store := ⟨c.store.commit now op s.store.db, now⟩ } := by
  unfold transact at h
  split at h
  · rename_i hguard
    cases h
    simp only [Bool.and_eq_true, decide_eq_true_eq] at hguard
    refine ⟨hguard.1, fun id hdraws => ?_, rfl⟩
    have fresh := hguard.2
    rw [hdraws] at fresh
    simpa using fresh
  · cases h

theorem transact_later (h : c.transact now op s = some s') :
    c.store.system.Later s.store s'.store := by
  obtain ⟨hclock, _, rfl⟩ := transact_ok h
  exact System.Leads.single (e := ⟨now, op⟩) trivial (if_pos hclock)

/-- The database that a transaction leaves when it succeeds. -/
theorem transact_db {db' : Db} (h : c.transact now op s = some s')
    (happly : c.store.apply now op s.store.db = .ok db') : s'.store.db = db' := by
  obtain ⟨_, _, rfl⟩ := transact_ok h
  simp [PostgresStore.commit, happly]

theorem removable_later (hs : c.store.system.Reachable s.store)
    (later : c.store.system.Later s.store s'.store) {id : String}
    (removable : c.Removable s.store.db id) : c.Removable s'.store.db id := by
  rcases removable with foreign | retired
  · exact .inl foreign
  · exact .inr (retired_later hs later retired)

theorem AgentSound.later {a : Agent} (hs : c.store.system.Reachable s.store)
    (later : c.store.system.Later s.store s'.store) (sound : c.AgentSound s.store.db a) :
    c.AgentSound s'.store.db a := by
  constructor
  · intro id hid
    rcases sound.sees id hid with foreign | placed
    · exact .inl foreign
    · exact .inr (placed_later hs later placed)
  · intro id hid
    exact removable_later hs later (sound.stops id hid)
  · intro id hid
    obtain ⟨placed, retired⟩ := sound.cleans id hid
    exact ⟨placed_later hs later placed, retired_later hs later retired⟩
  · intro x hx
    exact hosts_later hs later (sound.work x hx)

theorem Sound.transact (sound : c.Sound s) (h : c.transact now op s = some s') : c.Sound s' := by
  have later := transact_later h
  obtain ⟨hclock, fresh, rfl⟩ := transact_ok h
  have hs := sound.reachable
  have hs' := c.store.reachable_commit hs op hclock
  have wf := PostgresStore.reachable_wellFormed hs
  have effect : Effect c.store now s.store.db.toLedger op _ := PostgresStore.commit_effect wf
  constructor
  · exact hs'
  · intro a' ha'
    rcases effect.attempts_from wf a' ha' with ⟨a, ha, hid⟩ | ⟨hdraws, _⟩
    · rw [← hid]
      exact sound.native a ha
    · exact fresh a'.id hdraws
  · intro a ha
    exact (sound.agents a ha).later hs later
  · intro x hx
    exact hosts_later hs later (sound.containers x hx)
  · intro id hid
    exact placed_later hs later (sound.requested id hid)
  · constructor
    · intro a ha
      obtain ⟨placed, retired⟩ := sound.controller.attempts a ha
      exact ⟨placed_later hs later placed,
        fun finished => retired_later hs later (retired finished)⟩
    · intro id hid
      exact removable_later hs later (sound.controller.sweeps id hid)
    · intro attempts hlisting id hid
      rcases sound.controller.listing attempts hlisting id hid with known | retired
      · exact .inl known
      · exact .inr (retired_later hs later retired)
    · intro id left hadmitted
      exact placed_later hs later (sound.controller.admitted id left hadmitted)

/-! ## The agents move -/

theorem Sound.removeContainer (sound : c.Sound s) (worker id : String) :
    c.Sound (removeContainer worker id s) :=
  { sound with
    containers := fun x hx => sound.containers x (List.mem_of_mem_filter hx)
    controller := { sound.controller with } }

theorem ensureContainer_store {worker : String} {work : Assignment} :
    (ensureContainer worker work s).store = s.store := by
  unfold Fleet.ensureContainer
  split
  · rfl
  · rfl

theorem ensureContainer_agents {worker : String} {work : Assignment} :
    (ensureContainer worker work s).agents = s.agents := by
  unfold Fleet.ensureContainer
  split
  · rfl
  · rfl

theorem Sound.ensureContainer (sound : c.Sound s) {worker : String} {work : Assignment}
    (hosts : s.store.db.Hosts worker work.attempt.id work.devices) :
    c.Sound (ensureContainer worker work s) := by
  unfold Fleet.ensureContainer
  split
  · exact sound
  · refine { sound with containers := ?_, controller := { sound.controller with } }
    intro x hx
    rcases List.mem_append.mp hx with hx | hx
    · exact sound.containers x hx
    · rw [List.mem_singleton.mp hx]
      exact hosts

/-- A phase with no more to do than the present one. -/
theorem AgentSound.shrink {a : Agent} (ha : c.AgentSound db a) {phase : AgentPhase}
    (sees : phase.sees ⊆ a.phase.sees) (stops : phase.stops ⊆ a.phase.stops)
    (cleans : phase.cleans ⊆ a.phase.cleans) (work : ∀ x ∈ phase.work, x ∈ a.phase.work) :
    c.AgentSound db { a with phase := phase } where
  sees id hid := ha.sees id (sees hid)
  stops id hid := ha.stops id (stops hid)
  cleans id hid := ha.cleans id (cleans hid)
  work x hx := ha.work x (work x hx)

/-- What one step of an agent does. -/
inductive AgentMove (c : Fleet) (s : State) (a : Agent) :
    AgentAct → State → AgentPhase → Prop where
  | observed {ids : List String}
      (shown : ∀ id ∈ ids,
        c.foreign id ∨ ∃ x ∈ s.containers, x.worker = a.worker ∧ x.attempt = id) :
      AgentMove c s a (.inventory ids) s (.observed ids)
  | decided {ids stop : List String} (phase : a.phase = .observed ids)
      (reply : reconcile a.worker a.session ids s.store.db = .ok stop) :
      AgentMove c s a .reconcile s (.stopping stop)
  | stopped {id : String} {rest : List String} (phase : a.phase = .stopping (id :: rest)) :
      AgentMove c s a .stop (removeContainer a.worker id s) (.stopping rest)
  | listed {rows : List AttemptRow} (reply : cleanup a.worker a.session s.store.db = .ok rows) :
      AgentMove c s a .cleanup s (.assigning (rows.map (·.id)))
  | assigned {now : Int} {attempt : RandomId} {locked ids : List String} {db' : Db}
      {work : Option Assignment} {s' : State} (phase : a.phase = .assigning ids)
      (reply : assign c.store.timing now attempt locked a.worker a.session s.store.db =
        .ok (db', work))
      (committed : c.transact now (.assign attempt locked a.worker a.session) s = some s') :
      AgentMove c s a (.assign now attempt locked) s' (.cleaning ids work)
  | cleaned {id : String} {rest : List String} {work : Option Assignment}
      (phase : a.phase = .cleaning (id :: rest) work) :
      AgentMove c s a .clean (removeContainer a.worker id s) (.removed id rest work)
  | reported {id : String} {rest : List String} {work : Option Assignment}
      (phase : a.phase = .removed id rest work) :
      AgentMove c s a .report
        { s with reports := s.reports ++ [⟨a.worker, a.session, id, "", true⟩] }
        (.reporting s.reports.length rest work)
  | acknowledged {id runtime : String} (phase : a.phase = .launched id runtime) :
      AgentMove c s a .report
        { s with reports := s.reports ++ [⟨a.worker, a.session, id, runtime, false⟩] }
        (.reporting s.reports.length [] none)
  | replied {call : Nat} {rest : List String} {work : Option Assignment}
      (phase : a.phase = .reporting call rest work) (executed : call ∈ s.replies) :
      AgentMove c s a .reply s (.cleaning rest work)
  | ensured {work : Assignment} {runtime : String} (phase : a.phase = .cleaning [] (some work)) :
      AgentMove c s a (.ensure runtime) (ensureContainer a.worker work s)
        (.launched work.attempt.id runtime)
  | rested {act : AgentAct} : AgentMove c s a act s .observing
  | ended : AgentMove c s a .exit s .ended

theorem agentStep_move {a : Agent} {act : AgentAct} {phase : AgentPhase}
    (h : c.agentStep s a act = some (s', phase)) : AgentMove c s a act s' phase := by
  cases act with
  | inventory ids =>
    rw [Fleet.agentStep] at h
    split at h
    · rename_i hguard
      cases h
      refine .observed ?_
      simpa using (Bool.and_eq_true_iff.mp hguard).2
    · cases h
  | reconcile =>
    rw [Fleet.agentStep] at h
    split at h
    swap
    · cases h
    rename_i ids hphase
    split at h
    · rename_i stop hreply
      cases h
      exact .decided hphase hreply
    · cases h
  | stop =>
    rw [Fleet.agentStep] at h
    split at h
    · rename_i id rest hphase
      cases h
      exact .stopped hphase
    · cases h
  | cleanup =>
    rw [Fleet.agentStep] at h
    split at h
    swap
    · cases h
    split at h
    · rename_i rows hreply
      cases h
      exact .listed hreply
    · cases h
  | assign now attempt locked =>
    rw [Fleet.agentStep] at h
    split at h
    swap
    · cases h
    rename_i ids hphase
    split at h
    · rename_i db' work hreply
      obtain ⟨s₁, hcommitted, hreturn⟩ := Option.bind_eq_some_iff.mp h
      cases hreturn
      exact .assigned hphase hreply hcommitted
    · cases h
  | clean =>
    rw [Fleet.agentStep] at h
    split at h
    · rename_i id rest work hphase
      cases h
      exact .cleaned hphase
    · cases h
  | report =>
    rw [Fleet.agentStep] at h
    split at h
    · rename_i id rest work hphase
      cases h
      exact .reported hphase
    · rename_i id runtime hphase
      cases h
      exact .acknowledged hphase
    · cases h
  | reply =>
    rw [Fleet.agentStep] at h
    split at h
    swap
    · cases h
    rename_i call rest work hphase
    split at h
    · rename_i executed
      cases h
      exact .replied hphase (List.contains_iff_mem.mp executed)
    · cases h
  | ensure runtime =>
    rw [Fleet.agentStep] at h
    split at h
    · rename_i work hphase
      cases h
      exact .ensured hphase
    · cases h
  | sleep =>
    rw [Fleet.agentStep] at h
    split at h
    · cases h
      exact .rested
    · cases h
  | fail =>
    rw [Fleet.agentStep] at h
    split at h
    · cases h
    · cases h
      exact .rested
  | exit =>
    rw [Fleet.agentStep] at h
    cases h
    exact .ended

/-- What one step of an agent keeps. -/
theorem Sound.agentMove (sound : c.Sound s) {a : Agent} {act : AgentAct} {phase : AgentPhase}
    (ha : c.AgentSound s.store.db a) (move : AgentMove c s a act s' phase) :
    c.Sound s' ∧ s'.agents = s.agents ∧ c.AgentSound s'.store.db { a with phase := phase } := by
  have idle : c.AgentSound s.store.db { a with phase := .observing } := by
    apply ha.shrink <;> simp [AgentPhase.sees, AgentPhase.stops, AgentPhase.cleans, AgentPhase.work]
  cases move with
  | observed shown =>
    refine ⟨sound, rfl, { idle with sees := ?_ }⟩
    intro id hid
    rcases shown id hid with foreign | ⟨x, hx, hworker, hattempt⟩
    · exact .inl foreign
    · refine .inr ?_
      rw [← hworker, ← hattempt]
      exact (sound.containers x hx).placed
  | decided hphase reply =>
    refine ⟨sound, rfl, { idle with stops := ?_ }⟩
    intro id hid
    obtain ⟨hobserved, hunknown | retired⟩ := reconcile_stop sound.reachable reply id hid
    · rcases ha.sees id (by rw [hphase]; exact hobserved) with foreign | ⟨b, hb, hsame, _⟩
      · exact .inl foreign
      · exact absurd hsame (hunknown b hb)
    · exact .inr retired
  | @stopped id _ hphase =>
    refine ⟨sound.removeContainer a.worker id, rfl, ?_⟩
    apply ha.shrink <;> simp [hphase, AgentPhase.sees, AgentPhase.stops, AgentPhase.cleans,
      AgentPhase.work]
  | listed reply =>
    refine ⟨sound, rfl, { idle with cleans := ?_ }⟩
    intro id hid
    obtain ⟨row, hrow, rfl⟩ := List.mem_map.mp hid
    exact cleanup_rows reply row hrow
  | @assigned _ _ _ _ db' work _ hphase reply committed =>
    have later := transact_later committed
    have hdb := transact_db committed (Result.map_ok.mpr ⟨_, reply, rfl⟩)
    obtain ⟨_, _, rfl⟩ := transact_ok committed
    refine ⟨sound.transact committed, rfl,
      { idle.later sound.reachable later with cleans := ?_, work := ?_ }⟩
    · intro id hid
      refine (ha.later sound.reachable later).cleans id ?_
      rw [hphase]
      exact hid
    · intro x hx
      have hwork : work = some x := hx
      rw [hwork] at reply
      dsimp only at hdb ⊢
      rw [hdb]
      exact (assign_work (seated_reachable sound.reachable) reply).2
  | @cleaned id _ _ hphase =>
    refine ⟨sound.removeContainer a.worker id, rfl, ?_⟩
    apply ha.shrink <;> simp [hphase, AgentPhase.sees, AgentPhase.stops, AgentPhase.cleans,
      AgentPhase.work]
  | reported hphase =>
    refine ⟨{ sound with controller := { sound.controller with } }, rfl, ?_⟩
    apply ha.shrink <;> simp [hphase, AgentPhase.sees, AgentPhase.stops, AgentPhase.cleans,
      AgentPhase.work]
  | acknowledged _ =>
    exact ⟨{ sound with controller := { sound.controller with } }, rfl, { idle with }⟩
  | replied hphase _ =>
    refine ⟨sound, rfl, ?_⟩
    apply ha.shrink <;> simp [hphase, AgentPhase.sees, AgentPhase.stops, AgentPhase.cleans,
      AgentPhase.work]
  | @ensured work _ hphase =>
    have hosts := ha.work work (by rw [hphase]; rfl)
    refine ⟨sound.ensureContainer hosts, ensureContainer_agents, ?_⟩
    rw [ensureContainer_store]
    exact { idle with }
  | rested => exact ⟨sound, rfl, idle⟩
  | ended => exact ⟨sound, rfl, { idle with }⟩

/-! ## The controller moves -/

/-- A phase of which nothing but the rows that are left is known. -/
theorem Sound.walk (sound : c.Sound s) {phase : ControllerPhase}
    (attempts : phase.attempts ⊆ s.controller.attempts) (sweeps : phase.sweeps = [])
    (listing : ∀ attempts, phase ≠ .listing attempts)
    (admitted : ∀ id left, phase ≠ .admitted id left) :
    c.Sound { s with controller := phase } := by
  refine { sound with controller := ?_ }
  constructor
  · exact fun a ha => sound.controller.attempts a (attempts ha)
  · intro id hid
    rw [sweeps] at hid
    cases hid
  · exact fun attempts hlisting => absurd hlisting (listing attempts)
  · exact fun id left hadmitted => absurd hadmitted (admitted id left)

/-- A Job is requested, in a phase that lists no Jobs. -/
theorem Sound.request (sound : c.Sound s) {id : String}
    (placed : s.store.db.Placed kubernetesWorker id)
    (listing : ∀ attempts, s.controller ≠ .listing attempts) :
    c.Sound { s with requested := s.requested ++ [id] } := by
  refine { sound with requested := ?_, controller := { sound.controller with listing := ?_ } }
  · intro other hother
    rcases List.mem_append.mp hother with hother | hother
    · exact sound.requested other hother
    · rw [List.mem_singleton.mp hother]
      exact placed
  · exact fun attempts hlisting => absurd hlisting (listing attempts)

theorem Sound.admission (sound : c.Sound s) {id : String} {left : Nat}
    (placed : s.store.db.Placed kubernetesWorker id) :
    c.Sound { s with controller := .admitted id left } := by
  refine { sound with controller := ?_ }
  constructor
  · intro a ha
    cases ha
  · intro id hid
    cases hid
  · intro attempts hlisting
    cases hlisting
  · intro id left hadmitted
    cases hadmitted
    exact placed

/-- What one step of the controller keeps. -/
theorem Sound.controllerStep (sound : c.Sound s) {act : ControllerAct}
    (h : c.controllerStep s act = some s') : c.Sound s' := by
  cases act with
  | snapshot =>
    rw [Fleet.controllerStep] at h
    split at h
    swap
    · cases h
    cases h
    have settled := done_retired sound.reachable
    refine { sound with controller := ?_ }
    constructor
    · intro a ha
      obtain ⟨hmem, hworker, _⟩ := mem_kubernetesAttempts.mp ha
      exact ⟨⟨a, hmem, rfl, hworker⟩, fun finished => ⟨a, hmem, rfl, finished⟩⟩
    · intro id hid
      cases hid
    · intro attempts hlisting id hid
      cases hlisting
      obtain ⟨a, hmem, rfl, hworker⟩ := sound.requested id hid
      cases hcleanup : a.cleanupStatus with
      | pending => exact .inl ⟨a, mem_kubernetesAttempts.mpr ⟨hmem, hworker, hcleanup⟩, rfl⟩
      | done => exact .inr ⟨a, hmem, rfl, settled a hmem hcleanup⟩
    · intro id left hadmitted
      cases hadmitted
  | inventory ids =>
    rw [Fleet.controllerStep] at h
    split at h
    swap
    · cases h
    rename_i attempts hphase
    split at h
    swap
    · cases h
    rename_i hguard
    cases h
    simp only [List.all_eq_true, Bool.or_eq_true, List.contains_iff_mem] at hguard
    refine { sound with controller := ?_ }
    constructor
    · intro a ha
      refine sound.controller.attempts a ?_
      rw [hphase]
      exact ha
    · intro id hid
      obtain ⟨hlisted, hunknown⟩ := List.mem_filter.mp hid
      rcases hguard id hlisted with foreign | requested
      · exact .inl foreign
      · rcases sound.controller.listing attempts hphase id requested with ⟨a, ha, hknown⟩ | retired
        · simp only [Bool.not_eq_true', List.any_eq_false, decide_eq_true_eq] at hunknown
          exact absurd hknown (hunknown a ha)
        · exact .inr retired
    · intro attempts hlisting
      cases hlisting
    · intro id left hadmitted
      cases hadmitted
  | sweep =>
    rw [Fleet.controllerStep] at h
    split at h
    swap
    · cases h
    rename_i id rest attempts hphase
    cases h
    refine { sound with controller := ?_ }
    constructor
    · intro a ha
      refine sound.controller.attempts a ?_
      rw [hphase]
      exact ha
    · intro other hother
      refine sound.controller.sweeps other ?_
      rw [hphase]
      exact List.mem_cons_of_mem id hother
    · intro attempts hlisting
      cases hlisting
    · intro id left hadmitted
      cases hadmitted
  | next =>
    rw [Fleet.controllerStep] at h
    split at h
    · rename_i attempts hphase
      cases h
      apply sound.walk <;> simp [hphase, ControllerPhase.attempts, ControllerPhase.sweeps]
    · cases h
      apply sound.walk <;> simp [ControllerPhase.attempts, ControllerPhase.sweeps]
    · cases h
      apply sound.walk <;> simp [ControllerPhase.attempts, ControllerPhase.sweeps]
    · cases h
  | remove =>
    rw [Fleet.controllerStep] at h
    split at h
    swap
    · cases h
    rename_i a rest hphase
    split at h
    · cases h
    · cases h
      apply sound.walk <;> simp [hphase, ControllerPhase.attempts, ControllerPhase.sweeps]
  | ensure runtime =>
    rw [Fleet.controllerStep] at h
    split at h
    · rename_i a rest hphase
      split at h
      swap
      · cases h
      cases h
      have placed := (sound.controller.attempts a (by
        rw [hphase]
        exact List.mem_cons_self)).1
      have moved : c.Sound { s with controller := .relaunched a.id runtime rest } := by
        apply sound.walk <;> simp [hphase, ControllerPhase.attempts, ControllerPhase.sweeps]
      exact moved.request placed (by simp)
    · rename_i id left hphase
      cases h
      have placed := sound.controller.admitted id left hphase
      have moved : c.Sound { s with controller := .launched id runtime left } := by
        apply sound.walk <;> simp [ControllerPhase.attempts, ControllerPhase.sweeps]
      exact moved.request placed (by simp)
    · cases h
  | probe stopped =>
    rw [Fleet.controllerStep] at h
    split at h
    swap
    · cases h
    rename_i a rest hphase
    split at h
    swap
    · cases h
    cases h
    cases stopped <;> apply sound.walk <;>
      simp [hphase, ControllerPhase.attempts, ControllerPhase.sweeps]
  | write now =>
    rw [Fleet.controllerStep] at h
    split at h
    · rename_i id rest hphase
      refine Sound.transact ?_ h
      apply sound.walk <;> simp [hphase, ControllerPhase.attempts, ControllerPhase.sweeps]
    · rename_i id runtime rest hphase
      refine Sound.transact ?_ h
      apply sound.walk <;> simp [hphase, ControllerPhase.attempts, ControllerPhase.sweeps]
    · rename_i id rest hphase
      refine Sound.transact ?_ h
      apply sound.walk <;> simp [hphase, ControllerPhase.attempts, ControllerPhase.sweeps]
    · rename_i id runtime left hphase
      refine Sound.transact ?_ h
      split
      · apply sound.walk <;> simp [ControllerPhase.attempts, ControllerPhase.sweeps]
      · apply sound.walk <;> simp [ControllerPhase.attempts, ControllerPhase.sweeps]
    · cases h
  | admitNext now attempt locked =>
    rw [Fleet.controllerStep] at h
    split at h
    swap
    · cases h
    rename_i left hphase
    obtain ⟨s₁, htransact, hreturn⟩ := Option.bind_eq_some_iff.mp h
    cases hreturn
    have moved := sound.transact htransact
    split
    · rename_i db' x hadmit
      refine moved.admission ?_
      rw [transact_db htransact (Result.map_ok.mpr ⟨_, hadmit, rfl⟩)]
      exact admitKubernetes_work hadmit
    · apply moved.walk <;> simp [ControllerPhase.attempts, ControllerPhase.sweeps]
  | fail =>
    rw [Fleet.controllerStep] at h
    split at h
    · rename_i a rest hphase
      cases h
      apply sound.walk <;> simp [hphase, ControllerPhase.attempts, ControllerPhase.sweeps]
    · rename_i id rest hphase
      cases h
      apply sound.walk <;> simp [hphase, ControllerPhase.attempts, ControllerPhase.sweeps]
    · rename_i id runtime rest hphase
      cases h
      apply sound.walk <;> simp [hphase, ControllerPhase.attempts, ControllerPhase.sweeps]
    · rename_i id rest hphase
      cases h
      apply sound.walk <;> simp [hphase, ControllerPhase.attempts, ControllerPhase.sweeps]
    · cases h
      apply sound.walk <;> simp [ControllerPhase.attempts, ControllerPhase.sweeps]
  | restart =>
    rw [Fleet.controllerStep] at h
    cases h
    apply sound.walk <;> simp [ControllerPhase.attempts, ControllerPhase.sweeps]

/-! ## Every run -/

theorem sound_init : c.Sound c.system.init := by
  constructor
  · exact System.reachable_init
  · intro a ha
    cases ha
  · intro a ha
    cases ha
  · intro x hx
    cases hx
  · intro id hid
    cases hid
  · constructor
    · intro a ha
      cases ha
    · intro id hid
      cases hid
    · intro attempts hlisting
      cases hlisting
    · intro id left hadmitted
      cases hadmitted

theorem Sound.step (sound : c.Sound s) {act : Act} (h : c.system.step s act = some s') :
    c.Sound s' := by
  have hstep : c.step s act = some s' := h
  cases act with
  | other now op =>
    rw [Fleet.step] at hstep
    split at hstep
    · cases hstep
    · exact sound.transact hstep
  | register now worker session capacity gpu =>
    rw [Fleet.step] at hstep
    split at hstep
    swap
    · cases hstep
    refine Sound.transact ?_ hstep
    refine { sound with agents := ?_, controller := { sound.controller with } }
    intro a ha
    rcases List.mem_append.mp ha with ha | ha
    · exact sound.agents a ha
    · rw [List.mem_singleton.mp ha]
      constructor <;> simp [AgentPhase.sees, AgentPhase.stops, AgentPhase.cleans, AgentPhase.work]
  | agent i act =>
    obtain ⟨a, hi, hstep⟩ := Option.bind_eq_some_iff.mp hstep
    obtain ⟨⟨s₁, phase⟩, hagent, hreturn⟩ := Option.bind_eq_some_iff.mp hstep
    cases hreturn
    obtain ⟨moved, hagents, ha⟩ :=
      sound.agentMove (sound.agents a (List.mem_of_getElem? hi)) (agentStep_move hagent)
    refine { moved with agents := ?_, controller := { moved.controller with } }
    intro b hb
    rcases List.mem_or_eq_of_mem_set hb with hb | rfl
    · refine moved.agents b ?_
      rw [hagents]
      exact hb
    · exact ha
  | execute now call =>
    obtain ⟨r, _, hstep⟩ := Option.bind_eq_some_iff.mp hstep
    refine Sound.transact ?_ hstep
    exact { sound with controller := { sound.controller with } }
  | vanish worker id =>
    rw [Fleet.step] at hstep
    cases hstep
    exact sound.removeContainer worker id
  | controller act => exact sound.controllerStep hstep

theorem sound_reachable (hs : c.system.Reachable s) : c.Sound s :=
  hs.invariant sound_init fun _ _ _ sound h => sound.step h

/-- `backend.remove` is called only for what is foreign or over. -/
theorem Sound.removal (sound : c.Sound s) {act : Act} {id : String}
    (h : c.system.step s act = some s') (removes : removal s act = some id) :
    c.Removable s.store.db id := by
  have hstep : c.step s act = some s' := h
  cases act with
  | agent i act =>
    obtain ⟨a, hi, hremoval⟩ := Option.bind_eq_some_iff.mp removes
    have ha := sound.agents a (List.mem_of_getElem? hi)
    unfold AgentPhase.removal at hremoval
    split at hremoval
    · rename_i first rest hphase
      cases hremoval
      refine ha.stops id ?_
      rw [hphase]
      exact List.mem_cons_self
    · rename_i first rest work hphase
      cases hremoval
      refine .inr (ha.cleans id ?_).2
      rw [hphase]
      exact List.mem_cons_self
    · cases hremoval
  | controller act =>
    have hremoval : s.controller.removal act = some id := removes
    unfold ControllerPhase.removal at hremoval
    split at hremoval
    · rename_i first rest attempts hphase
      cases hremoval
      refine sound.controller.sweeps id ?_
      rw [hphase]
      exact List.mem_cons_self
    · rename_i a rest hphase
      cases hremoval
      have hcontroller : c.controllerStep s .remove = some s' := hstep
      rw [Fleet.controllerStep, hphase] at hcontroller
      dsimp only at hcontroller
      split at hcontroller
      · cases hcontroller
      · rename_i finished
        refine .inr ((sound.controller.attempts a ?_).2 finished)
        rw [hphase]
        exact List.mem_cons_self
    · cases hremoval
  | other | register | execute | vanish => cases removes

/-- A live attempt is never removed. -/
theorem live_attempt_never_removed (c : Fleet) {s s' : State} (hs : c.system.Reachable s)
    {act : Act} (h : c.system.step s act = some s') {id : String}
    (removes : removal s act = some id) :
    ∀ r ∈ s.store.db.runs, r.activeAttempt = some id →
      ∀ a ∈ s.store.db.attempts, a.id = id → ¬ a.status.live := by
  have sound := sound_reachable hs
  intro r _ _ a ha hid
  rcases sound.removal h removes with foreign | retired
  · rw [← hid] at foreign
    exact absurd foreign (sound.native a ha)
  · exact retired_not_live sound.reachable retired a ha hid

end Fleet

namespace Sample

def fleet : Fleet := ⟨store, 4, fun id => id = "leftover"⟩

/-- An agent launches its assignment, the run is cancelled, and a leftover container shows up. -/
def rollout : List Fleet.Act :=
  [.other 1 (.submit runId spec "key" "fingerprint"),
    .register 2 "worker" "session" ⟨4000, 4096⟩ {},
    .agent 0 (.inventory []), .agent 0 .reconcile, .agent 0 .cleanup,
    .agent 0 (.assign 3 attemptId []), .agent 0 (.ensure "container"), .agent 0 .report,
    .execute 4 0, .agent 0 .reply, .agent 0 .sleep, .other 5 (.cancel runId.text),
    .agent 0 (.inventory ["leftover", attemptId.text]), .agent 0 .reconcile, .agent 0 .stop]

end Sample

open Sample in
theorem Fleet.live_attempt_never_removed_cancelled : ∃ s s',
    fleet.system.Reachable s ∧ fleet.system.step s (.agent 0 .stop) = some s' ∧
    removal s (.agent 0 .stop) = some attemptId.text ∧
    ∃ r ∈ s.store.db.runs, r.activeAttempt = some attemptId.text ∧
      ∀ a ∈ s.store.db.attempts, a.id = attemptId.text → ¬ a.status.live := by
  have decided : (fleet.system.replay (fun _ _ => true) fleet.system.init rollout).any (fun s =>
      (fleet.system.step s (.agent 0 .stop)).isSome &&
        removal s (.agent 0 .stop) = some attemptId.text &&
        s.store.db.runs.any fun r => r.activeAttempt = some attemptId.text) := by
    decide +kernel
  obtain ⟨s, hs, hstate⟩ := (Option.any_eq_true _ _).mp decided
  simp only [Bool.and_eq_true, decide_eq_true_eq, List.any_eq_true] at hstate
  obtain ⟨⟨enabled, removes⟩, r, hr, active⟩ := hstate
  obtain ⟨s', hstep⟩ := Option.isSome_iff_exists.mp enabled
  have finished :=
    live_attempt_never_removed fleet (System.replay_reachable hs) hstep removes r hr active
  exact ⟨s, s', System.replay_reachable hs, hstep, removes, r, hr, active, finished⟩

end Runyard
