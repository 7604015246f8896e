import Runyard.Store.Operations

/-!
# Agents, the Docker daemon and the Kubernetes controller

The loop of `run_agent` and the `tick` of `KubernetesController`, between the store and the
runtimes. Every transaction and every runtime call is one event, so that a reply may be
arbitrarily late, and a process that was superseded goes on until it notices. A call that fails,
or whose reply is lost, is the event `fail`; `exit` and `restart` end a process anywhere.
-/

namespace Runyard

/-- The identifier that the transaction draws for an attempt. -/
def Op.draws? : Op → Option String
  | .assign attempt _ _ _ => some attempt.text
  | .admitKubernetes attempt _ _ => some attempt.text
  | _ => none

/-- The transaction is one that only agents ask for. -/
def Op.isRuntimeReport : Op → Bool
  | .runtimeReport _ _ _ _ _ => true
  | _ => false

/-! ## Agents -/

/-- Where the loop of an agent stands, with what it has still to do. -/
inductive AgentPhase where
  | observing
  | observed (ids : List String)
  | stopping (stop : List String)
  | assigning (cleanup : List String)
  | cleaning (cleanup : List String) (work : Option Assignment)
  | removed (id : String) (cleanup : List String) (work : Option Assignment)
  | reporting (call : Nat) (cleanup : List String) (work : Option Assignment)
  | launched (id runtime : String)
  | ended
  deriving DecidableEq

structure Agent where
  worker : String
  session : String
  phase : AgentPhase := .observing
  deriving DecidableEq

structure Container where
  worker : String
  attempt : String
  /-- The GPUs that are attached to it. -/
  devices : List String
  deriving DecidableEq

/-- The `DeviceIDs` of the container that an assignment asks for. -/
def Assignment.devices (x : Assignment) : List String := x.gpuAllocations.map (·.uuid)

structure RuntimeReport where
  worker : String
  session : String
  attempt : String
  runtime : String
  stopped : Bool
  deriving DecidableEq

def RuntimeReport.op (r : RuntimeReport) : Op :=
  .runtimeReport r.worker r.session r.attempt r.runtime r.stopped

inductive AgentAct where
  | inventory (ids : List String)
  | reconcile
  /-- `backend.remove` of a container that the coordinator decided to stop. -/
  | stop
  | cleanup
  | assign (now : Int) (attempt : RandomId) (locked : List String)
  /-- `backend.remove` of a container of a finished attempt. -/
  | clean
  | report
  | reply
  | ensure (runtime : String)
  /-- The end of the loop's body. -/
  | sleep
  | fail
  | exit

/-! ## The controller -/

/-- Where `tick` stands. -/
inductive ControllerPhase where
  | idle
  | listing (attempts : List AttemptRow)
  | sweeping (ids : List String) (attempts : List AttemptRow)
  | walking (attempts : List AttemptRow)
  | deleted (id : String) (attempts : List AttemptRow)
  | relaunched (id runtime : String) (attempts : List AttemptRow)
  | stopped (id : String) (attempts : List AttemptRow)
  | admitting (left : Nat)
  | admitted (id : String) (left : Nat)
  | launched (id runtime : String) (left : Nat)
  deriving DecidableEq

inductive ControllerAct where
  | snapshot
  | inventory (ids : List String)
  /-- `backend_.remove` of a listed Job that the snapshot does not know. -/
  | sweep
  | next
  /-- `backend_.remove` of the Job of a finished attempt. -/
  | remove
  | ensure (runtime : String)
  | probe (stopped : Bool)
  /-- The repository call that follows a call of the backend. -/
  | write (now : Int)
  | admitNext (now : Int) (attempt : RandomId) (locked : List String)
  | fail
  | restart

/-! ## The system -/

/-- One deployment. The runtimes may also show containers and Jobs that the store never had
attempts for; `foreign` says which identifiers these carry. -/
structure Fleet where
  store : PostgresStore
  maxActive : Nat
  foreign : String → Bool

namespace Fleet

structure State where
  store : PostgresStore.State
  agents : List Agent := []
  /-- The containers of the Docker daemons of all workers. -/
  containers : List Container := []
  /-- The runtime reports sent so far; the number of a call is its position. -/
  reports : List RuntimeReport := []
  /-- The calls that were executed successfully. -/
  replies : List Nat := []
  controller : ControllerPhase := .idle
  /-- The Jobs whose creation was requested. A deletion takes its time, so any of them may
  appear in a later listing. -/
  requested : List String := []
  deriving DecidableEq

inductive Act where
  /-- A transaction that no agent or controller waits for. -/
  | other (now : Int) (op : Op)
  | register (now : Int) (worker session : String) (capacity : Capacity) (gpu : GpuRegistration)
  | agent (i : Nat) (act : AgentAct)
  /-- The store executes a runtime report that was sent, at whatever time. -/
  | execute (now : Int) (call : Nat)
  /-- A container disappears by itself. -/
  | vanish (worker id : String)
  | controller (act : ControllerAct)

variable (c : Fleet)

/-- One transaction; an attempt identifier that it draws is fresh. -/
def transact (now : Int) (op : Op) (s : State) : Option State :=
  if s.store.clock ≤ now && op.draws?.all (fun id => !c.foreign id) then
    some { s with store := ⟨c.store.commit now op s.store.db, now⟩ }
  else none

def removeContainer (worker id : String) (s : State) : State :=
  { s with containers := s.containers.filter fun x => !(x.worker = worker && x.attempt = id) }

/-- `ensure` of the Docker backend: an existing container is kept. -/
def ensureContainer (worker : String) (work : Assignment) (s : State) : State :=
  if s.containers.any fun x => x.worker = worker && x.attempt = work.attempt.id then s
  else { s with containers := s.containers ++ [⟨worker, work.attempt.id, work.devices⟩] }

/-- One step of an agent's loop: what becomes of the shared state and of its phase. -/
def agentStep (s : State) (a : Agent) : AgentAct → Option (State × AgentPhase)
  | .inventory ids =>
    if a.phase = .observing && ids.all (fun id => c.foreign id ||
        s.containers.any fun x => x.worker = a.worker && x.attempt = id) then
      some (s, .observed ids)
    else none
  | .reconcile => match a.phase with
    | .observed ids => match reconcile a.worker a.session ids s.store.db with
      | .ok stop => some (s, .stopping stop)
      | .error _ => none
    | _ => none
  | .stop => match a.phase with
    | .stopping (id :: rest) => some (removeContainer a.worker id s, .stopping rest)
    | _ => none
  | .cleanup => match a.phase with
    | .stopping [] => match cleanup a.worker a.session s.store.db with
      | .ok rows => some (s, .assigning (rows.map (·.id)))
      | .error _ => none
    | _ => none
  | .assign now attempt locked => match a.phase with
    | .assigning ids =>
      match assign c.store.timing now attempt locked a.worker a.session s.store.db with
      | .ok (_, work) => do
        let s ← c.transact now (.assign attempt locked a.worker a.session) s
        return (s, .cleaning ids work)
      | .error _ => none
    | _ => none
  | .clean => match a.phase with
    | .cleaning (id :: rest) work => some (removeContainer a.worker id s, .removed id rest work)
    | _ => none
  | .report => match a.phase with
    | .removed id rest work => some
      ({ s with reports := s.reports ++ [⟨a.worker, a.session, id, "", true⟩] },
        .reporting s.reports.length rest work)
    | .launched id runtime => some
      ({ s with reports := s.reports ++ [⟨a.worker, a.session, id, runtime, false⟩] },
        .reporting s.reports.length [] none)
    | _ => none
  | .reply => match a.phase with
    | .reporting call rest work =>
      if s.replies.contains call then some (s, .cleaning rest work) else none
    | _ => none
  | .ensure runtime => match a.phase with
    | .cleaning [] (some work) =>
      some (ensureContainer a.worker work s, .launched work.attempt.id runtime)
    | _ => none
  | .sleep => if a.phase = .cleaning [] none then some (s, .observing) else none
  | .fail => if a.phase = .ended then none else some (s, .observing)
  | .exit => some (s, .ended)

/-- The listed Jobs that the snapshot does not know. -/
def unknown (attempts : List AttemptRow) (ids : List String) : List String :=
  ids.filter fun id => !attempts.any fun a => a.id = id

/-- The transaction succeeds. -/
def succeeds (now : Int) (op : Op) (s : State) : Bool :=
  match c.store.apply now op s.store.db with
  | .ok _ => true
  | .error _ => false

/-- One step of `tick`. An exception about one attempt of the snapshot is caught and the next
one follows; any other ends the tick. -/
def controllerStep (s : State) : ControllerAct → Option State
  | .snapshot =>
    if s.controller = .idle then
      some { s with controller := .listing (kubernetesAttempts s.store.db) }
    else none
  | .inventory ids => match s.controller with
    | .listing attempts =>
      if ids.all fun id => c.foreign id || s.requested.contains id then
        some { s with controller := .sweeping (unknown attempts ids) attempts }
      else none
    | _ => none
  | .sweep => match s.controller with
    | .sweeping (_ :: rest) attempts => some { s with controller := .sweeping rest attempts }
    | _ => none
  | .next => match s.controller with
    | .sweeping [] attempts => some { s with controller := .walking attempts }
    | .walking [] => some { s with controller := .admitting 4 }
    | .admitting 0 => some { s with controller := .idle }
    | _ => none
  | .remove => match s.controller with
    | .walking (a :: rest) =>
      if a.status.live then none else some { s with controller := .deleted a.id rest }
    | _ => none
  | .ensure runtime => match s.controller with
    | .walking (a :: rest) =>
      if a.status.live && text a.runtimeId = "" then
        some { s with
          controller := .relaunched a.id runtime rest
          requested := s.requested ++ [a.id] }
      else none
    | .admitted id left => some { s with
      controller := .launched id runtime left
      requested := s.requested ++ [id] }
    | _ => none
  | .probe stopped => match s.controller with
    | .walking (a :: rest) =>
      if a.status.live && text a.runtimeId ≠ "" then
        some { s with controller := if stopped then .stopped a.id rest else .walking rest }
      else none
    | _ => none
  | .write now => match s.controller with
    | .deleted id rest =>
      c.transact now (.kubernetesRuntime id "" true) { s with controller := .walking rest }
    | .relaunched id runtime rest =>
      c.transact now (.kubernetesRuntime id runtime false) { s with controller := .walking rest }
    | .stopped id rest =>
      c.transact now (.kubernetesStopped id) { s with controller := .walking rest }
    | .launched id runtime left =>
      let op := .kubernetesRuntime id runtime false
      c.transact now op { s with
        controller := if c.succeeds now op s then .admitting left else .idle }
    | _ => none
  | .admitNext now attempt locked => match s.controller with
    | .admitting (left + 1) => do
      let next := match admitKubernetes c.store.timing now attempt locked c.maxActive
          s.store.db with
        | .ok (_, some x) => .admitted x.attempt.id left
        | _ => .idle
      let s ← c.transact now (.admitKubernetes attempt locked c.maxActive) s
      return { s with controller := next }
    | _ => none
  | .fail => match s.controller with
    | .walking (_ :: rest) | .deleted _ rest | .relaunched _ _ rest | .stopped _ rest =>
      some { s with controller := .walking rest }
    | _ => some { s with controller := .idle }
  | .restart => some { s with controller := .idle }

def step (s : State) : Act → Option State
  | .other now op => if op.isRuntimeReport then none else c.transact now op s
  | .register now worker session capacity gpu =>
    let op := .registerWorker worker session capacity gpu
    if c.succeeds now op s then
      c.transact now op { s with agents := s.agents ++ [⟨worker, session, .observing⟩] }
    else none
  | .agent i act => do
    let a ← s.agents[i]?
    let (s', phase) ← c.agentStep s a act
    return { s' with agents := s.agents.set i { a with phase := phase } }
  | .execute now call => do
    let r ← s.reports[call]?
    c.transact now r.op { s with
      replies := if c.succeeds now r.op s then call :: s.replies else s.replies }
  | .vanish worker id => some (removeContainer worker id s)
  | .controller act => c.controllerStep s act

def system : System State Act where
  init := { store := c.store.system.init }
  step := c.step

end Fleet

/-! ## Removals -/

/-- The attempt for which the agent calls `backend.remove`. -/
def AgentPhase.removal : AgentPhase → AgentAct → Option String
  | .stopping (id :: _), .stop => some id
  | .cleaning (id :: _) _, .clean => some id
  | _, _ => none

/-- The attempt for which the controller calls `backend_.remove`. -/
def ControllerPhase.removal : ControllerPhase → ControllerAct → Option String
  | .sweeping (id :: _) _, .sweep => some id
  | .walking (a :: _), .remove => some a.id
  | _, _ => none

def Fleet.removal (s : State) : Act → Option String
  | .agent i act => s.agents[i]?.bind fun a => a.phase.removal act
  | .controller act => s.controller.removal act
  | _ => none

end Runyard
