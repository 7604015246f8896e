import Runyard.Store.Operations

/-!
# The runner: lease guard, child process and supervision loop

`run_attempt` in `engine.cpp`, `PosixProcess` in `process.cpp` and the timing check of
`config.cpp`, together with the store that executes the runner's calls. The client's clock
differs from the server's by a constant. Calls that were sent may be executed at any later
time and more than once, also after the client gave up on them, and replies may be lost.
-/

namespace Runyard

/-! ## Timing settings -/

/-- `env_int`, from the number that `std::stoi` reads from the variable. -/
def envInt (setting : String → Option Int) (name : String) (fallback : Int) : Result Int :=
  match setting name with
  | none => return fallback
  | some value => do
    throwIf (value < 1) .invalid ("invalid integer setting: " ++ name)
    return value

/-- The timing part of `ServerConfig::load`. -/
def loadTiming (setting : String → Option Int) : Result Timing := do
  let heartbeatSeconds ← envInt setting "RUNYARD_HEARTBEAT_SECONDS" 5
  let leaseSeconds ← envInt setting "RUNYARD_LEASE_SECONDS" 30
  let workerSeconds ← envInt setting "RUNYARD_WORKER_SECONDS" 15
  let launchSeconds ← envInt setting "RUNYARD_LAUNCH_SECONDS" 300
  let retryBaseSeconds ← envInt setting "RUNYARD_RETRY_BASE_SECONDS" 5
  let terminationSeconds ← envInt setting "RUNYARD_TERMINATION_SECONDS" 10
  let finalizationSeconds ← envInt setting "RUNYARD_FINALIZATION_SECONDS" 300
  let retryMaxSeconds ← envInt setting "RUNYARD_RETRY_MAX_SECONDS" 60
  let recoveryScanMillis ← envInt setting "RUNYARD_RECOVERY_SCAN_MILLIS" 1000
  throwIf (leaseSeconds ≤ heartbeatSeconds + terminationSeconds + 2) .invalid
    "lease must exceed heartbeat, termination grace, and safety margin"
  return ⟨heartbeatSeconds, leaseSeconds, workerSeconds, launchSeconds, retryBaseSeconds,
    terminationSeconds, finalizationSeconds, retryMaxSeconds, recoveryScanMillis⟩

/-! ## The lease guard -/

/-- `duration_cast` to milliseconds truncates. -/
def millis (t : Int) : Int := t.tdiv 1000

/-- The thread waits for the heartbeat interval or is inside `client.heartbeat()`. -/
inductive HeartbeatThread where
  | waiting (since : Int)
  | calling (before : Int)
  deriving DecidableEq

structure LeaseGuard where
  until_ : Int
  revoked : Bool := false
  thread : HeartbeatThread
  deriving DecidableEq

namespace LeaseGuard

/-- The end of the lease as the client sees it, from before it sent the request. -/
def bound (sent lease : Int) : Int := millis (sent + seconds (lease - 2))

def create (now sent lease : Int) : LeaseGuard :=
  { until_ := bound sent lease, thread := .waiting now }

/-- `near_expiry` with the clock reading `now`. -/
def nearExpiry (g : LeaseGuard) (now grace : Int) : Bool :=
  g.until_ ≤ millis (now + seconds grace)

/-- The interval has passed and the next call goes out. -/
def wake (g : LeaseGuard) (now heartbeat : Int) : Option LeaseGuard :=
  match g.thread with
  | .waiting since =>
    if since + seconds heartbeat ≤ now then some { g with thread := .calling now } else none
  | .calling _ => none

def replied (g : LeaseGuard) (now lease : Int) (answered : List Int) : Option LeaseGuard :=
  match g.thread with
  | .waiting _ => none
  | .calling before =>
    if before ∈ answered then
      some { g with until_ := bound before lease, thread := .waiting now }
    else none

/-- The call threw an error; all but `unavailable` revoke the lease. -/
def failed (g : LeaseGuard) (now : Int) (unavailable : Bool) : Option LeaseGuard :=
  match g.thread with
  | .waiting _ => none
  | .calling _ => some { g with revoked := g.revoked || !unavailable, thread := .waiting now }

end LeaseGuard

/-! ## The child process -/

inductive Child where
  | running | exited | killed
  deriving DecidableEq

structure PosixProcess where
  child : Child := .running
  killAt : Option Int := none
  deriving DecidableEq

namespace PosixProcess

def stop (process : PosixProcess) (now grace : Int) : PosixProcess :=
  let deadline := now + seconds grace
  match process.killAt with
  | none => { process with killAt := some deadline }
  | some killAt => if deadline < killAt then { process with killAt := some deadline } else process

def kill (process : PosixProcess) : PosixProcess :=
  if process.child = .running then { process with child := .killed } else process

/-- The part of `poll` before `waitpid`. -/
def killDue (process : PosixProcess) (now : Int) : PosixProcess :=
  match process.killAt with
  | none => process
  | some killAt => if killAt ≤ now then process.kill else process

end PosixProcess

/-! ## The main thread -/

/-- Where the supervision loop is. `near_expiry` reads the clock and then `until_`. -/
inductive Loop where
  | top | asking | leasing | comparing (reading : Int) | timing | stopping | polling
  deriving DecidableEq

inductive Phase where
  | idle | starting | preparing | prechecking (reading : Int) | spawning | looping (at_ : Loop)
  | finishing | ended
  deriving DecidableEq

/-- The runner; `iteration` is when the present iteration of the loop began, the check before
the launch being the first. -/
structure Runner where
  phase : Phase := .idle
  sent : Int := 0
  lease : Option LeaseGuard := none
  process : Option PosixProcess := none
  reason : String := ""
  executionDeadline : Int := 0
  iteration : Int := 0
  deriving DecidableEq

namespace Runner

/-- The child may be running, so that iterations have to follow each other. -/
def supervises (r : Runner) : Bool :=
  match r.phase with
  | .prechecking _ | .spawning | .looping _ => true
  | _ => false

def childRunning (r : Runner) : Bool := r.process.any fun process => process.child = .running

inductive Act where
  /-- The clock is read and the first `Start` is sent. -/
  | call
  | startReply
  | readBeforeLaunch
  | checkBeforeLaunch
  | spawn
  | iterate
  | ask (stopRequested : Bool)
  | readLease
  | compareLease
  | readDeadline
  | stop
  | poll (reaped : Bool)
  | childExit
  /-- An exception leaves `run_attempt`; the destructor kills the child. -/
  | unwind
  | finish
  deriving DecidableEq

def close (r : Runner) : Runner :=
  { r with phase := .ended, lease := none, process := r.process.map (·.kill) }

def stopFor (r : Runner) (reason : String) : Runner :=
  { r with reason := reason, phase := .looping .stopping }

/-- One step of `run_attempt` at the client's time `now`; `spec` is in the reply to `Start`. -/
def step (timing : Timing) (spec : Option RunSpec) (now : Int) (r : Runner) :
    Act → Option Runner
  | .call => if r.phase = .idle then some { r with phase := .starting, sent := now } else none
  | .startReply => match r.phase, spec with
    | .starting, some spec =>
      some { r with
        phase := .preparing
        lease := some (.create now r.sent timing.leaseSeconds)
        executionDeadline := r.sent + seconds spec.timeoutSeconds }
    | _, _ => none
  | .readBeforeLaunch =>
    if r.phase = .preparing then some { r with phase := .prechecking now, iteration := now }
    else none
  | .checkBeforeLaunch => match r.phase, r.lease with
    | .prechecking reading, some lease =>
      if lease.nearExpiry reading timing.terminationSeconds then some r.close
      else some { r with phase := .spawning }
    | _, _ => none
  | .spawn =>
    if r.phase = .spawning then some { r with phase := .looping .top, process := some {} } else none
  | .iterate =>
    if r.phase = .looping .top then
      some { r with
        iteration := now
        phase := .looping (if r.reason = "" then .asking else .polling) }
    else none
  | .ask stopRequested =>
    if r.phase = .looping .asking then
      if stopRequested then some (r.stopFor "STOP_REQUESTED")
      else some { r with phase := .looping .leasing }
    else none
  | .readLease => match r.phase, r.lease with
    | .looping .leasing, some lease =>
      if lease.revoked then some (r.stopFor "LEASE_LOST")
      else some { r with phase := .looping (.comparing now) }
    | _, _ => none
  | .compareLease => match r.phase, r.lease with
    | .looping (.comparing reading), some lease =>
      if lease.nearExpiry reading timing.terminationSeconds then some (r.stopFor "LEASE_LOST")
      else some { r with phase := .looping .timing }
    | _, _ => none
  | .readDeadline =>
    if r.phase = .looping .timing then
      if r.executionDeadline ≤ now then some (r.stopFor "TIMEOUT")
      else some { r with phase := .looping .polling }
    else none
  | .stop =>
    if r.phase = .looping .stopping then
      some { r with
        phase := .looping .polling
        process := r.process.map fun process => process.stop now timing.terminationSeconds }
    else none
  | .poll reaped => match r.phase, r.process with
    | .looping .polling, some process =>
      let process := process.killDue now
      if reaped then
        if process.child = .running then none
        else some { r with phase := .finishing, process := some process }
      else some { r with phase := .looping .top, process := some process }
    | _, _ => none
  | .childExit => match r.process with
    | some process =>
      if process.child = .running then
        some { r with process := some { process with child := .exited } }
      else none
    | none => none
  | .unwind => if r.phase = .idle then none else some r.close
  | .finish => if r.phase = .finishing then some r.close else none

end Runner

/-! ## Runner and server -/

/-- One runner process with its identity, and the server it talks to. -/
structure LeaseSetup where
  store : PostgresStore
  id : String
  generation : Int
  instanceId : String
  nodeName : String
  /-- The client's clock minus the server's. The client's host may have started at any time. -/
  offset : Int
  loaded : ∃ setting, loadTiming setting = .ok store.timing

namespace LeaseSetup

variable (c : LeaseSetup)

structure State where
  store : PostgresStore.State
  /-- The server's clock. -/
  now : Int
  runner : Runner := {}
  /-- The specification that an executed `Start` returned. -/
  started : Option RunSpec := none
  /-- When the heartbeats were sent, and which of these the server has accepted. -/
  beats : List Int := []
  answered : List Int := []
  deriving DecidableEq

inductive Act where
  /-- A transaction that is not a `Start` of this runner. -/
  | other (op : Op)
  | executeStart
  | executeHeartbeat (before : Int)
  | wake
  | heartbeatReply
  | heartbeatFailed (unavailable : Bool)
  | main (act : Runner.Act)

structure Event where
  now : Int
  act : Act

/-- `Start` calls with the instance id of this runner come from this runner. -/
def startsAs (op : Op) : Bool :=
  match op with
  | .start _ _ caller _ => caller = c.instanceId
  | _ => false

def startOp : Op := .start c.id c.generation c.instanceId c.nodeName

def heartbeatOp : Op := .heartbeat c.id c.generation c.instanceId

/-- The reading of the client's clock. -/
def reading (s : State) : Int := s.now + c.offset

def execute (op : Op) (s : State) : State :=
  { s with store := ⟨c.store.commit s.now op s.store.db, s.now⟩ }

/-- The specification in the reply to a `Start` that is executed now. -/
def startReply (s : State) : Option RunSpec :=
  match start c.store.timing s.now c.id c.generation c.instanceId c.nodeName s.store.db with
  | .ok (_, assignment) => some assignment.spec
  | .error _ => s.started

def accepts (s : State) : Bool :=
  match heartbeat c.store.timing s.now c.id c.generation c.instanceId s.store.db with
  | .ok _ => true
  | .error _ => false

def act (s : State) : Act → Option State
  | .other op => if c.startsAs op then none else some (c.execute op s)
  | .executeStart =>
    if s.runner.phase = .idle then none
    else some { c.execute c.startOp s with started := c.startReply s }
  | .executeHeartbeat before =>
    if before ∈ s.beats then
      some { c.execute c.heartbeatOp s with
        answered := if c.accepts s then before :: s.answered else s.answered }
    else none
  | .wake => do
    let lease ← s.runner.lease
    let lease ← lease.wake (c.reading s) c.store.timing.heartbeatSeconds
    return { s with runner.lease := some lease, beats := c.reading s :: s.beats }
  | .heartbeatReply => do
    let lease ← s.runner.lease
    let lease ← lease.replied (c.reading s) c.store.timing.leaseSeconds s.answered
    return { s with runner.lease := some lease }
  | .heartbeatFailed unavailable => do
    let lease ← s.runner.lease
    let lease ← lease.failed (c.reading s) unavailable
    return { s with runner.lease := some lease }
  | .main act =>
    -- The steady clock of a host that runs does not read a negative time.
    if 0 ≤ c.reading s then do
      let runner ← s.runner.step c.store.timing s.started (c.reading s) act
      return { s with runner := runner }
    else none

def system : System State Event where
  init := ⟨c.store.system.init, c.store.created, {}, none, [], []⟩
  step s e := if s.now ≤ e.now then c.act { s with now := e.now } e.act else none

/-- An iteration of the supervision loop takes at most 500 ms. -/
def prompt (s : State) (e : Event) : Bool :=
  s.runner.supervises → e.now + c.offset ≤ s.runner.iteration + 500000

end LeaseSetup

end Runyard
