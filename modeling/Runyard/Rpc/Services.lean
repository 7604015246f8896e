import Runyard.Artifacts.Service

/-!
# The RPC services

`services.cpp`: the handlers of `AgentRpc` and `AttemptRpc` with the credentials that they ask for.
An `Upload` is a call of several steps: its first message is authorized, the following ones
only carry data, and the end of the stream hands the file to the artifact service. The steps of
that service and the transactions that come from elsewhere happen in between.
-/

namespace Runyard

/-- The codes of `grpc::StatusCode` that the program names. -/
inductive StatusCode where
  | invalidArgument | unauthenticated | notFound | failedPrecondition | resourceExhausted
  | unavailable
  deriving DecidableEq

structure Status where
  code : StatusCode
  message : String
  deriving DecidableEq

def ErrorCode.status : ErrorCode → StatusCode
  | .invalid => .invalidArgument
  | .unauthorized => .unauthenticated
  | .notFound => .notFound
  | .stale | .conflict => .failedPrecondition
  | .exhausted => .resourceExhausted
  | .unavailable => .unavailable

/-- The clauses of `protect`. -/
def Fault.status : Fault → Status
  | .error code message => ⟨code.status, message⟩
  | .uniqueViolation _ | .outOfRange => ⟨.unavailable, "operation temporarily unavailable"⟩

/-- `wire::Owner`. -/
structure Owner where
  attemptId : String
  generation : Int
  instanceId : String
  nodeName : String := ""
  deriving DecidableEq

/-- `wire::WorkerIdentity`. -/
structure WorkerIdentity where
  id : String
  session : String

inductive AgentRequest where
  | reconcile (attempts : List String)
  | register (capacity : Capacity) (gpu : GpuRegistration)
  | reportGpuInventory (snapshot : GpuSnapshot)
  | heartbeat
  | poll (attempt : RandomId) (locked : List String)
  | reportRuntime (attempt runtime : String) (stopped : Bool)

inductive AttemptRequest where
  | start
  | heartbeat
  | report (records : List Telemetry)
  | beginFinalization
  | complete (exitCode : Int) (reason : String) (finalSequence : Int)

/-- `wire::WorkAssignment`. -/
structure WorkAssignment where
  attemptId : String
  runId : String
  generation : Int
  spec : RunSpec
  capability : String
  gpuUuids : List String

inductive AgentReply where
  | empty
  | decisions (stopAttempts : List String)
  | work (cleanupAttempts : List String) (assignment : Option WorkAssignment)

inductive AttemptReply where
  | empty
  | started (spec : RunSpec) (lease heartbeat termination finalization : Int)
  | ack (sequence lease : Int)

/-- What a handler sees besides its message. -/
structure ServerContext where
  /-- The entry `authorization` of the client metadata. -/
  authorization : Option String
  ready : Bool := true
  cancelled : Bool := false
  deriving DecidableEq

structure RpcServer where
  artifacts : ArtifactService
  /-- The HMAC of a message under a secret. -/
  sign : String → String → String
  signingKey : String
  workerToken : String
  /-- `config_.mode == "docker"`. -/
  docker : Bool := true

/-- The text that `attempt_capability` signs. -/
def capabilityText (id : String) (generation : Int) : String :=
  "attempt:" ++ id ++ ":" ++ toString generation

namespace RpcServer

variable (c : RpcServer)

def store : PostgresStore := c.artifacts.store

def capability (id : String) (generation : Int) : String :=
  c.sign c.signingKey (capabilityText id generation)

def authenticate (context : ServerContext) (token : String) : Result Unit := do
  throwIf (token = "" || context.authorization ≠ some ("Bearer " ++ token)) .unauthorized
    "invalid RPC credentials"
  throwIf (!context.ready) .unavailable "coordinator is not ready"
  throwIf context.cancelled .unavailable "RPC cancelled"

def authorizeAgent (context : ServerContext) : Result Unit := do
  authenticate context c.workerToken
  throwIf (!c.docker) .invalid "Docker agents are disabled in Kubernetes mode"

def authorizeAttempt (context : ServerContext) (owner : Owner) : Result Unit :=
  authenticate context (c.capability owner.attemptId owner.generation)

def workAssignment (x : Assignment) : WorkAssignment where
  attemptId := x.attempt.id
  runId := x.attempt.runId
  generation := x.attempt.generation
  spec := x.spec
  capability := c.capability x.attempt.id x.attempt.generation
  gpuUuids := x.gpuAllocations.map (·.uuid)

/-- The body of a handler of `AgentRpc`. What `Poll` reads before it assigns is read from the same
state. -/
def serveAgent (now : Int) (worker : WorkerIdentity) (request : AgentRequest) (db : Db) :
    Result (Db × AgentReply) :=
  match request with
  | .reconcile attempts => do
    return (db, .decisions (← reconcile worker.id worker.session attempts db))
  | .register capacity gpu => do
    return (← registerWorker now worker.id worker.session capacity gpu db, .empty)
  | .reportGpuInventory snapshot => do
    throwIf (64 < snapshot.devices.length) .invalid "GPU inventory exceeds 64 devices"
    return (← reportGpuInventory now worker.id worker.session snapshot db, .empty)
  | .heartbeat => do
    return (← workerHeartbeat now worker.id worker.session db, .empty)
  | .poll attempt locked => do
    let finished ← cleanup worker.id worker.session db
    let (db, assignment) ← assign c.store.timing now attempt locked worker.id worker.session db
    return (db, .work (finished.map (·.id)) (assignment.map c.workAssignment))
  | .reportRuntime attempt runtime stopped => do
    return (← runtimeReport now worker.id worker.session attempt runtime stopped db, .empty)

/-- The body of a handler of `AttemptRpc` that is not `Upload`. -/
def serveAttempt (now : Int) (owner : Owner) (request : AttemptRequest) (db : Db) :
    Result (Db × AttemptReply) :=
  let timing := c.store.timing
  match request with
  | .start => do
    let (db, a) ← start timing now owner.attemptId owner.generation owner.instanceId
      owner.nodeName db
    return (db, .started a.spec timing.leaseSeconds timing.heartbeatSeconds
      timing.terminationSeconds timing.finalizationSeconds)
  | .heartbeat => do
    let db ← heartbeat timing now owner.attemptId owner.generation owner.instanceId db
    return (db, .ack 0 timing.leaseSeconds)
  | .report records => do
    let (db, sequence) ← report now owner.attemptId owner.generation owner.instanceId records db
    return (db, .ack sequence 0)
  | .beginFinalization => do
    let db ← beginFinalization timing now owner.attemptId owner.generation owner.instanceId db
    return (db, .empty)
  | .complete exitCode reason finalSequence => do
    let db ← finish timing now owner.attemptId owner.generation owner.instanceId exitCode reason
      finalSequence db
    return (db, .empty)

/-- `guard` and `protect` around a handler: what it leaves behind and what it answers. -/
def protect {α : Type} (db : Db) (work : Result (Db × α)) : Db × Except Status α :=
  match work with
  | .ok (db', reply) => (db', .ok reply)
  | .error e => (db, .error e.status)

def agentRpc (now : Int) (context : ServerContext) (worker : WorkerIdentity)
    (request : AgentRequest) (db : Db) : Db × Except Status AgentReply :=
  protect db do
    c.authorizeAgent context
    c.serveAgent now worker request db

def attemptRpc (now : Int) (context : ServerContext) (owner : Owner) (request : AttemptRequest)
    (db : Db) : Db × Except Status AttemptReply :=
  protect db do
    c.authorizeAttempt context owner
    c.serveAttempt now owner request db

/-! ## Uploads and the other calls -/

inductive UploadStage where
  | reading
  /-- Inside the call of `publish` with this number. -/
  | publishing (number : Nat)
  | failed
  deriving DecidableEq

/-- An authorized `Upload`, with the metadata that its first message came with. -/
structure Upload where
  authorization : Option String
  owner : Owner
  relative : String
  checksum : String
  data : Bytes
  stage : UploadStage := .reading

def Upload.call (u : Upload) : Publish where
  attempt := u.owner.attemptId
  generation := u.owner.generation
  caller := u.owner.instanceId
  relative := u.relative
  expected := u.checksum
  file := u.data

structure State where
  service : ArtifactService.State
  uploads : List Upload := []

def State.db (s : State) : Db := s.service.store.db

def State.setUpload (s : State) (number : Nat) (f : Upload → Upload) : State :=
  { s with uploads := s.uploads.modify number f }

inductive Act where
  /-- A transaction of the HTTP API, of recovery or of the Kubernetes controller. -/
  | other (now : Int) (op : Op)
  | agent (now : Int) (context : ServerContext) (worker : WorkerIdentity) (request : AgentRequest)
  | attempt (now : Int) (context : ServerContext) (owner : Owner) (request : AttemptRequest)
  | upload (now : Int) (context : ServerContext) (owner : Owner) (relative checksum : String)
      (data : Bytes)
  | chunk (number : Nat) (data : Bytes)
  | close (number : Nat) (cancelled : Bool)
  | abort (number : Nat)
  /-- A step of the artifact service inside a call of `publish` or `download`. -/
  | service (act : ArtifactService.Act)

/-- The limit of `Upload`. -/
def uploadLimit : Nat := 256 * 1024 * 1024

/-- What `Upload` does with its first message before it opens a file. -/
def beginUpload (now : Int) (context : ServerContext) (owner : Owner) (relative : String)
    (db : Db) : Result Db := do
  c.authorizeAttempt context owner
  validateRelativePath relative
  verifyOwner now owner.attemptId owner.generation owner.instanceId db

/-- The steps that only a handler begins. -/
def inner : ArtifactService.Act → Bool
  | .other _ _ | .publish _ => false
  | _ => true

def step (s : State) : Act → Option State
  | .other now op =>
    (c.artifacts.step s.service (.other now op)).map fun service => { s with service := service }
  | .agent now context worker request =>
    if now < s.service.store.clock then none
    else
      let db := (c.agentRpc now context worker request s.db).1
      some { s with service := { s.service with store := ⟨db, now⟩ } }
  | .attempt now context owner request =>
    if now < s.service.store.clock then none
    else
      let db := (c.attemptRpc now context owner request s.db).1
      some { s with service := { s.service with store := ⟨db, now⟩ } }
  | .upload now context owner relative checksum data =>
    if now < s.service.store.clock then none
    else match c.beginUpload now context owner relative s.db with
      | .ok db => some {
          service := { s.service with store := ⟨db, now⟩ }
          uploads := s.uploads ++ [{
            authorization := context.authorization
            owner := owner
            relative := relative
            checksum := checksum
            data := data
            stage := if uploadLimit < data.length then .failed else .reading }] }
      | .error _ => some s
  | .chunk number data => do
    let u ← s.uploads[number]?
    if u.stage ≠ .reading then none
    else
      let data := u.data ++ data
      let stage := if uploadLimit < data.length then UploadStage.failed else .reading
      some (s.setUpload number fun u => { u with data := data, stage := stage })
  | .close number cancelled => do
    let u ← s.uploads[number]?
    if u.stage ≠ .reading then none
    else if cancelled then some (s.setUpload number fun u => { u with stage := .failed })
    else do
      let service ← c.artifacts.step s.service (.publish u.call)
      some ({ s with service := service }.setUpload number fun u =>
        { u with stage := .publishing s.service.publishes.length })
  | .abort number => do
    let u ← s.uploads[number]?
    if u.stage ≠ .reading then none
    else some (s.setUpload number fun u => { u with stage := .failed })
  | .service act =>
    if inner act then
      (c.artifacts.step s.service act).map fun service => { s with service := service }
    else none

def system (blobs files : String → Option Bytes) : System State Act where
  init := { service := (c.artifacts.system blobs files).init }
  step := c.step

end RpcServer

end Runyard
