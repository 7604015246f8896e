import Runyard.Rpc.Confinement
import Runyard.Run.Completion
import Runyard.Remote

/-!
# The client of a runner

`AttemptClient` of `client.cpp` against the coordinator. A call that gets no answer in time ends
with a status that the client takes for `unavailable`; the coordinator may still execute its
request, at any later moment and once.
-/

namespace Runyard

/-- What a runner throws: an `Error`, or another exception. -/
inductive RunnerException where
  | error (code : ErrorCode) (message : String)
  | other (what : String)

/-- The code that `check_rpc` throws. -/
def StatusCode.error : StatusCode → ErrorCode
  | .failedPrecondition => .stale
  | .notFound => .notFound
  | .invalidArgument => .invalid
  | .unauthenticated => .unauthorized
  | .resourceExhausted | .unavailable => .unavailable

inductive AttemptCall where
  | unary (request : AttemptRequest)
  | upload (relative checksum : String) (data : Bytes)

inductive AttemptAnswer where
  | unary (reply : AttemptReply)
  /-- The checksum of the reply, and whether all of the file was written to the stream. -/
  | uploaded (sha256 : String) (sentAll : Bool)

abbrev RunnerCall := Remote AttemptCall (Except Status AttemptAnswer) RunnerException

def checkRpc : Except Status AttemptAnswer → Except RunnerException AttemptAnswer
  | .ok answer => .ok answer
  | .error status => .error (.error status.code.error status.message)

namespace RunnerCall

def throw {α : Type} (e : RunnerException) : RunnerCall α := .done (.error e)

def rpc (call : AttemptCall) : RunnerCall AttemptAnswer := do
  let answer ← Remote.request call
  checkRpc answer

/-- `retry_transfer`: what is left of the attempts after the one with this number. -/
def retryTransfer {α : Type} (operation : Nat → RunnerCall α) (attempt : Nat) :
    Nat → RunnerCall α
  | 0 => operation attempt
  | left + 1 => (operation attempt).rescue fun
    | .error .unavailable _ => retryTransfer operation (attempt + 1) left
    | e => throw e

def transfer {α : Type} (operation : Nat → RunnerCall α) : RunnerCall α :=
  retryTransfer operation 0 2

/-- A unary call with its repetitions. -/
def unary (request : AttemptRequest) : RunnerCall AttemptAnswer :=
  transfer fun _ => rpc (.unary request)

end RunnerCall

/-- A runner with its identity and the token that it was started with. -/
structure AttemptClient where
  server : RpcServer
  owner : Owner
  token : String

/-- The store of the coordinator, with the requests that were given up and may still be executed. -/
structure CoordinatorStore (p : PostgresStore) where
  store : PostgresStore.State
  reachable : p.system.Reachable store
  parked : List AttemptCall := []

/-- How a call is executed. -/
structure Execution where
  now : Int
  ready : Bool := true
  cancelled : Bool := false
  /-- What a step before the transaction answers, or the connection. -/
  refusal : Option Status := none
  /-- How much of an uploaded file arrives. -/
  received : Nat := 0
  sentAll : Bool := true

/-- A transaction of anybody else, or a request that was given up. The instance of a runner is its
own, so nobody else reports an outcome under it. -/
inductive Elsewhere where
  | other (now : Int) (op : Op)
  | execute (number : Nat) (k : Execution)

namespace CoordinatorStore

variable {p : PostgresStore}

def db (s : CoordinatorStore p) : Db := s.store.db

/-- What a transaction that reads the clock at `now` can leave behind. -/
def Leaves (s : CoordinatorStore p) (now : Int) (db : Db) : Prop :=
  ∃ op, db = p.commit now op s.db

def moved (s : CoordinatorStore p) {now : Int} (clock : s.store.clock ≤ now) {db : Db}
    (h : s.Leaves now db) : CoordinatorStore p where
  store := ⟨db, now⟩
  reachable := by
    obtain ⟨op, rfl⟩ := h
    exact p.reachable_commit s.reachable op clock
  parked := s.parked

end CoordinatorStore

namespace AttemptClient

variable (c : AttemptClient)

abbrev State := CoordinatorStore c.server.store

def context (k : Execution) : ServerContext := ⟨some ("Bearer " ++ c.token), k.ready, k.cancelled⟩

/-- The call of `publish` that an upload ends in. -/
def publish (relative checksum : String) (file : Bytes) : Publish where
  attempt := c.owner.attemptId
  generation := c.owner.generation
  caller := c.owner.instanceId
  relative := relative
  expected := checksum
  file := file

def published (call : Publish) : Op :=
  .publishArtifact (c.server.artifacts.artifact call) call.generation call.caller

variable {c}

theorem leaves_attemptRpc (s : c.State) (now : Int) (context : ServerContext)
    (request : AttemptRequest) :
    s.Leaves now (c.server.attemptRpc now context c.owner request s.db).1 := by
  have cases : (c.server.attemptRpc now context c.owner request s.db).1 = s.db ∨ _ :=
    RpcServer.attemptRpc_cases c.owner request
  rcases cases with same | ⟨_, happly⟩
  · exact ⟨.verifyOwner "" 0 "", same.trans c.server.store.commit_verifyOwner.symm⟩
  · exact ⟨request.op c.owner, by rw [PostgresStore.commit, happly]⟩

variable (c)

/-- What the coordinator does with a call that gets through. -/
def serve (k : Execution) (s : c.State) (clock : s.store.clock ≤ k.now) :
    AttemptCall → Except Status AttemptAnswer × c.State
  | .unary request =>
    ((c.server.attemptRpc k.now (c.context k) c.owner request s.db).2.map .unary,
      s.moved clock (leaves_attemptRpc s k.now (c.context k) request))
  | .upload relative checksum data =>
    let call := c.publish relative checksum (data.take k.received)
    match c.server.artifacts.inspect call with
    | .error e => (.error e.status, s)
    | .ok () =>
      match publishArtifact k.now (c.server.artifacts.artifact call) call.generation call.caller
          s.db with
      | .error e => (.error e.status, s)
      | .ok (_, row) =>
        (.ok (.uploaded row.sha256 k.sentAll), s.moved clock ⟨c.published call, rfl⟩)

def execute (k : Execution) (s : c.State) (call : AttemptCall) :
    Except Status AttemptAnswer × c.State :=
  if clock : s.store.clock ≤ k.now then
    match k.refusal with
    | some status => (.error status, s)
    | none => c.serve k s clock call
  else (.error ⟨.unavailable, ""⟩, s)

/-- Without an execution the deadline of the call passes first. -/
def handle (k : Option Execution) (s : c.State) (call : AttemptCall) :
    Except Status AttemptAnswer × c.State :=
  match k with
  | none => (.error ⟨.unavailable, "Deadline Exceeded"⟩, { s with parked := s.parked ++ [call] })
  | some k => c.execute k s call

/-- The transaction reports an outcome of this instance. -/
def reports : Op → Bool
  | .finish id _ caller _ _ _ => id = c.owner.attemptId && caller = c.owner.instanceId
  | _ => false

def elsewhere (d : Elsewhere) (s : c.State) : Option c.State :=
  match d with
  | .other now op =>
    if c.reports op then none
    else if clock : s.store.clock ≤ now then some (s.moved clock ⟨op, rfl⟩)
    else none
  | .execute number k => do
    let call ← s.parked[number]?
    some { (c.execute k s call).2 with parked := s.parked.eraseIdx number }

def service : Service c.State AttemptCall (Except Status AttemptAnswer) (Option Execution)
    Elsewhere where
  handle := c.handle
  fails := fun _ _ => false
  drift := c.elsewhere

/-! ## What a call leaves behind -/

variable {c}

/-- What an accepted call stands for from then on. -/
def Accepted (call : AttemptCall) (s : c.State) : Prop :=
  match call with
  | .unary (.complete exitCode _ _) => ∃ a ∈ s.db.attempts,
      a.Finished c.owner.attemptId c.owner.generation c.owner.instanceId exitCode
  | .upload relative checksum _ => ∃ row ∈ s.db.artifacts, ∃ bytes,
      row.attemptId = c.owner.attemptId ∧ row.path = relative ∧ row.sha256 = checksum ∧
      row.size = bytes.length ∧ c.server.artifacts.digest bytes = checksum
  | _ => True

theorem Accepted.later {call : AttemptCall} {s t : c.State} (accepted : Accepted call s)
    (later : c.server.store.system.Later s.store t.store) : Accepted call t := by
  cases call with
  | upload relative checksum data =>
    obtain ⟨row, hrow, rest⟩ := accepted
    exact ⟨row, (PostgresStore.artifacts_later s.reachable later).subset hrow, rest⟩
  | unary request =>
    cases request with
    | complete exitCode reason finalSequence =>
      obtain ⟨a, ha, finished⟩ := accepted
      obtain ⟨a', ha', settles⟩ := settled_later s.reachable later a ha finished.over
      exact ⟨a', ha', finished.settles settles⟩
    | start | heartbeat | report | beginFinalization => trivial

/-- How an execution moves the coordinator: by one transaction, which reports an outcome only for
a call that does. -/
structure Moves (now : Int) (call : AttemptCall) (s t : c.State) : Prop where
  clock : s.store.clock ≤ now
  parked : t.parked = s.parked
  commits : ∃ op, t.store = ⟨c.server.store.commit now op s.db, now⟩ ∧
    ∀ id generation caller exitCode reason finalSequence,
      op = .finish id generation caller exitCode reason finalSequence →
      call = .unary (.complete exitCode reason finalSequence)

theorem Moves.later {now : Int} {call : AttemptCall} {s t : c.State} (moves : Moves now call s t) :
    c.server.store.system.Later s.store t.store := by
  obtain ⟨op, committed, _⟩ := moves.commits
  rw [committed]
  exact .single (e := ⟨now, op⟩) trivial (if_pos moves.clock)

theorem serve_moves (k : Execution) (s : c.State) (clock : s.store.clock ≤ k.now)
    (call : AttemptCall) :
    (c.serve k s clock call).2 = s ∨ Moves k.now call s (c.serve k s clock call).2 := by
  cases call with
  | unary request =>
    refine .inr ⟨clock, rfl, ?_⟩
    have cases : (c.server.attemptRpc k.now (c.context k) c.owner request s.db).1 = s.db ∨ _ :=
      RpcServer.attemptRpc_cases c.owner request
    rcases cases with same | ⟨_, happly⟩
    · have idle : (c.server.attemptRpc k.now (c.context k) c.owner request s.db).1 =
          c.server.store.commit k.now (.verifyOwner "" 0 "") s.db :=
        same.trans c.server.store.commit_verifyOwner.symm
      exact ⟨.verifyOwner "" 0 "", congrArg (PostgresStore.State.mk · k.now) idle, by simp⟩
    · have committed : (c.server.attemptRpc k.now (c.context k) c.owner request s.db).1 =
          c.server.store.commit k.now (request.op c.owner) s.db := by
        rw [PostgresStore.commit, happly]
      refine ⟨request.op c.owner, congrArg (PostgresStore.State.mk · k.now) committed, ?_⟩
      intro id generation caller exitCode reason finalSequence reported
      cases request with
      | complete =>
        cases reported
        rfl
      | start | heartbeat | report | beginFinalization => cases reported
  | upload relative checksum data =>
    simp only [serve]
    split
    · exact .inl rfl
    split
    · exact .inl rfl
    · exact .inr ⟨clock, rfl, _, rfl, by simp [published]⟩

theorem publish_accepted {now : Int} {relative checksum : String} {bytes : Bytes} {db db' : Db}
    {row : Artifact} (same : c.server.artifacts.digest bytes = checksum)
    (published : publishArtifact now
      (c.server.artifacts.artifact (c.publish relative checksum bytes)) c.owner.generation
      c.owner.instanceId db = .ok (db', row)) :
    ∃ row ∈ db'.artifacts, ∃ bytes, row.attemptId = c.owner.attemptId ∧ row.path = relative ∧
      row.sha256 = checksum ∧ row.size = bytes.length ∧
      c.server.artifacts.digest bytes = checksum := by
  obtain ⟨_, ⟨rfl, known, path, sha256, size⟩ | ⟨rfl, inserts⟩⟩ := publishArtifact_ok published
  · obtain ⟨hrow, attempt⟩ := List.mem_filter.mp known
    exact ⟨row, hrow, bytes, of_decide_eq_true attempt, path, sha256.trans same, size, same⟩
  · refine ⟨c.server.artifacts.artifact (c.publish relative checksum bytes), ?_, bytes, rfl, rfl,
      same, rfl, same⟩
    rw [inserts.rows]
    exact List.mem_append_right _ List.mem_cons_self

theorem serve_accepted {k : Execution} {s : c.State} {clock : s.store.clock ≤ k.now}
    {call : AttemptCall} {answer : AttemptAnswer} (h : (c.serve k s clock call).1 = .ok answer) :
    Accepted call (c.serve k s clock call).2 := by
  cases call with
  | unary request =>
    cases request with
    | complete exitCode reason finalSequence =>
      simp only [serve] at h
      cases hreply : (c.server.attemptRpc k.now (c.context k) c.owner
          (.complete exitCode reason finalSequence) s.db).2 with
      | error status =>
        rw [hreply] at h
        cases h
      | ok reply => exact finish_ok s.reachable (RpcServer.attemptRpc_ok hreply)
    | start | heartbeat | report | beginFinalization => trivial
  | upload relative checksum data =>
    simp only [serve] at h ⊢
    split at h
    · cases h
    next inspected =>
      simp only [ArtifactService.inspect, Result.bind_ok, Result.throwIf_ok] at inspected
      obtain ⟨_, _, _, checked, _⟩ := inspected
      have same : c.server.artifacts.digest (data.take k.received) = checksum :=
        not_not.mp (mt decide_eq_true checked)
      split at h
      · cases h
      next db row published =>
        have applied : c.server.store.apply k.now
            (c.published (c.publish relative checksum (data.take k.received))) s.db = .ok db :=
          Result.map_ok.mpr ⟨_, published, rfl⟩
        have stored : c.server.store.commit k.now
            (c.published (c.publish relative checksum (data.take k.received))) s.db = db := by
          rw [PostgresStore.commit, applied]
        change Accepted _ (s.moved clock ⟨_, rfl⟩)
        simp only [Accepted, CoordinatorStore.db, CoordinatorStore.moved]
        rw [← CoordinatorStore.db, stored]
        exact publish_accepted same published

theorem execute_cases (k : Execution) (s : c.State) (call : AttemptCall) :
    (∃ status, c.execute k s call = (.error status, s)) ∨
    ∃ clock, c.execute k s call = c.serve k s clock call := by
  rw [execute]
  split
  next clock =>
    split
    · exact .inl ⟨_, rfl⟩
    · exact .inr ⟨clock, rfl⟩
  · exact .inl ⟨_, rfl⟩

theorem execute_moves (k : Execution) (s : c.State) (call : AttemptCall) :
    (c.execute k s call).2 = s ∨ Moves k.now call s (c.execute k s call).2 := by
  rcases execute_cases k s call with ⟨status, refused⟩ | ⟨clock, served⟩
  · rw [refused]
    exact .inl rfl
  · rw [served]
    exact serve_moves k s clock call

theorem execute_accepted {k : Execution} {s : c.State} {call : AttemptCall}
    {answer : AttemptAnswer} (h : (c.execute k s call).1 = .ok answer) :
    Accepted call (c.execute k s call).2 := by
  rcases execute_cases k s call with ⟨status, refused⟩ | ⟨clock, served⟩
  · rw [refused] at h
    cases h
  · rw [served] at h ⊢
    exact serve_accepted h

theorem handle_accepted {k : Option Execution} {s : c.State} {call : AttemptCall}
    {answer : AttemptAnswer} (h : (c.handle k s call).1 = .ok answer) :
    Accepted call (c.handle k s call).2 := by
  cases k with
  | none => cases h
  | some k => exact execute_accepted h

end AttemptClient

end Runyard
