import Runyard.Rpc.Client

/-!
# The end of an attempt

`run_attempt` from the exit of the child on: it begins the finalization, flushes the telemetry,
uploads what the child left and reports the outcome last. The files may still change while they are
hashed and sent, and every call may be lost, repeated or executed late.
-/

namespace Runyard

/-- An entry of the iteration over `artifacts`. -/
inductive DirectoryEntry where
  | symlink | regular (relative : String) | other
  deriving DecidableEq

/-- What `run_attempt` finds on its way. -/
structure RunAttempt where
  client : AttemptClient
  /-- The exit status of the child and the reason for its end; `none` when the lease is lost. -/
  launched : Except RunnerException (Option (Int × String))
  /-- The sequence that `reporter.flush` returns. -/
  flushed : Except RunnerException Int
  rootKept : Bool
  entries : List DirectoryEntry
  regular : String → Bool
  /-- What `sha256_file` reads of a file in an attempt to upload it. -/
  hashed : String → Nat → Option Bytes
  /-- What is read of the file after that. -/
  sent : String → Nat → Bytes

/-- The exit code that `run_attempt` reports. -/
def reportedCode (status : Int) (reason : String) : Int :=
  if reason ≠ "" && status = 0 then 143 else status

namespace RunAttempt

variable (r : RunAttempt)

def owner : Owner := r.client.owner

def digest : Bytes → String := r.client.server.artifacts.digest

def uploadOnce (relative : String) (attempt : Nat) : RunnerCall Unit :=
  match r.hashed relative attempt with
  | none => .throw (.other "cannot open file for checksum")
  | some content => do
    let hash := r.digest content
    match ← RunnerCall.rpc (.upload relative hash (r.sent relative attempt)) with
    | .uploaded sha256 sentAll =>
      if !sentAll || sha256 ≠ hash then .throw (.error .unavailable "artifact transfer incomplete")
      else return ()
    | .unary _ => return ()

def uploadFile (relative : String) : RunnerCall Unit :=
  if r.regular relative then RunnerCall.transfer (r.uploadOnce relative)
  else .throw (.error .invalid "artifact must be a regular file, not a symlink")

def uploadEntry : DirectoryEntry → RunnerCall Unit
  | .symlink => .throw (.error .invalid "artifact symlinks are not supported")
  | .other => return ()
  | .regular relative =>
    if relative = "_runyard" || startsWith relative "_runyard/" then
      .throw (.error .invalid "_runyard artifact namespace is reserved")
    else r.uploadFile relative

def uploadEntries : List DirectoryEntry → RunnerCall Unit
  | [] => return ()
  | entry :: rest => do
    r.uploadEntry entry
    uploadEntries rest

def finalize (status : Int) (reason : String) : RunnerCall Int := do
  let _ ← RunnerCall.unary .beginFinalization
  let sequence ← r.flushed
  if !r.rootKept then
    .throw (.error .invalid "artifact root must remain a directory, not a symlink")
  else do
    r.uploadEntries r.entries
    r.uploadFile "_runyard/stdout.log"
    r.uploadFile "_runyard/stderr.log"
    let _ ← RunnerCall.unary (.complete (reportedCode status reason) reason sequence)
    return status

def run : RunnerCall Int := do
  let _ ← RunnerCall.unary .start
  match ← r.launched with
  | none => return 1
  | some (status, reason) => r.finalize status reason

abbrev State : Type :=
  Service.State r.client.State AttemptCall (Except Status AttemptAnswer) RunnerException Int Unit

/-- A step of the runner, or of the coordinator without it. -/
abbrev Act : Type := Service.Act (Except Status AttemptAnswer) (Option Execution) Elsewhere Unit

/-- The runner against the coordinator in the state `s`. -/
def system (s : r.client.State) : System r.State Act := r.client.service.system r.run s

/-! ## What an outcome stands for -/

/-- An artifact holds what one attempt to upload the file read of it. -/
def Recorded (relative : String) (s : r.client.State) : Prop :=
  ∃ row ∈ s.db.artifacts, ∃ attempt ≤ 2, ∃ content, r.hashed relative attempt = some content ∧
    row.attemptId = r.owner.attemptId ∧ row.path = relative ∧ row.sha256 = r.digest content ∧
    row.size = content.length

/-- What the upload of an entry that did not throw leaves behind. -/
def Uploaded (s : r.client.State) : DirectoryEntry → Prop
  | .symlink => False
  | .other => True
  | .regular relative => ¬ startsWith relative "_runyard/" ∧ r.Recorded relative s

/-- The outcome is that of the child, and everything that the child left was delivered before. -/
structure Complete (exitCode sequence : Int) (s : r.client.State) : Prop where
  child : ∃ status reason, r.launched = .ok (some (status, reason)) ∧
    exitCode = reportedCode status reason
  telemetry : r.flushed = .ok sequence
  artifacts : ∀ entry ∈ r.entries, r.Uploaded s entry
  stdout : r.Recorded "_runyard/stdout.log" s
  stderr : r.Recorded "_runyard/stderr.log" s

/-- Whatever outcome of this instance is recorded, or may still be, is complete. -/
structure Kept (s : r.client.State) : Prop where
  parked : ∀ exitCode reason sequence, .unary (.complete exitCode reason sequence) ∈ s.parked →
    r.Complete exitCode sequence s
  reported : ∀ a ∈ s.db.attempts, a.id = r.owner.attemptId →
    a.instanceId = some r.owner.instanceId → ∀ exitCode, a.exitCode = some exitCode →
    r.Complete exitCode a.ackSequence s

abbrev Later (s t : r.client.State) : Prop := r.client.server.store.system.Later s.store t.store

def contract : Contract r.client.State AttemptCall where
  rely _ s t := r.Later s t
  guarantee s t := r.Later s t ∧ (r.Kept s → r.Kept t)
  refl _ _ := .refl
  trans _ _ _ _ first second := first.trans second
  still _ := ⟨.refl, id⟩
  covers _ _ _ h := h.1

variable {r} {s t : r.client.State}

theorem Recorded.later {relative : String} (recorded : r.Recorded relative s)
    (later : r.Later s t) : r.Recorded relative t := by
  obtain ⟨row, hrow, rest⟩ := recorded
  exact ⟨row, (PostgresStore.artifacts_later s.reachable later).subset hrow, rest⟩

theorem Uploaded.later {entry : DirectoryEntry} (uploaded : r.Uploaded s entry)
    (later : r.Later s t) : r.Uploaded t entry := by
  cases entry with
  | symlink => exact uploaded
  | other => trivial
  | regular relative => exact ⟨uploaded.1, uploaded.2.later later⟩

theorem Complete.later {exitCode sequence : Int} (complete : r.Complete exitCode sequence s)
    (later : r.Later s t) : r.Complete exitCode sequence t where
  child := complete.child
  telemetry := complete.telemetry
  artifacts entry hentry := (complete.artifacts entry hentry).later later
  stdout := complete.stdout.later later
  stderr := complete.stderr.later later

theorem Later.of_store (store : t.store = s.store) : r.Later s t := by
  rw [Later, store]
  exact .refl

/-- The requests that were given up may be others, if they are complete. -/
theorem Kept.park (kept : r.Kept s) (store : t.store = s.store)
    (parked : ∀ exitCode reason sequence,
      .unary (.complete exitCode reason sequence) ∈ t.parked → r.Complete exitCode sequence s) :
    r.Kept t := by
  have later : r.Later s t := .of_store store
  constructor
  · intro exitCode reason sequence hcall
    exact (parked exitCode reason sequence hcall).later later
  · intro a ha hid hinstance exitCode hexit
    rw [CoordinatorStore.db, store] at ha
    exact (kept.reported a ha hid hinstance exitCode hexit).later later

/-- A transaction keeps the outcomes complete, if it does not report an incomplete one. -/
theorem Kept.commit (kept : r.Kept s) {now : Int} {op : Op} (clock : s.store.clock ≤ now)
    (store : t.store = ⟨r.client.server.store.commit now op s.db, now⟩)
    (parked : ∀ call ∈ t.parked, call ∈ s.parked)
    (reports : ∀ generation exitCode reason sequence,
      op = .finish r.owner.attemptId generation r.owner.instanceId exitCode reason sequence →
      r.Complete exitCode sequence s) : r.Kept t := by
  have later : r.Later s t := by
    rw [Later, store]
    exact .single (e := ⟨now, op⟩) trivial (if_pos clock)
  constructor
  · intro exitCode reason sequence hcall
    exact (kept.parked exitCode reason sequence (parked _ hcall)).later later
  · intro a ha hid hinstance exitCode hexit
    rw [CoordinatorStore.db, store] at ha
    rcases exitCode_from s.reachable clock ha hexit with
      ⟨b, hb, sameId, sameInstance, hexit', sameSequence⟩ |
      ⟨generation, caller, reason, howner, rfl⟩
    · have old := kept.reported b hb (sameId.trans hid) (sameInstance.trans hinstance) _ hexit'
      rw [sameSequence] at old
      exact old.later later
    · rw [hinstance, Option.some.injEq] at howner
      subst howner
      exact (reports generation exitCode reason _ (by rw [← hid])).later later

/-- What the client promises when it sends the call. -/
def Warranted (call : AttemptCall) (s : r.client.State) : Prop :=
  ∀ exitCode reason sequence, call = .unary (.complete exitCode reason sequence) →
    r.Complete exitCode sequence s

theorem execute_later (k : Execution) (call : AttemptCall) :
    r.Later s (r.client.execute k s call).2 := by
  rcases AttemptClient.execute_moves k s call with same | moves
  · rw [same]
    exact .refl
  · exact moves.later

theorem execute_kept {call : AttemptCall} (warranted : r.Warranted call s) (k : Execution)
    (kept : r.Kept s) : r.Kept (r.client.execute k s call).2 := by
  rcases AttemptClient.execute_moves k s call with same | moves
  · rw [same]
    exact kept
  · obtain ⟨op, store, reported⟩ := moves.commits
    refine kept.commit moves.clock store ?_ ?_
    · intro other hother
      rwa [moves.parked] at hother
    · intro generation exitCode reason sequence hop
      exact warranted exitCode reason sequence (reported _ _ _ _ _ _ hop)

theorem handle_guarantee {call : AttemptCall} (warranted : r.Warranted call s)
    (k : Option Execution) : r.contract.guarantee s (r.client.handle k s call).2 := by
  cases k with
  | some k => exact ⟨execute_later k call, execute_kept warranted k⟩
  | none =>
    refine ⟨.refl, fun kept => kept.park rfl fun exitCode reason sequence hcall => ?_⟩
    rcases List.mem_append.mp hcall with old | new
    · exact kept.parked exitCode reason sequence old
    · exact warranted exitCode reason sequence (List.mem_singleton.mp new).symm

theorem elsewhere_guarantee {d : Elsewhere} (h : r.client.elsewhere d s = some t) :
    r.Later s t ∧ (r.Kept s → r.Kept t) := by
  cases d with
  | other now op =>
    simp only [AttemptClient.elsewhere] at h
    split at h
    · cases h
    next foreign =>
    split at h
    next clock =>
      cases h
      refine ⟨.single (e := ⟨now, op⟩) trivial (if_pos clock), fun kept => ?_⟩
      refine kept.commit clock rfl (fun _ hcall => hcall) ?_
      rintro generation exitCode reason sequence rfl
      exact absurd (by simp [AttemptClient.reports, owner]) foreign
    · cases h
  | execute number k =>
    obtain ⟨call, hcall, hnext⟩ := Option.bind_eq_some_iff.mp h
    cases hnext
    have later : r.Later s (r.client.execute k s call).2 := execute_later k call
    refine ⟨later, fun kept => ?_⟩
    have warranted : r.Warranted call s := by
      rintro exitCode reason sequence rfl
      exact kept.parked exitCode reason sequence (List.mem_of_getElem? hcall)
    refine (execute_kept warranted k kept).park rfl fun exitCode reason sequence hparked => ?_
    have old := kept.parked exitCode reason sequence (List.mem_of_mem_eraseIdx hparked)
    exact old.later later

/-! ## The program is safe -/

section Programs

variable {α : Type} {post : r.client.State → α → Prop}

theorem rpc_safe {call : AttemptCall} (warranted : ∀ t, r.Later s t → r.Warranted call t) :
    r.client.service.Safe r.contract (fun t _ => AttemptClient.Accepted call t)
      (RunnerCall.rpc call) s := by
  intro t moved
  refine ⟨fun k => ⟨handle_guarantee (warranted t moved) k, ?_⟩, fun _ _ fails => by cases fails⟩
  change r.client.service.Safe r.contract _ (.done (checkRpc (r.client.handle k t call).1))
    (r.client.handle k t call).2
  cases h : (r.client.handle k t call).1 with
  | error status => trivial
  | ok answer => exact fun u later => (AttemptClient.handle_accepted h).later later

/-- Every repetition is safe when the operation is, from any later state on. -/
theorem retryTransfer_safe {operation : Nat → RunnerCall α}
    (safe : ∀ attempt ≤ 2, ∀ t, r.Later s t →
      r.client.service.Safe r.contract post (operation attempt) t) (left : Nat) :
    ∀ attempt t, attempt + left ≤ 2 → r.Later s t →
      r.client.service.Safe r.contract post (RunnerCall.retryTransfer operation attempt left)
        t := by
  induction left with
  | zero => exact fun attempt t bound later => safe attempt bound t later
  | succ left ih =>
    intro attempt t bound later
    refine (safe attempt (by omega) t later).rescue (r.Later s) later ?_ ?_
    · exact fun _ _ _ moved there => there.trans moved
    · intro e u there
      cases e with
      | other what => trivial
      | error code message =>
        cases code with
        | unavailable => exact ih (attempt + 1) u (by omega) there
        | invalid | unauthorized | notFound | conflict | stale | exhausted => trivial

theorem transfer_safe {operation : Nat → RunnerCall α}
    (safe : ∀ attempt ≤ 2, ∀ t, r.Later s t →
      r.client.service.Safe r.contract post (operation attempt) t) :
    r.client.service.Safe r.contract post (RunnerCall.transfer operation) s :=
  retryTransfer_safe safe 2 0 s (by decide) .refl

theorem unary_safe {request : AttemptRequest}
    (warranted : ∀ t, r.Later s t → r.Warranted (.unary request) t) :
    r.client.service.Safe r.contract (fun t _ => AttemptClient.Accepted (.unary request) t)
      (RunnerCall.unary request) s := by
  refine transfer_safe fun _ _ t later => rpc_safe fun u moved => ?_
  exact warranted u (later.trans moved)

theorem uploadOnce_safe {relative : String} {attempt : Nat} (bound : attempt ≤ 2) :
    r.client.service.Safe r.contract (fun t _ => r.Recorded relative t)
      (r.uploadOnce relative attempt) s := by
  rw [uploadOnce]
  cases hashed : r.hashed relative attempt with
  | none => trivial
  | some content =>
    refine (rpc_safe fun _ _ => by simp [Warranted]).bind fun answer t accepted => ?_
    have recorded : r.Recorded relative t := by
      obtain ⟨row, hrow, bytes, hattempt, path, sha256, size, same⟩ := accepted
      have received := r.client.server.artifacts.injective same
      exact ⟨row, hrow, attempt, bound, content, hashed, hattempt, path, sha256, received ▸ size⟩
    cases answer with
    | unary reply => exact fun u later => recorded.later later
    | uploaded sha256 sentAll =>
      dsimp only
      split
      · trivial
      · exact fun u later => recorded.later later

theorem uploadFile_safe {relative : String} :
    r.client.service.Safe r.contract (fun t _ => r.Recorded relative t) (r.uploadFile relative)
      s := by
  rw [uploadFile]
  split
  · exact transfer_safe fun attempt bound t _ => uploadOnce_safe bound
  · trivial

theorem uploadEntry_safe {entry : DirectoryEntry} :
    r.client.service.Safe r.contract (fun t _ => r.Uploaded t entry) (r.uploadEntry entry) s := by
  cases entry with
  | symlink => trivial
  | other => exact fun _ _ => trivial
  | regular relative =>
    rw [uploadEntry]
    split
    · trivial
    next free =>
      simp only [Bool.or_eq_true, decide_eq_true_eq, not_or] at free
      exact uploadFile_safe.frame (fun _ => ¬ startsWith relative "_runyard/") free.2
        fun _ _ _ _ h => h

theorem uploadEntries_safe {entries : List DirectoryEntry} :
    r.client.service.Safe r.contract (fun t _ => ∀ entry ∈ entries, r.Uploaded t entry)
      (r.uploadEntries entries) s := by
  induction entries generalizing s with
  | nil => exact fun _ _ => by simp
  | cons entry rest ih =>
    refine uploadEntry_safe.bind fun _ t uploaded => ?_
    have both := (@ih t).frame (fun t => r.Uploaded t entry) uploaded
      fun _ _ _ moved h => h.later moved
    exact both.weaken fun _ _ h => List.forall_mem_cons.mpr h

/-- What `run_attempt` stands for when it returns. -/
def Returns (s : r.client.State) (code : Int) : Prop :=
  match r.launched with
  | .ok (some (status, reason)) => code = status ∧ ∃ a ∈ s.db.attempts,
      a.Finished r.owner.attemptId r.owner.generation r.owner.instanceId
        (reportedCode status reason)
  | _ => code = 1

theorem finalize_safe {status : Int} {reason : String}
    (launched : r.launched = .ok (some (status, reason))) :
    r.client.service.Safe r.contract r.Returns (r.finalize status reason) s := by
  rw [finalize]
  refine (unary_safe fun _ _ => by simp [Warranted]).bind fun _ t₁ _ => ?_
  have lifted : r.client.service.Safe r.contract (fun _ sequence => r.flushed = .ok sequence)
      (.done r.flushed) t₁ := Service.Safe.lift fun _ h _ _ => h
  refine lifted.bind fun sequence t₂ flushed => ?_
  split
  · trivial
  refine uploadEntries_safe.bind fun _ t₃ artifacts => ?_
  refine (uploadFile_safe.frame (fun t => ∀ entry ∈ r.entries, r.Uploaded t entry)
    artifacts ?_).bind fun _ t₄ first => ?_
  · exact fun _ _ _ moved h entry hentry => (h entry hentry).later moved
  refine (uploadFile_safe.frame (fun t => (∀ entry ∈ r.entries, r.Uploaded t entry) ∧
    r.Recorded "_runyard/stdout.log" t) first ?_).bind fun _ t₅ both => ?_
  · exact fun _ _ _ moved h => ⟨fun entry hentry => (h.1 entry hentry).later moved,
      h.2.later moved⟩
  obtain ⟨⟨artifacts, stdout⟩, stderr⟩ := both
  have complete : r.Complete (reportedCode status reason) sequence t₅ :=
    ⟨⟨status, reason, launched, rfl⟩, flushed, artifacts, stdout, stderr⟩
  refine (unary_safe ?_).bind fun _ t₆ accepted => ?_
  · intro t later exitCode reason' sequence' hcall
    cases hcall
    exact complete.later later
  · intro t later
    rw [Returns, launched]
    exact ⟨rfl, AttemptClient.Accepted.later accepted later⟩

theorem run_safe (s : r.client.State) : r.client.service.Safe r.contract r.Returns r.run s := by
  refine (unary_safe fun _ _ => by simp [Warranted]).bind fun _ t₁ _ => ?_
  have lifted : r.client.service.Safe r.contract (fun _ launched => r.launched = .ok launched)
      (.done r.launched) t₁ := Service.Safe.lift fun _ h _ _ => h
  refine lifted.bind fun result t₂ launched => ?_
  cases result with
  | none =>
    intro t later
    rw [Returns, launched]
  | some child => exact finalize_safe launched

end Programs

/-- An outcome stands for complete outputs. However often calls are lost, repeated or executed late,
and whatever else commits: once the row of the attempt shows an exit code of this runner, it is the
one of the child, all telemetry up to the flushed sequence is acknowledged, and every file that the
child left is an artifact with the content that was read of it. A runner that returns has reported
its outcome or had lost its lease. -/
theorem reported_outputs (r : RunAttempt) {s : r.client.State} {u : r.State} (idle : s.parked = [])
    (fresh : ∀ a ∈ s.db.attempts, a.instanceId ≠ some r.owner.instanceId)
    (run : (r.system s).Reachable u) :
    (∀ a ∈ u.service.db.attempts, a.id = r.owner.attemptId →
      a.instanceId = some r.owner.instanceId → ∀ exitCode, a.exitCode = some exitCode →
      r.Complete exitCode a.ackSequence u.service) ∧
    ∀ code ∈ u.returned, r.Returns u.service code := by
  have start : r.Kept s := by
    constructor
    · intro exitCode reason sequence hcall
      rw [idle] at hcall
      cases hcall
    · exact fun a ha _ hinstance => absurd hinstance (fresh a ha)
  have drifts (t t' : r.client.State) (d : Elsewhere) (h : r.client.elsewhere d t = some t') :
      r.contract.guarantee t t' := elsewhere_guarantee h
  obtain ⟨good, kept⟩ := Service.Good.run (P := r.Kept) run (Service.Good.init s) start run_safe
    (fun u d t _ h => ⟨(drifts _ _ d h).1, fun _ _ _ => (drifts _ _ d h).1⟩)
    (fun _ _ guaranteed => guaranteed.2) (fun d t t' h => (drifts t t' d h).2)
  exact ⟨kept.reported, fun code hcode => good.2 code hcode _ .refl⟩

/-! ## A small attempt -/

namespace Sample

def attempt : RunAttempt where
  client := {
    server := RpcServer.Sample.server
    owner := RpcServer.Sample.owner
    token := RpcServer.Sample.server.capability RpcServer.Sample.attempt 1 }
  launched := .ok (some (0, ""))
  flushed := .ok 0
  rootKept := true
  entries := [.regular "model.bin"]
  regular _ := true
  hashed _ _ := some [1, 2, 255]
  sent _ _ := [1, 2, 255]

def assigned : attempt.client.State where
  store := Runyard.Sample.assigned
  reachable := Runyard.Sample.assigned_reachable

/-- The first completion times out and is executed after its repetition. -/
def events : List Act :=
  [.begin (), .answer () (some { now := 4 }), .answer () (some { now := 5 }),
    .answer () (some { now := 6, received := 3 }), .answer () (some { now := 7, received := 3 }),
    .answer () (some { now := 8, received := 3 }), .answer () none,
    .answer () (some { now := 9 }), .drift (.execute 0 { now := 10 }), .finish ()]

theorem returned : ((attempt.system assigned).replay (fun _ _ => true)
    (attempt.system assigned).init events).map (fun u =>
    (u.service.db.attempts.map fun a => (a.id, a.instanceId, a.exitCode),
      u.service.db.artifacts.length, u.returned)) =
    some ([(RpcServer.Sample.attempt, some "runner", some 0)], 3, [0]) := by decide +kernel

end Sample

theorem reported_outputs_late :
    ∃ u : Sample.attempt.State, (Sample.attempt.system Sample.assigned).Reachable u ∧
      (∃ a ∈ u.service.db.attempts, Sample.attempt.Complete 0 a.ackSequence u.service) ∧
      Sample.attempt.Returns u.service 0 := by
  obtain ⟨u, hreplay, hfacts⟩ := Option.map_eq_some_iff.mp Sample.returned
  obtain ⟨hrows, hrest⟩ := Prod.mk.inj hfacts
  obtain ⟨a, hall, hrow⟩ := List.map_eq_singleton_iff.mp hrows
  obtain ⟨hid, hinstance, hexit⟩ := by simpa using hrow
  have run := System.replay_reachable hreplay
  obtain ⟨reported, returned⟩ := reported_outputs Sample.attempt (s := Sample.assigned) rfl
    (by decide +kernel) run
  have ha : a ∈ u.service.db.attempts := hall ▸ List.mem_singleton_self a
  refine ⟨u, run, ⟨a, ha, reported a ha hid hinstance 0 hexit⟩, returned 0 ?_⟩
  rw [(Prod.mk.inj hrest).2]
  exact List.mem_singleton_self 0

end RunAttempt

end Runyard
