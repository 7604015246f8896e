import Runyard.Requests.Keys
import Runyard.Run.Lineage

/-!
# The HTTP interface

`dispatch` of `api.cpp` with the handlers that create runs. A request comes as text and a reply
goes as the value that it shows. A key stands for what was requested under it: the run or sweep that
it leads to has the specification whose encoding was hashed.
-/

namespace Runyard

def errorStatus : ErrorCode → Nat × String
  | .invalid => (400, "invalid_request")
  | .notFound => (404, "not_found")
  | .conflict => (409, "conflict")
  | .unauthorized => (401, "unauthorized")
  | .stale => (409, "stale_attempt")
  | .exhausted => (429, "resource_exhausted")
  | .unavailable => (503, "unavailable")

/-- The handlers that create runs, with what the path captures. -/
inductive Route where
  | runs | sweeps
  | rerun (id : String)

structure HttpRequest where
  authorization : String
  route : Route
  idempotencyKey : String
  body : String

inductive HttpReply where
  | value (response : Response)
  | error (status : Nat) (code message : String)

/-- The reply for what the work of a handler throws. -/
def Thrown.reply : Thrown → HttpReply
  | .program (.error code message) => .error (errorStatus code).1 (errorStatus code).2 message
  | .json _ => .error 400 "invalid_request" "malformed JSON request"
  | .program _ => .error 503 "unavailable" "operation temporarily unavailable"

/-- The reply for what the service returns or throws. -/
def HttpReply.of : Result Response → HttpReply
  | .ok response => .value response
  | .error e => (Thrown.program e).reply

/-- How the server takes a request, and the identifiers that its transaction draws. -/
structure Reception where
  now : Int
  ready : Bool := true
  queued : Bool := true
  randomId : Nat → RandomId

structure Api where
  runs : RunService
  token : String

namespace Api

variable (api : Api)

def parse (body : String) : Decoding (Json Number) :=
  match api.runs.printer.parse body with
  | some j => .ok j
  | none => .error (.json "parse error")

/-- What a handler decodes before it calls the service. -/
def decode (r : HttpRequest) : Decoding Request :=
  match r.route with
  | .runs => do
    let spec ← decodeSpec (← api.parse r.body)
    return .submit spec
  | .sweeps => do
    let spec ← decodeSweep (← api.parse r.body)
    return .sweep spec
  | .rerun id => return .rerun id

/-- The work of a handler in one of the threads of the executor. -/
def work (k : Reception) (r : HttpRequest) (s : RunService.State) : HttpReply × RunService.State :=
  match api.decode r with
  | .error e => (e.reply, s)
  | .ok request =>
    let answer := api.runs.answer k.now ⟨r.idempotencyKey, request, k.randomId⟩ s.db
    (.of answer.outcome, ⟨answer.after, k.now, s.log ++ [answer]⟩)

def dispatch (k : Reception) (r : HttpRequest) (s : RunService.State) :
    HttpReply × RunService.State :=
  if r.authorization ≠ "Bearer " ++ api.token then
    (.error 401 "unauthorized" "valid owner credentials required", s)
  else if !k.ready then (.error 503 "unavailable" "coordinator is not ready", s)
  else if !k.queued then (.error 503 "unavailable" "request queue is full", s)
  else api.work k r s

/-- A request, or a transaction that creates no run. -/
inductive Event where
  | http (k : Reception) (r : HttpRequest)
  | other (now : Int) (op : Op)

def system : System RunService.State Event where
  init := ⟨{}, api.runs.store.created, []⟩
  step s
    | .http k r => if s.clock ≤ k.now then some (api.dispatch k r s).2 else none
    | .other now op =>
      if s.clock ≤ now ∧ op.requests = false then
        some ⟨api.runs.store.commit now op s.db, now, s.log⟩
      else none

end Api

/-- The specifications that a decoder lets through. -/
def Request.Representable : Request → Prop
  | .submit spec => spec.Representable
  | .sweep spec => spec.Representable
  | .rerun _ => True

/-! ## The service between the interface and the store -/

namespace RunService

variable {c : RunService} {now : Int} {call : Call} {db db' : Db}

/-- A request that is answered is a transaction of the store. -/
theorem handle_applied {response : Response} (h : c.handle now call db = .ok (db', response)) :
    ∃ op, c.store.apply now op db = .ok db' := by
  unfold handle at h
  split at h
  next spec _ =>
    obtain ⟨⟨db₁, run⟩, hsubmit, heq⟩ := Result.map_ok.mp h
    obtain ⟨rfl, _⟩ := Prod.mk.inj heq
    simp only [submit, Result.bind_ok] at hsubmit
    obtain ⟨_, _, _, _, ⟨db₂, row⟩, hrow, _, _, hreturn⟩ := hsubmit
    obtain ⟨rfl, _⟩ := Prod.mk.inj (Result.pure_ok.mp hreturn)
    exact ⟨.submit _ spec _ _, Result.map_ok.mpr ⟨_, hrow, rfl⟩⟩
  next spec _ =>
    obtain ⟨⟨db₁, sweep⟩, hsweep, heq⟩ := Result.map_ok.mp h
    obtain ⟨rfl, _⟩ := Prod.mk.inj heq
    simp only [RunService.sweep, Result.bind_ok] at hsweep
    obtain ⟨_, _, runs, _, ⟨db₂, found⟩, hfound, _, _, hreturn⟩ := hsweep
    obtain ⟨rfl, _⟩ := Prod.mk.inj (Result.pure_ok.mp hreturn)
    exact ⟨.submitSweep _ spec runs _ _, Result.map_ok.mpr ⟨_, hfound, rfl⟩⟩
  next id _ =>
    obtain ⟨⟨db₁, run⟩, hrerun, heq⟩ := Result.map_ok.mp h
    obtain ⟨rfl, _⟩ := Prod.mk.inj heq
    simp only [rerun, Result.bind_ok] at hrerun
    obtain ⟨_, _, ⟨db₂, row⟩, hrow, _, _, hreturn⟩ := hrerun
    obtain ⟨rfl, _⟩ := Prod.mk.inj (Result.pure_ok.mp hreturn)
    exact ⟨.rerun _ id _, Result.map_ok.mpr ⟨_, hrow, rfl⟩⟩

theorem answer_commits (now : Int) (call : Call) (db : Db) :
    ∃ op, (c.answer now call db).after = c.store.commit now op db := by
  unfold answer
  split
  next after response handled =>
    obtain ⟨op, happly⟩ := handle_applied handled
    exact ⟨op, by rw [PostgresStore.commit, happly]⟩
  · exact ⟨.verifyOwner "" 0 "", c.store.commit_verifyOwner.symm⟩

/-! ### What a key stands for -/

variable (c)

/-- How a run comes to the fingerprint of its key. -/
inductive Source (fingerprint : String) (r : RunRow) : Prop where
  | submitted (root : r.parentRunId = none) (valid : validate r.spec = .ok ())
      (representable : r.spec.Representable) (same : fingerprint = c.fingerprint (.submit r.spec))
  | rerun {id : String} (parent : r.parentRunId = some id)
      (same : fingerprint = c.fingerprint (.rerun id))

/-- The rows that keys lead to have what was requested. -/
structure Sourced (db : Db) : Prop where
  submissions : ∀ m ∈ db.submissions, ∃ r ∈ db.runs, r.id = m.runId ∧ c.Source m.fingerprint r
  sweeps : ∀ w ∈ db.sweeps, w.fingerprint = c.fingerprint (.sweep w.spec) ∧ w.spec.Representable

variable {c}

theorem Source.kept {fingerprint : String} {r r' : RunRow} (source : c.Source fingerprint r)
    (kept : r.Kept r') : c.Source fingerprint r' := by
  cases source with
  | submitted root valid representable same =>
    rw [← kept.spec] at valid representable same
    exact .submitted (kept.parent.trans root) valid representable same
  | rerun parent same => exact .rerun (kept.parent.trans parent) same

namespace Sourced

theorem empty : c.Sourced {} :=
  ⟨fun _ h => absurd h List.not_mem_nil, fun _ h => absurd h List.not_mem_nil⟩

/-- More runs, and rewritten ones. -/
theorem kept (sourced : c.Sourced db) (runs : ∀ r ∈ db.runs, ∃ r' ∈ db'.runs, r.Kept r')
    (submissions : db'.submissions = db.submissions) (sweeps : db'.sweeps = db.sweeps) :
    c.Sourced db' := by
  refine ⟨fun m hm => ?_, sweeps ▸ sourced.sweeps⟩
  rw [submissions] at hm
  obtain ⟨r, hr, hid, source⟩ := sourced.submissions m hm
  obtain ⟨r', hr', keeps⟩ := runs r hr
  exact ⟨r', hr', keeps.id.trans hid, source.kept keeps⟩

/-- A run with its key. -/
theorem created (sourced : c.Sourced db) {r : RunRow} {id key fingerprint : String}
    {birth : Birth} (grown : db'.aside = db.aside.grow [birth] [⟨key, fingerprint, id⟩] [])
    (runs : db'.runs = db.runs ++ [r]) (named : r.id = id) (source : c.Source fingerprint r) :
    c.Sourced db' := by
  have submissions : db'.submissions = db.submissions ++ [⟨key, fingerprint, id⟩] :=
    congrArg Aside.submissions grown
  have sweeps : db'.sweeps = db.sweeps := (congrArg Aside.sweeps grown).trans (List.append_nil _)
  refine ⟨fun m hm => ?_, sweeps ▸ sourced.sweeps⟩
  rw [submissions] at hm
  rw [runs]
  rcases List.mem_append.mp hm with hm | hm
  · obtain ⟨r', hr', found⟩ := sourced.submissions m hm
    exact ⟨r', List.mem_append_left _ hr', found⟩
  · obtain rfl := List.mem_singleton.mp hm
    exact ⟨r, List.mem_append_right _ List.mem_cons_self, named, source⟩

theorem handle (sourced : c.Sourced db) {response : Response}
    (representable : call.request.Representable)
    (h : c.handle now call db = .ok (db', response)) : c.Sourced db' := by
  obtain ⟨key, request, randomId⟩ := call
  cases request with
  | submit spec =>
    obtain ⟨⟨db₁, run⟩, hsubmit, heq⟩ := Result.map_ok.mp h
    obtain ⟨rfl, _⟩ := Prod.mk.inj heq
    simp only [RunService.submit, Result.bind_ok] at hsubmit
    obtain ⟨_, valid, _, _, ⟨db₂, row⟩, hrow, _, _, hreturn⟩ := hsubmit
    obtain ⟨rfl, _⟩ := Prod.mk.inj (Result.pure_ok.mp hreturn)
    obtain ⟨_, valid, _⟩ := Result.bind_ok.mp valid
    rcases submit_cases hrow with ⟨_, _, _, _, rfl⟩ | ⟨_, rfl, grown⟩
    · exact sourced
    · rcases submit_runs hrow with rfl | runs
      · exact sourced
      · exact sourced.created grown runs rfl (.submitted rfl valid representable rfl)
  | sweep spec =>
    obtain ⟨⟨db₁, sweep⟩, hsweep, heq⟩ := Result.map_ok.mp h
    obtain ⟨rfl, _⟩ := Prod.mk.inj heq
    simp only [RunService.sweep, Result.bind_ok] at hsweep
    obtain ⟨_, _, runs, _, ⟨db₂, found⟩, hfound, _, _, hreturn⟩ := hsweep
    obtain ⟨rfl, _⟩ := Prod.mk.inj (Result.pure_ok.mp hreturn)
    rcases submitSweep_cases hfound with ⟨_, _, _, _, rfl⟩ | ⟨_, _, _, grown⟩
    · exact sourced
    · obtain ⟨rows, hrows, _⟩ := submitSweep_runs hfound
      have submissions : db₂.submissions = db.submissions :=
        (congrArg Aside.submissions grown).trans (List.append_nil _)
      have sweeps : db₂.sweeps = db.sweeps ++ [_] := congrArg Aside.sweeps grown
      refine ⟨fun m hm => ?_, fun w hw => ?_⟩
      · obtain ⟨r, hr, source⟩ := sourced.submissions m (submissions ▸ hm)
        exact ⟨r, hrows ▸ List.mem_append_left _ hr, source⟩
      · dsimp only at hw
        rw [sweeps] at hw
        rcases List.mem_append.mp hw with hw | hw
        · exact sourced.sweeps w hw
        · obtain rfl := List.mem_singleton.mp hw
          exact ⟨rfl, representable⟩
  | rerun id =>
    obtain ⟨⟨db₁, run⟩, hrerun, heq⟩ := Result.map_ok.mp h
    obtain ⟨rfl, _⟩ := Prod.mk.inj heq
    simp only [RunService.rerun, Result.bind_ok] at hrerun
    obtain ⟨_, _, ⟨db₂, row⟩, hrow, _, _, hreturn⟩ := hrerun
    obtain ⟨rfl, _⟩ := Prod.mk.inj (Result.pure_ok.mp hreturn)
    rcases rerun_cases hrow with ⟨_, _, _, _, rfl⟩ | ⟨_, old, _, _, rfl, grown⟩
    · exact sourced
    · rcases rerun_runs hrow with rfl | ⟨_, _, _, _, runs⟩
      · exact sourced
      · exact sourced.created grown runs rfl (.rerun rfl rfl)

theorem answer (sourced : c.Sourced db) (now : Int) (representable : call.request.Representable) :
    c.Sourced (c.answer now call db).after := by
  unfold RunService.answer
  split
  next after response handled => exact sourced.handle representable handled
  · exact sourced

end Sourced

end RunService

/-! ## Runs of the interface -/

namespace Api

variable {api : Api} {s s' : RunService.State}

theorem decode_representable {r : HttpRequest} {request : Request}
    (h : api.decode r = .ok request) : request.Representable := by
  unfold decode at h
  split at h
  · simp only [Except.bind_eq_ok, Decoding.lift_result_eq_ok] at h
    obtain ⟨j, _, spec, decoded, hreturn⟩ := h
    cases hreturn
    exact (decodeSpec_accepts decoded).2
  · simp only [Except.bind_eq_ok] at h
    obtain ⟨j, _, spec, decoded, hreturn⟩ := h
    cases hreturn
    have accepted := decodeSweep_accepts decoded
    exact ⟨accepted.representable, fun e he => (accepted.dimensions e he).2⟩
  · cases h
    trivial

/-- What a request can come to: it is refused, or it is one call of the service. -/
inductive Dispatched (api : Api) (k : Reception) (r : HttpRequest) (s : RunService.State) :
    HttpReply × RunService.State → Prop where
  | refused {status : Nat} {code message : String} :
      Dispatched api k r s (.error status code message, s)
  | handled {request : Request} {answer : RunService.Answer} {reply : HttpReply}
      (decoded : api.decode r = .ok request)
      (answered : answer = api.runs.answer k.now ⟨r.idempotencyKey, request, k.randomId⟩ s.db)
      (shows : ∀ response, reply = .value response → answer.outcome = .ok response) :
      Dispatched api k r s (reply, ⟨answer.after, k.now, s.log ++ [answer]⟩)

theorem reply_error (e : Thrown) : ∃ status code message, e.reply = .error status code message := by
  rcases e with _ | _ | _ | _ <;> exact ⟨_, _, _, rfl⟩

theorem of_value {outcome : Result Response} {response : Response}
    (h : HttpReply.of outcome = .value response) : outcome = .ok response := by
  cases outcome with
  | ok found =>
    cases h
    rfl
  | error e =>
    obtain ⟨status, code, message, same⟩ := reply_error (.program e)
    rw [HttpReply.of, same] at h
    cases h

theorem dispatched (api : Api) (k : Reception) (r : HttpRequest) (s : RunService.State) :
    Dispatched api k r s (api.dispatch k r s) := by
  unfold dispatch
  split
  · exact .refused
  split
  · exact .refused
  split
  · exact .refused
  unfold work
  split
  next e _ =>
    obtain ⟨status, code, message, same⟩ := reply_error e
    rw [same]
    exact .refused
  next request decoded =>
    exact .handled decoded rfl fun response shown => of_value shown

theorem step_http {k : Reception} {r : HttpRequest} (h : api.system.step s (.http k r) = some s') :
    s.clock ≤ k.now ∧ s' = (api.dispatch k r s).2 := by
  obtain ⟨clock, moved⟩ := Option.ite_none_right_eq_some.mp h
  exact ⟨clock, (Option.some.inj moved).symm⟩

theorem step_other {now : Int} {op : Op} (h : api.system.step s (.other now op) = some s') :
    s.clock ≤ now ∧ op.requests = false ∧
      s' = ⟨api.runs.store.commit now op s.db, now, s.log⟩ := by
  obtain ⟨⟨clock, other⟩, moved⟩ := Option.ite_none_right_eq_some.mp h
  exact ⟨clock, other, (Option.some.inj moved).symm⟩

/-- The requests that come through the interface are requests to the service. -/
theorem embeds_service : api.system.Embeds api.runs.system id where
  init := rfl
  step s e s' _ h := by
    cases e with
    | http k r =>
      obtain ⟨clock, rfl⟩ := step_http h
      have reply := dispatched api k r s
      generalize api.dispatch k r s = result at reply
      cases reply with
      | refused => exact .inl rfl
      | @handled request answer reply _ answered _ =>
        subst answered
        exact .inr ⟨⟨k.now, .call ⟨r.idempotencyKey, request, k.randomId⟩⟩, if_pos clock⟩
    | other now op =>
      obtain ⟨clock, other, rfl⟩ := step_other h
      refine .inr ⟨⟨now, .other op⟩, ?_⟩
      simp [RunService.system, clock, other]

theorem embeds_store : api.system.Embeds api.runs.store.system fun s => ⟨s.db, s.clock⟩ where
  init := rfl
  step s e s' _ h := by
    cases e with
    | http k r =>
      obtain ⟨clock, rfl⟩ := step_http h
      have reply := dispatched api k r s
      generalize api.dispatch k r s = result at reply
      cases reply with
      | refused => exact .inl rfl
      | @handled request answer reply _ answered _ =>
        obtain ⟨op, committed⟩ := RunService.answer_commits (c := api.runs) k.now
          ⟨r.idempotencyKey, request, k.randomId⟩ s.db
        rw [← answered] at committed
        refine .inr ⟨⟨k.now, op⟩, ?_⟩
        dsimp only
        rw [committed]
        exact if_pos clock
    | other now op =>
      obtain ⟨clock, _, rfl⟩ := step_other h
      exact .inr ⟨⟨now, op⟩, if_pos clock⟩

theorem sourced_reachable (hs : api.system.Reachable s) : api.runs.Sourced s.db := by
  refine hs.stable (P := fun s => api.runs.Sourced s.db) System.reachable_init .empty ?_
  intro s e s' hs sourced _ h
  cases e with
  | http k r =>
    obtain ⟨_, rfl⟩ := step_http h
    have reply := dispatched api k r s
    generalize api.dispatch k r s = result at reply
    cases reply with
    | refused => exact sourced
    | handled decoded answered _ =>
      subst answered
      exact sourced.answer k.now (decode_representable decoded)
  | other now op =>
    obtain ⟨clock, other, rfl⟩ := step_other h
    rcases api.runs.store.commit_cases now op s.db with same | committed
    · rw [same]
      exact sourced
    · obtain ⟨_, submissions, sweeps⟩ := apply_requests other committed
      have store := embeds_store.reachable hs
      exact sourced.kept (apply_kept (PostgresStore.reachable_wellFormed store)
        (coupled_reachable store) committed) submissions sweeps

end Api

end Runyard
