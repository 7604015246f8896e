import Runyard.Http.Api
import Runyard.Remote

/-!
# Requests from the command line

`Client::call` of `client.cpp` with the commands that create runs, against the interface of the
coordinator. A reply of `HttpClient` can be lost after the request was executed, and the client
then sends the request again.
-/

namespace Runyard

/-- A coordinator in operation. -/
structure Api.Served (api : Api) where
  service : RunService.State
  reachable : api.system.Reachable service

namespace Api

variable (api : Api)

def start : api.Served := ⟨api.system.init, System.reachable_init⟩

def moved (s : api.Served) (e : Event) : Option api.Served :=
  match h : api.system.step s.service e with
  | some t => some ⟨t, s.reachable.step h⟩
  | none => none

/-- A transfer that fails has a text from `curl`. -/
def receive (k : Reception) (s : api.Served) (r : HttpRequest) :
    Except String HttpReply × api.Served :=
  match api.moved s (.http k r) with
  | some t => (.ok (api.dispatch k r s.service).1, t)
  | none => (.error "", s)

/-- In the place of a reply there can be a failed transfer, or the reply to a failure of the
database. -/
def service : Service api.Served HttpRequest (Except String HttpReply) Reception Event where
  handle := api.receive
  fails _ x := match x with
    | .error _ => true
    | .ok (.error status _ _) => status = 503
    | .ok (.value _) => false
  drift e s := api.moved s e

end Api

/-! ## The client -/

abbrev ClientCall := Remote HttpRequest (Except String HttpReply) Thrown

namespace Client

/-- What `call` makes of a reply. One with an error has a status of at least 400. -/
def result : Except String HttpReply → Except Thrown Response
  | .error what => .error (.program (.error .unavailable ("HTTP request failed: " ++ what)))
  | .ok (.error status _ message) =>
    if status = 503 then
      .error (.program (.error .unavailable "coordinator temporarily unavailable"))
    else .error (.program (.error .invalid message))
  | .ok (.value response) => .ok response

def once (r : HttpRequest) : ClientCall Response := do
  let reply ← Remote.request r
  result reply

theorem result_ok {reply : Except String HttpReply} {response : Response}
    (h : result reply = .ok response) : reply = .ok (.value response) := by
  unfold result at h
  split at h
  · cases h
  · split at h
    · cases h
    · cases h
  · cases h
    rfl

/-- `call` with this many repetitions left. -/
def call (r : HttpRequest) : Nat → ClientCall Response
  | 0 => once r
  | left + 1 => (once r).rescue fun
    | .program (.error .unavailable _) => call r left
    | e => .done (.error e)

def post (token : String) (route : Route) (body key : String) : ClientCall Response :=
  call ⟨"Bearer " ++ token, route, key, body⟩ 2

end Client

/-- The commands that create runs, with the text of the file that they read. -/
inductive Command where
  | submit (file : String)
  | sweep (file : String)
  | rerun (id : String)

namespace Command

variable (t : FloatText)

def parsed (file : String) : Decoding (Json Number) :=
  match t.parse file with
  | some j => .ok j
  | none => .error (.json "parse error")

/-- What a command posts, after the checks that it makes itself. -/
def posted : Command → Decoding (Route × String)
  | .submit file => do
    let body ← parsed t file
    let _ ← decodeSpec body
    return (.runs, t.dump body)
  | .sweep file => do
    let body ← parsed t file
    let spec ← decodeSweep body
    let _ ← expandSweep spec.base spec.grid
    return (.sweeps, t.dump body)
  | .rerun id => return (.rerun id, "{}")

def program (token key : String) (command : Command) : ClientCall Response := do
  let (route, body) ← command.posted t
  Client.post token route body key

end Command

/-! ## What a reply stands for -/

/-- The rows that a request asked for. -/
inductive Created (db : Db) : Request → Response → Prop where
  | submitted {r : RunRow} {run : Run} (row : r ∈ db.runs) (named : run.id = r.id)
      (root : r.parentRunId = none) : Created db (.submit r.spec) (.run run)
  | rerun {r parent : RunRow} {run : Run} (row : r ∈ db.runs) (named : run.id = r.id)
      (repeats : db.Parent r parent) : Created db (.rerun parent.id) (.run run)
  | swept {w : SweepRow} {sweep : Sweep} (row : w ∈ db.sweeps) (named : sweep.id = w.id)
      (expanded : expandSweep w.spec.base w.spec.grid =
        .ok ((db.runs.filter fun r => r.sweepId = some w.id).map (·.spec))) :
      Created db (.sweep w.spec) (.sweep sweep)

namespace Api

variable {api : Api}

/-- The request was executed with this response. -/
def Answered (key : String) (request : Request) (s : api.Served) (response : Response) : Prop :=
  ∃ a ∈ s.service.log, a.call.key = key ∧ a.call.request = request ∧ a.outcome = .ok response

theorem log_grows {s s' : RunService.State} {e : Event} (h : api.system.step s e = some s') :
    s.log <+: s'.log := by
  cases e with
  | http k r =>
    obtain ⟨_, rfl⟩ := step_http h
    have reply := dispatched api k r s
    generalize api.dispatch k r s = result at reply
    cases reply with
    | refused => exact List.prefix_refl _
    | handled => exact List.prefix_append _ _
  | other now op =>
    obtain ⟨_, _, rfl⟩ := step_other h
    exact List.prefix_refl _

theorem moved_grows {s t : api.Served} {e : Event} (h : api.moved s e = some t) :
    s.service.log <+: t.service.log := by
  unfold moved at h
  split at h
  next moves =>
    cases h
    exact log_grows moves
  · cases h

theorem receive_grows (k : Reception) (s : api.Served) (r : HttpRequest) :
    s.service.log <+: (api.receive k s r).2.service.log := by
  unfold receive
  split
  next moves => exact moved_grows moves
  · exact List.prefix_refl _

theorem receive_answered {k : Reception} {s : api.Served} {r : HttpRequest} {response : Response}
    (h : (api.receive k s r).1 = .ok (.value response)) :
    ∃ request, api.decode r = .ok request ∧
      Answered r.idempotencyKey request (api.receive k s r).2 response := by
  unfold receive at h ⊢
  split at h
  next t moves =>
    unfold moved at moves
    split at moves
    next moves' =>
      obtain ⟨_, rfl⟩ := step_http moves'
      cases moves
      have reply := dispatched api k r s.service
      generalize api.dispatch k r s.service = result at *
      cases reply with
      | refused => cases h
      | @handled request answer reply decoded answered shows =>
        have outcome := shows response (Except.ok.inj h)
        refine ⟨request, decoded, answer, List.mem_append_right _ List.mem_cons_self, ?_, ?_,
          outcome⟩
        · rw [answered, RunService.answer_call]
        · rw [answered, RunService.answer_call]
    · cases moves
  · cases h

theorem Answered.later {key : String} {request : Request} {response : Response}
    {s t : api.Served} (answered : Answered key request s response)
    (grows : s.service.log <+: t.service.log) : Answered key request t response := by
  obtain ⟨a, ha, rest⟩ := answered
  exact ⟨a, grows.subset ha, rest⟩

variable (api) in
/-- Answers stay answers. -/
def contract : Contract api.Served HttpRequest where
  rely _ s t := s.service.log <+: t.service.log
  guarantee s t := s.service.log <+: t.service.log
  refl _ _ := List.prefix_refl _
  trans _ _ _ _ := List.IsPrefix.trans
  still _ := List.prefix_refl _
  covers _ _ _ h := h

/-- The response that a client returns was the answer to its request. -/
def Accepts (r : HttpRequest) (t : api.Served) (response : Response) : Prop :=
  ∃ request, api.decode r = .ok request ∧ Answered r.idempotencyKey request t response

theorem once_safe (r : HttpRequest) (s : api.Served) :
    api.service.Safe api.contract (Accepts r) (Client.once r) s := by
  intro t _
  constructor
  · intro k
    refine ⟨receive_grows k t r, Service.Safe.lift fun response accepted u grows => ?_⟩
    obtain ⟨request, decoded, answered⟩ := receive_answered (Client.result_ok accepted)
    exact ⟨request, decoded, answered.later grows⟩
  · intro k x failure
    refine Service.Safe.lift fun response accepted => ?_
    rw [Client.result_ok accepted] at failure
    cases failure

theorem call_safe (r : HttpRequest) (left : Nat) (s : api.Served) :
    api.service.Safe api.contract (Accepts r) (Client.call r left) s := by
  induction left generalizing s with
  | zero => exact once_safe r s
  | succ left ih =>
    refine (once_safe r s).rescue (fun _ => True) trivial (fun _ _ _ _ _ => trivial) ?_
    intro e t _
    split
    · exact ih t
    · trivial

section Performed

variable (collisionFree : Function.Injective api.runs.store.sha256) {s : RunService.State}
  (hs : api.system.Reachable s) {r : HttpRequest}

theorem decode_submit {spec : RunSpec} (h : api.decode r = .ok (.submit spec)) :
    validate spec = .ok () := by
  unfold decode at h
  split at h
  · simp only [Except.bind_eq_ok, Decoding.lift_result_eq_ok] at h
    obtain ⟨j, _, spec, decoded, hreturn⟩ := h
    cases hreturn
    exact (decodeSpec_accepts decoded).1
  · simp only [Except.bind_eq_ok] at h
    obtain ⟨_, _, _, _, hreturn⟩ := h
    cases hreturn
  · cases h

theorem decode_sweep {spec : SweepSpec} (h : api.decode r = .ok (.sweep spec)) :
    spec.Decodable ∧ spec.Finite := by
  unfold decode at h
  split at h
  · simp only [Except.bind_eq_ok, Decoding.lift_result_eq_ok] at h
    obtain ⟨_, _, _, _, hreturn⟩ := h
    cases hreturn
  · simp only [Except.bind_eq_ok] at h
    obtain ⟨j, parsed, spec, decoded, hreturn⟩ := h
    cases hreturn
    refine ⟨decodeSweep_accepts decoded, decodeSweep_finite ?_ decoded⟩
    unfold parse at parsed
    split at parsed
    next found =>
      cases parsed
      obtain ⟨_, _, hfinite⟩ := Option.bind_eq_some_iff.mp found
      obtain ⟨finite, hj⟩ := Option.ite_none_right_eq_some.mp hfinite
      exact Option.some.inj hj ▸ finite
    · cases parsed
  · cases h

include collisionFree hs

/-- The rows that an answer stands for are those of its request. -/
theorem created {key : String} {request : Request} {response : Response}
    (decoded : api.decode r = .ok request)
    (bound : api.runs.bindings s.db (request.kind, key) =
      some (api.runs.fingerprint request, response.identity)) : Created s.db request response := by
  have settled := (RunService.reachable_invariant (embeds_service.reachable hs)).settled
  have sourced := sourced_reachable hs
  cases request with
  | submit spec =>
    obtain ⟨m, hm, same⟩ := Option.map_eq_some_iff.mp bound
    obtain ⟨fingerprint, identity⟩ := Prod.mk.inj same
    obtain ⟨row, hrow, hid, source⟩ := sourced.submissions m (Table.lookup_mem hm).1
    cases response with
    | sweep => cases identity
    | run run =>
      cases source with
      | submitted root valid representable printed =>
        have equal : row.spec = spec := RunService.submit_fingerprint collisionFree valid
          (decode_submit decoded) representable (decode_representable decoded)
          (printed.symm.trans fingerprint)
        subst equal
        exact .submitted hrow ((Identity.run.inj identity).symm.trans hid.symm) root
      | rerun _ printed =>
        exact absurd (fingerprint.symm.trans printed)
          (RunService.submit_rerun_fingerprint collisionFree spec _)
  | rerun id =>
    obtain ⟨m, hm, same⟩ := Option.map_eq_some_iff.mp bound
    obtain ⟨fingerprint, identity⟩ := Prod.mk.inj same
    obtain ⟨row, hrow, hid, source⟩ := sourced.submissions m (Table.lookup_mem hm).1
    cases response with
    | sweep => cases identity
    | run run =>
      cases source with
      | submitted _ _ _ printed =>
        exact absurd (printed.symm.trans fingerprint)
          (RunService.submit_rerun_fingerprint collisionFree _ id)
      | rerun parent printed =>
        obtain rfl := RunService.rerun_fingerprint collisionFree (printed.symm.trans fingerprint)
        have descended := (PostgresStore.rooted_reachable (embeds_store.reachable hs)).descended
        obtain ⟨q, hq, rfl, repeats⟩ := descended.rooted row hrow _ parent
        exact .rerun hrow ((Identity.run.inj identity).symm.trans hid.symm) ⟨hq, parent, repeats⟩
  | sweep spec =>
    obtain ⟨w, hw, found⟩ := Option.bind_eq_some_iff.mp bound
    obtain ⟨sweep, loaded, same⟩ := Option.map_eq_some_iff.mp found
    obtain ⟨fingerprint, identity⟩ := Prod.mk.inj same
    have hrow := (Table.lookup_mem hw).1
    obtain ⟨printed, representable⟩ := sourced.sweeps w hrow
    have expanded := settled.expanded w hrow
    rw [Db.births, List.filter_map, List.map_map] at expanded
    obtain ⟨decodable, finite⟩ := decode_sweep decoded
    have equal : w.spec = spec := by
      have texts := collisionFree (printed.symm.trans fingerprint)
      obtain ⟨j, hparse, hdecode⟩ := api.runs.printer.parse_dump_sweep
        (decodable_of_expanded expanded representable) (finite_of_expanded expanded)
      obtain ⟨j', hparse', hdecode'⟩ := api.runs.printer.parse_dump_sweep decodable finite
      rw [texts, hparse'] at hparse
      cases hparse
      exact Except.ok.inj (hdecode.symm.trans hdecode')
    subst equal
    cases response with
    | run => cases identity
    | sweep shown =>
      obtain rfl := Identity.sweep.inj identity
      refine .swept hrow ?_ expanded
      obtain ⟨first, hfirst, hread⟩ := Result.bind_ok.mp (Except.toOption_eq_some.mp loaded)
      obtain ⟨_, _, rfl⟩ := Result.map_ok.mp hread
      rw [loadSweep_eq] at hfirst
      split at hfirst
      · cases hfirst
      next known =>
        cases hfirst
        exact (Table.lookup_mem known).2

end Performed

end Api

namespace Sample

def api : Api := ⟨service, "token"⟩

def file : String := FloatText.exact.dump spec.encode

def reception (now : Int) : Reception where
  now := now
  randomId _ := runId

theorem received {body : String} {now : Int} {s : api.Served} (clock : s.service.clock ≤ now)
    {response : Response}
    (decoded : api.decode ⟨"Bearer token", .runs, "key", body⟩ = .ok (.submit spec))
    (answered : (service.answer now submitting s.service.db).outcome = .ok response) :
    ∃ t : api.Served, api.receive (reception now) s ⟨"Bearer token", .runs, "key", body⟩ =
      (.ok (.value response), t) ∧ t.service.clock = now ∧
      t.service.db = (service.answer now submitting s.service.db).after := by
  have dispatched : api.dispatch (reception now) ⟨"Bearer token", .runs, "key", body⟩ s.service =
      (.value response, ⟨(service.answer now submitting s.service.db).after, now,
        s.service.log ++ [service.answer now submitting s.service.db]⟩) := by
    have work : api.work (reception now) ⟨"Bearer token", .runs, "key", body⟩ s.service =
        (.value response, ⟨(service.answer now submitting s.service.db).after, now,
          s.service.log ++ [service.answer now submitting s.service.db]⟩) := by
      unfold Api.work
      rw [decoded]
      exact congrArg (fun outcome => (HttpReply.of outcome, _)) answered
    have authorized : ¬ "Bearer token" ≠ "Bearer " ++ api.token := by decide
    exact (if_neg authorized).trans ((if_neg Bool.false_ne_true).trans
      ((if_neg Bool.false_ne_true).trans work))
  have moves : api.system.step s.service (.http (reception now) ⟨"Bearer token", .runs, "key",
      body⟩) = some ⟨(service.answer now submitting s.service.db).after, now,
        s.service.log ++ [service.answer now submitting s.service.db]⟩ :=
    (if_pos clock).trans (congrArg (fun x => some x.2) dispatched)
  refine ⟨⟨_, s.reachable.step moves⟩, ?_, rfl, rfl⟩
  have moved : api.moved s (.http (reception now) ⟨"Bearer token", .runs, "key", body⟩) =
      some ⟨_, s.reachable.step moves⟩ := by
    unfold Api.moved
    split
    next t found =>
      rw [moves] at found
      cases found
      rfl
    next none =>
      rw [moves] at none
      cases none
  unfold Api.receive
  rw [moved, dispatched]

/-- The one process of the sample. -/
def caller (s : api.Served) (program : Option (ClientCall Response)) (returned : List Response) :
    Service.State api.Served HttpRequest (Except String HttpReply) Thrown Response Unit :=
  ⟨s, Function.update (fun _ => none) () program, returned⟩

end Sample

end Runyard
