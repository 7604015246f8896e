import Runyard.Cluster.Snapshot
import Runyard.Execution.Docker
import Runyard.Remote

/-!
# Launching containers

`DockerBackend::ensure` as a program of requests, and a Docker daemon that keeps at most one
container for a name. Callers may lose answers and start over, and they may overlap.
-/

namespace Runyard

/-- `http_.request` on the endpoints that `ensure` uses. -/
inductive DockerRequest where
  /-- `GET /containers/{name}/json` -/
  | inspect (name : String)
  /-- `GET /images/{image}/json` -/
  | image (image : String)
  /-- `POST /images/create?fromImage={image}` -/
  | pull (image : String)
  /-- `POST /containers/create?name={name}` -/
  | create (name body : String)
  /-- `POST /containers/{name}/start` -/
  | start (name : String)
  deriving DecidableEq, Repr

structure DockerBackend where
  config : DockerConfig
  /-- `Json::parse` and `dump`. -/
  parse : String → Json.Access (Json Number)
  dump : Json Number → String

abbrev DockerCall (α : Type) := Remote DockerRequest HttpResult Abort α

def expect (response : HttpResult) (allowed : List Int) : Result Unit :=
  throwIf (!allowed.contains response.status) .unavailable
    ("Docker operation returned HTTP " ++ toString response.status)

namespace DockerBackend

variable (b : DockerBackend)

/-- The loop over the lines of the progress of a pull. -/
def pulled (body : String) : Checked Unit :=
  (body.splitOn "\n").forM fun line => do
    if line ≠ "" then do
      throwIf ((← b.parse line).find? "error").isSome .unavailable "Docker image pull failed"
    else return ()

def ensureImage (image : String) : DockerCall Unit := do
  let present ← Remote.request (.image image)
  if present.status = 404 then do
    let pull ← Remote.request (.pull image)
    expect pull [200]
    b.pulled pull.body
  else expect present [200]

/-- An exited runner must never be restarted under the same attempt identity. -/
def startCreated (name status : String) : DockerCall Unit := do
  if status = "created" then do
    expect (← Remote.request (.start name)) [204, 304]
  else return ()

def containerName (launch : Launch) : String := "runyard-" ++ launch.assignment.attempt.id

/-- The container of an inspection, where it is the one of the launch, and its status. -/
def inspected (launch : Launch) (existing : HttpResult) : Checked (Json Number × String) := do
  expect existing [200]
  let container ← b.parse existing.body
  throwIf (!(← dockerContainerMatches container b.config launch)) .conflict
    "container identity or GPU allocation does not match assignment"
  return (container, ← (container.item "State").valueOr "Status" "" Json.getString)

def settle (launch : Launch) (existing : HttpResult) : DockerCall String := do
  let (container, status) ← b.inspected launch existing
  startCreated (containerName launch) status
  liftM (do (← container.field "Id").getString : Json.Access String)

/-- `DockerBackend::ensure`. -/
def ensure (launch : Launch) : DockerCall String := do
  let existing ← Remote.request (.inspect (containerName launch))
  if existing.status = 404 then do
    b.ensureImage launch.assignment.spec.image
    let spec ← dockerContainerSpec b.config launch
    let create ← Remote.request (.create (containerName launch) (b.dump spec))
    expect create [201, 409]
    b.settle launch (← Remote.request (.inspect (containerName launch)))
  else b.settle launch existing

end DockerBackend

/-! ## The daemon -/

inductive ContainerStatus where
  | created | running | exited
  deriving DecidableEq, Repr

def ContainerStatus.text : ContainerStatus → String
  | .created => "created"
  | .running => "running"
  | .exited => "exited"

/-- A container with what its inspection shows in every status. -/
structure DockerContainer (b : DockerBackend) where
  id : String
  status : ContainerStatus
  body : ContainerStatus → String
  document : ContainerStatus → Json Number
  parses : ∀ s, b.parse (body s) = .ok (document s)
  identity : ∀ s, (document s).find? "Id" = some (.string id)
  state : ∀ s, (document s).path? ["State", "Status"] = some (.string s.text)
  config : ∀ s, (document s).find? "Config" = (document .created).find? "Config"
  host : ∀ s, (document s).find? "HostConfig" = (document .created).find? "HostConfig"

inductive DockerEvent where
  | created (name : String)
  | started (name : String) (status : ContainerStatus)
  deriving DecidableEq, Repr

/-- The containers by their names, and what has happened to them. -/
structure Daemon (b : DockerBackend) where
  containers : String → Option (DockerContainer b)
  log : List DockerEvent := []

/-- What the daemon answers about images, and the container that it creates. -/
structure DockerChoice (b : DockerBackend) where
  answer : HttpResult
  container : DockerContainer b

inductive DockerDrift where
  | exit (name : String)
  deriving DecidableEq, Repr

namespace Daemon

variable {b : DockerBackend}

def handle (k : DockerChoice b) (d : Daemon b) : DockerRequest → HttpResult × Daemon b
  | .inspect name =>
    match d.containers name with
    | none => (⟨404, ""⟩, d)
    | some c => (⟨200, c.body c.status⟩, d)
  | .image _ => (k.answer, d)
  | .pull _ => (k.answer, d)
  | .create name _ =>
    match d.containers name with
    | some _ => (⟨409, ""⟩, d)
    | none => (⟨201, ""⟩,
      { containers :=
          Function.update d.containers name (some { k.container with status := .created })
        log := .created name :: d.log })
  | .start name =>
    match d.containers name with
    | none => (⟨404, ""⟩, d)
    | some c =>
      if c.status = .running then (⟨304, ""⟩, d)
      else (⟨204, ""⟩,
        { containers := Function.update d.containers name (some { c with status := .running })
          log := .started name c.status :: d.log })

/-- The answers that end a call, and any answer about images. -/
def fails : DockerRequest → HttpResult → Bool
  | .inspect _, x => x.status ≠ 200 && x.status ≠ 404
  | .image _, _ => true
  | .pull _, _ => true
  | .create _ _, x => x.status ≠ 201 && x.status ≠ 409
  | .start _, x => x.status ≠ 204 && x.status ≠ 304

/-- A running container exits. -/
def drift (e : DockerDrift) (d : Daemon b) : Option (Daemon b) :=
  match e with
  | .exit name =>
    match d.containers name with
    | some c =>
      if c.status = .running then
        some { d with
          containers := Function.update d.containers name (some { c with status := .exited }) }
      else none
    | none => none

end Daemon

def dockerService (b : DockerBackend) :
    Service (Daemon b) DockerRequest HttpResult (DockerChoice b) DockerDrift where
  handle := Daemon.handle
  fails := Daemon.fails
  drift := Daemon.drift

/-! ## What calls rely on -/

namespace Daemon

variable {b : DockerBackend} {name : String} {s t u : Daemon b}

/-- The container of the name stays, in whatever status. -/
def Persists (name : String) (s t : Daemon b) : Prop :=
  ∀ c, s.containers name = some c → ∃ status, t.containers name = some { c with status := status }

/-- The container of the name, if there is one, has not exited. -/
def Alive (name : String) (s : Daemon b) : Prop :=
  ∀ c, s.containers name = some c → c.status ≠ .exited

/-- At most one container of the name was created, and none if there is none. -/
def Single (name : String) (s : Daemon b) : Prop :=
  s.log.count (.created name) ≤ 1 ∧
  (s.containers name = none → s.log.count (.created name) = 0)

/-- The container of the name was only ever started when it had just been created. -/
def Clean (name : String) (s : Daemon b) : Prop :=
  ∀ status, .started name status ∈ s.log → status = .created

theorem Persists.refl (s : Daemon b) : Persists name s s := fun c hc => ⟨c.status, hc⟩

theorem Persists.trans (first : Persists name s t) (second : Persists name t u) :
    Persists name s u := by
  intro c hc
  obtain ⟨_, ht⟩ := first c hc
  obtain ⟨status, hu⟩ := second _ ht
  exact ⟨status, hu⟩

/-- The contract of the calls for one name. Only where the calls are undisturbed may they rely on
a container that has not exited while its start is pending. -/
def contract (b : DockerBackend) (name : String) (undisturbed : Prop) :
    Contract (Daemon b) DockerRequest where
  rely r s t := Persists name s t ∧
    (undisturbed → r = some (.start name) → Alive name s → Alive name t)
  guarantee s t := Persists name s t ∧ (Alive name s → Alive name t) ∧
    (Single name s → Single name t) ∧ (undisturbed → Clean name s → Clean name t)
  refl := fun _ s => ⟨.refl s, fun _ _ => id⟩
  trans := fun _ _ _ _ first second =>
    ⟨first.1.trans second.1, fun h hr alive => second.2 h hr (first.2 h hr alive)⟩
  still := fun s => ⟨.refl s, id, id, fun _ => id⟩
  covers := fun _ _ _ h => ⟨h.1, fun _ _ => h.2.1⟩

/-- The container of the name is the one of the launch and has this identity. -/
def Launched (b : DockerBackend) (launch : Launch) (s : Daemon b) (id : String) : Prop :=
  ∃ c, s.containers (DockerBackend.containerName launch) = some c ∧ c.id = id ∧
    MatchesAssignment b.config launch (c.document c.status)

theorem launched_stable {launch : Launch} {id : String} (h : Launched b launch s id)
    (persists : Persists (DockerBackend.containerName launch) s t) : Launched b launch t id := by
  obtain ⟨c, hc, rfl, matched⟩ := h
  obtain ⟨status, ht⟩ := persists c hc
  refine ⟨_, ht, rfl, matched.of_same ?_ ?_⟩
  · exact (c.config _).trans (c.config _).symm
  · exact (c.host _).trans (c.host _).symm

theorem create_guarantee (undisturbed : Prop) (k : DockerChoice b) (body : String) :
    (contract b name undisturbed).guarantee s (handle k s (.create name body)).2 := by
  cases hname : s.containers name with
  | some c =>
    have same : (handle k s (.create name body)).2 = s := by simp [handle, hname]
    rw [same]
    exact (contract b name undisturbed).still s
  | none =>
    simp only [handle, hname]
    refine ⟨?_, ?_, ?_, ?_⟩
    · intro c hc
      rw [hname] at hc
      cases hc
    · intro _ c hc
      simp only [Function.update_self, Option.some.injEq] at hc
      rw [← hc]
      simp
    · rintro ⟨_, none⟩
      constructor
      · simp [none hname]
      · simp
    · intro _ clean status member
      exact clean status (by simpa using member)

theorem start_guarantee (undisturbed : Prop) (k : DockerChoice b)
    (alive : undisturbed → Alive name s) :
    (contract b name undisturbed).guarantee s (handle k s (.start name)).2 := by
  cases hname : s.containers name with
  | none =>
    have same : (handle k s (.start name)).2 = s := by simp [handle, hname]
    rw [same]
    exact (contract b name undisturbed).still s
  | some c =>
    by_cases running : c.status = .running
    · have same : (handle k s (.start name)).2 = s := by simp [handle, hname, running]
      rw [same]
      exact (contract b name undisturbed).still s
    · simp only [handle, hname, if_neg running]
      refine ⟨?_, ?_, ?_, ?_⟩
      · intro c' hc'
        rw [hname] at hc'
        cases hc'
        exact ⟨.running, Function.update_self ..⟩
      · intro _ c' hc'
        simp only [Function.update_self, Option.some.injEq] at hc'
        rw [← hc']
        simp
      · rintro ⟨few, _⟩
        constructor
        · simpa using few
        · simp
      · intro h clean status member
        rcases List.mem_cons.mp member with same | old
        · cases same
          have := alive h c hname
          cases hstatus : c.status with
          | created => rfl
          | running => exact absurd hstatus running
          | exited => exact absurd hstatus this
        · exact clean status old

end Daemon

/-! ## `ensure` keeps the contract -/

section Safe

variable {b : DockerBackend} {launch : Launch} {undisturbed : Prop} {s : Daemon b}

/-- A program that `ensure` may still run. -/
abbrev DockerSafe (b : DockerBackend) (launch : Launch) (undisturbed : Prop)
    (p : DockerCall String) (s : Daemon b) : Prop :=
  (dockerService b).Safe (Daemon.contract b (DockerBackend.containerName launch) undisturbed)
    (Daemon.Launched b launch) p s

theorem expect_ok {response : HttpResult} {allowed : List Int} {u : Unit} :
    expect response allowed = .ok u ↔ response.status ∈ allowed := by
  simp [expect]

theorem inspected_ok {existing : HttpResult} {container : Json Number} {status : String}
    (h : b.inspected launch existing = .ok (container, status)) :
    existing.status = 200 ∧ b.parse existing.body = .ok container ∧
    dockerContainerMatches container b.config launch = .ok true ∧
    (container.item "State").valueOr "Status" "" Json.getString = .ok status := by
  unfold DockerBackend.inspected at h
  simp only [Except.bind_eq_ok, Checked.lift_access_ok, Checked.lift_result_ok, expect_ok,
    Result.throwIf_ok, List.mem_singleton] at h
  obtain ⟨_, ok, container', parsed, matched, hmatched, _, accepted, status', hstatus, h⟩ := h
  cases h
  refine ⟨ok, parsed, ?_, hstatus⟩
  rw [hmatched]
  simpa using accepted

/-- The identity of a container that is the one of the launch. -/
theorem identity_safe {c : DockerContainer b} (status : ContainerStatus)
    (launched : Daemon.Launched b launch s c.id) :
    DockerSafe b launch undisturbed
      (.done (liftM (do (← (c.document status).field "Id").getString : Json.Access String))) s := by
  apply Service.Safe.lift
  intro id hid t moved
  obtain ⟨value, hvalue, htext⟩ := Except.bind_eq_ok.mp (Checked.lift_access_ok.mp hid)
  rw [Json.field_ok, c.identity] at hvalue
  cases hvalue
  cases htext
  exact Daemon.launched_stable launched moved.1

theorem answered_safe {c : DockerContainer b} (status : ContainerStatus)
    (launched : Daemon.Launched b launch s c.id) (x : Except Abort Unit) :
    DockerSafe b launch undisturbed (.done x >>= fun _ =>
      .done (liftM (do (← (c.document status).field "Id").getString : Json.Access String))) s := by
  cases x with
  | ok _ => exact identity_safe status launched
  | error e => trivial

/-- What follows the inspection, whatever it answered. -/
theorem settle_safe {existing : HttpResult}
    (shows : existing.status ≠ 200 ∨ ∃ c,
      s.containers (DockerBackend.containerName launch) = some c ∧
        existing.body = c.body c.status) :
    DockerSafe b launch undisturbed (b.settle launch existing) s := by
  unfold DockerBackend.settle
  cases hinspected : b.inspected launch existing with
  | error e => trivial
  | ok result =>
    obtain ⟨container, status⟩ := result
    obtain ⟨ok, parsed, accepted, hstatus⟩ := inspected_ok hinspected
    rcases shows with bad | ⟨c, hc, body⟩
    · exact absurd ok bad
    rw [body, c.parses] at parsed
    cases parsed
    have launched : Daemon.Launched b launch s c.id :=
      ⟨c, hc, rfl, assigned_of_accepts accepted⟩
    have reads : status = c.status.text := by
      have state := c.state c.status
      simp only [Json.path?_cons, Json.path?_nil, Option.bind_eq_some_iff] at state
      obtain ⟨j, hj, _, htext, ⟨⟩⟩ := state
      rw [Json.item, hj, Option.getD_some, Json.valueOr_ok] at hstatus
      rcases hstatus.2 with ⟨value, hvalue, hget⟩ | ⟨missing, _⟩
      · cases htext.symm.trans hvalue
        cases hget
        rfl
      · rw [missing] at htext
        cases htext
    change DockerSafe b launch undisturbed
      (DockerBackend.startCreated (DockerBackend.containerName launch) status >>= fun _ =>
        .done (liftM (do (← (c.document c.status).field "Id").getString : Json.Access String))) s
    by_cases created : status = "created"
    · rw [DockerBackend.startCreated, if_pos created]
      have fresh : c.status = .created := by
        rw [reads] at created
        cases hstatus : c.status with
        | created => rfl
        | running =>
          rw [hstatus] at created
          exact absurd created (by decide)
        | exited =>
          rw [hstatus] at created
          exact absurd created (by decide)
      have alive : Daemon.Alive (DockerBackend.containerName launch) s := by
        intro c' hc'
        cases hc.symm.trans hc'
        simp [fresh]
      intro t moved
      have starts (k : DockerChoice b) :=
        Daemon.start_guarantee undisturbed k fun h => moved.2 h rfl alive
      constructor
      · intro k
        exact ⟨starts k, answered_safe _
          (Daemon.launched_stable launched (moved.1.trans (starts k).1)) _⟩
      · intro k x _
        refine answered_safe _ (Daemon.launched_stable launched (moved.1.trans ?_)) _
        cases k with
        | none => exact .refl t
        | some k => exact (starts k).1
    · rw [DockerBackend.startCreated, if_neg created]
      exact identity_safe _ launched

/-- The inspection, with the daemon as it is then. -/
theorem inspect_safe {next : HttpResult → DockerCall String}
    (goes : ∀ t x, (x.status ≠ 200 ∨ ∃ c,
        t.containers (DockerBackend.containerName launch) = some c ∧ x.body = c.body c.status) →
      DockerSafe b launch undisturbed (next x) t) :
    DockerSafe b launch undisturbed
      (.call (.inspect (DockerBackend.containerName launch)) next) s := by
  apply Service.Safe.query
  · intro k t
    simp only [dockerService, Daemon.handle]
    split
    · rfl
    · rfl
  · intro t _ k
    apply goes
    simp only [dockerService, Daemon.handle]
    split
    next none => exact .inl (by simp)
    next c hc => exact .inr ⟨c, hc, rfl⟩
  · intro t x fails
    have bad : x.status ≠ 200 ∧ x.status ≠ 404 := by
      simpa [dockerService, Daemon.fails] using fails
    exact goes t x (.inl bad.1)

theorem ensureImage_safe {image : String} :
    (dockerService b).Safe (Daemon.contract b (DockerBackend.containerName launch) undisturbed)
      (fun _ _ => True) (b.ensureImage image) s := by
  have ended (x : Except Abort Unit) (t : Daemon b) :
      (dockerService b).Safe (Daemon.contract b (DockerBackend.containerName launch) undisturbed)
        (fun _ _ => True) (.done x) t := Service.Safe.lift fun _ _ _ _ => trivial
  have pulled (t : Daemon b) (x : HttpResult) :
      (dockerService b).Safe (Daemon.contract b (DockerBackend.containerName launch) undisturbed)
        (fun _ _ => True) (.done (liftM (expect x [200])) >>= fun _ => .done (b.pulled x.body)) t :=
    (ended _ t).bind fun _ t _ => ended _ t
  have goes (t : Daemon b) (x : HttpResult) :
      (dockerService b).Safe (Daemon.contract b (DockerBackend.containerName launch) undisturbed)
        (fun _ _ => True) (if x.status = 404 then
          .call (.pull image) fun x =>
            .done (liftM (expect x [200])) >>= fun _ => .done (b.pulled x.body)
        else .done (liftM (expect x [200]))) t := by
    split
    · exact Service.Safe.query (fun _ _ => rfl) (fun t _ _ => pulled t _) fun t x _ => pulled t x
    · exact ended _ t
  exact Service.Safe.query (fun _ _ => rfl) (fun t _ _ => goes t _) fun t x _ => goes t x

theorem create_safe {body : String} {next : HttpResult → DockerCall String}
    (goes : ∀ t x, DockerSafe b launch undisturbed (next x) t) :
    DockerSafe b launch undisturbed
      (.call (.create (DockerBackend.containerName launch) body) next) s := by
  intro t _
  exact ⟨fun k => ⟨Daemon.create_guarantee undisturbed k body, goes _ _⟩, fun _ x _ => goes _ x⟩

theorem ensure_safe (s : Daemon b) : DockerSafe b launch undisturbed (b.ensure launch) s := by
  apply inspect_safe
  intro t existing shows
  dsimp only [Remote.bind]
  split
  · refine ensureImage_safe.bind fun _ t _ => ?_
    cases dockerContainerSpec b.config launch with
    | error e => trivial
    | ok spec =>
      refine create_safe fun t create => ?_
      dsimp only [Remote.bind]
      cases expect create [201, 409] with
      | error e => trivial
      | ok _ => exact inspect_safe fun t x shows => settle_safe shows
  · exact settle_safe shows

end Safe

/-! ## Runs -/

section Runs

variable {b : DockerBackend} {launch : Launch} {ι : Type} [DecidableEq ι]

abbrev DockerState (b : DockerBackend) (ι : Type) :=
  Service.State (Daemon b) DockerRequest HttpResult Abort String ι

abbrev DockerAct (b : DockerBackend) (ι : Type) :=
  Service.Act HttpResult (DockerChoice b) DockerDrift ι

/-- Calls of `ensure` for one launch, against a daemon that begins in any state. -/
def dockerSystem (b : DockerBackend) (launch : Launch) (d : Daemon b) :
    System (DockerState b ι) (DockerAct b ι) :=
  (dockerService b).system (b.ensure launch) d

/-- The container does not exit while a call that has seen it created is still to start it. -/
def Undisturbed (launch : Launch) (u : DockerState b ι) (e : DockerAct b ι) : Prop :=
  e = .drift (.exit (DockerBackend.containerName launch)) → ∀ i p, u.callers i = some p →
    p.pending ≠ some (.start (DockerBackend.containerName launch))

theorem Daemon.drift_cases {e : DockerDrift} {s t : Daemon b} (h : Daemon.drift e s = some t)
    (name : String) : Daemon.Persists name s t ∧ t.log = s.log ∧
      (e = .exit name ∨ (Daemon.Alive name s → Daemon.Alive name t)) := by
  obtain ⟨other⟩ := e
  simp only [Daemon.drift] at h
  split at h
  next c hc =>
    obtain ⟨running, ⟨⟩⟩ := Option.ite_none_right_eq_some.mp h
    by_cases same : name = other
    · subst same
      refine ⟨?_, rfl, .inl rfl⟩
      intro c' hc'
      cases hc.symm.trans hc'
      exact ⟨.exited, Function.update_self ..⟩
    · refine ⟨?_, rfl, .inr ?_⟩
      · intro c' hc'
        exact ⟨c'.status, (Function.update_of_ne same ..).trans hc'⟩
      · intro alive c' hc'
        exact alive c' ((Function.update_of_ne same ..).symm.trans hc')
  · cases h

/-- What a run of calls keeps. -/
theorem docker_run {d : Daemon b} (fresh : d.log = []) (undisturbed : Prop)
    {allowed : DockerState b ι → DockerAct b ι → Prop} {u : DockerState b ι}
    (run : (dockerSystem b launch d).Leads allowed ⟨d, fun _ => none, []⟩ u)
    (calm : undisturbed → ∀ u e, allowed u e → Undisturbed launch u e) :
    (Daemon.Single (DockerBackend.containerName launch) u.service ∧
      (undisturbed → Daemon.Clean (DockerBackend.containerName launch) u.service)) ∧
    ∀ a ∈ u.returned, Daemon.Launched b launch u.service a := by
  let name := DockerBackend.containerName launch
  have start : Daemon.Single name d ∧ (undisturbed → Daemon.Clean name d) := by
    refine ⟨⟨?_, ?_⟩, ?_⟩
    · simp [fresh]
    · simp [fresh]
    · intro _ status member
      rw [fresh] at member
      cases member
  have good : Service.Good (dockerService b) (Daemon.contract b name undisturbed)
      (Daemon.Launched b launch) (⟨d, fun _ => none, []⟩ : DockerState b ι) := .init d
  have kept := good.run (P := fun s => Daemon.Single name s ∧ (undisturbed → Daemon.Clean name s))
    run start ensure_safe ?_ ?_ ?_
  · exact ⟨kept.2, fun a ha => (kept.1.2 a ha) _ ((Daemon.contract b name undisturbed).refl _ _)⟩
  · intro u e t ok ht
    obtain ⟨persists, _, alive⟩ := Daemon.drift_cases ht name
    refine ⟨⟨persists, fun _ h => by cases h⟩, fun i p hp => ⟨persists, fun h waits => ?_⟩⟩
    rcases alive with rfl | alive
    · exact absurd waits (calm h u _ ok rfl i p hp)
    · exact alive
  · rintro s t ⟨_, _, single, clean⟩ ⟨hsingle, hclean⟩
    exact ⟨single hsingle, fun h => clean h (hclean h)⟩
  · rintro e s t ht ⟨⟨few, none⟩, hclean⟩
    obtain ⟨persists, log, _⟩ := Daemon.drift_cases ht name
    refine ⟨⟨?_, fun missing => ?_⟩, fun h status member => ?_⟩
    · rw [log]
      exact few
    · rw [log]
      apply none
      cases hs : s.containers name with
      | none => rfl
      | some c =>
        obtain ⟨status, ht⟩ := persists c hs
        rw [missing] at ht
        cases ht
    · rw [log] at member
      exact hclean h status member

/-- Where the container exits while a start is pending, the start runs it again. -/
theorem restarts {d : Daemon b} {u v : DockerState b ι} {e : DockerAct b ι}
    (h : (dockerSystem b launch d).step u e = some v) (disturbed : ¬Undisturbed launch u e) :
    ∃ w, (dockerSystem b launch d).Later v w ∧
      .started (DockerBackend.containerName launch) .exited ∈ w.service.log := by
  simp only [Undisturbed, Classical.not_imp, not_forall, not_not] at disturbed
  obtain ⟨rfl, i, p, waits, pending⟩ := disturbed
  cases p with
  | done result => cases pending
  | call r next =>
    cases pending
    obtain ⟨t, ht, rfl⟩ := Option.map_eq_some_iff.mp h
    obtain ⟨c, exited, status⟩ : ∃ c,
        t.containers (DockerBackend.containerName launch) = some c ∧ c.status = .exited := by
      simp only [dockerService, Daemon.drift] at ht
      split at ht
      · obtain ⟨_, ⟨⟩⟩ := Option.ite_none_right_eq_some.mp ht
        exact ⟨_, Function.update_self .., rfl⟩
      · cases ht
    let k : DockerChoice b := ⟨⟨200, ""⟩, c⟩
    refine ⟨{ u with
      service := (Daemon.handle k t (.start (DockerBackend.containerName launch))).2
      callers := Function.update u.callers i
        (some (next (Daemon.handle k t (.start (DockerBackend.containerName launch))).1)) },
      .single (e := .answer i k) trivial ?_, ?_⟩
    · exact Service.step_answer (s := ⟨t, u.callers, u.returned⟩) waits k
    · simp [Daemon.handle, exited, status]

end Runs

end Runyard
