import Runyard.Execution.Jobs
import Runyard.Serialization.Text

/-!
# Launching is idempotent

What all calls of `ensure` for one attempt leave behind, on both runtimes. Only the start of a
container can come too late: two calls see it created, and it exits between their starts.
-/

namespace Runyard

section Main

variable {b : DockerBackend} {launch : Launch} {ι : Type} [DecidableEq ι] {d : Daemon b}
  {u : DockerState b ι}

/-- The container of an inspection, where the container is accepted. -/
theorem inspected_accepted {c : DockerContainer b} {status : ContainerStatus}
    (accepted : dockerContainerMatches (c.document status) b.config launch = .ok true) :
    b.inspected launch ⟨200, c.body status⟩ = .ok (c.document status, status.text) := by
  have reads : ((c.document status).item "State").valueOr "Status" "" Json.getString =
      .ok status.text := by
    have state := c.state status
    simp only [Json.path?_cons, Json.path?_nil, Option.bind_eq_some_iff] at state
    obtain ⟨state, found, value, htext, ⟨⟩⟩ := state
    simp only [Json.item, found, Option.getD_some, Json.valueOr_ok]
    exact ⟨Json.isObject_of_find? htext, .inl ⟨_, htext, rfl⟩⟩
  unfold DockerBackend.inspected
  simp only [Except.bind_eq_ok, Checked.lift_access_ok, Checked.lift_result_ok, expect_ok,
    Result.throwIf_ok]
  exact ⟨(), by simp, _, c.parses status, true, accepted, (), by simp, _, reads, rfl⟩

/-- What a call goes on with when it has inspected an accepted container. -/
theorem settle_accepted {c : DockerContainer b} {status : ContainerStatus}
    (accepted : dockerContainerMatches (c.document status) b.config launch = .ok true) :
    b.settle launch ⟨200, c.body status⟩ =
      (DockerBackend.startCreated (DockerBackend.containerName launch) status.text >>= fun _ =>
        Remote.done (.ok c.id)) := by
  have identity : (liftM (do (← (c.document status).field "Id").getString : Json.Access String) :
      DockerCall String) = .done (.ok c.id) := by
    have field : (c.document status).field "Id" = .ok (.string c.id) := by
      rw [Json.field_ok]
      exact c.identity status
    rw [field]
    rfl
  rw [DockerBackend.settle, inspected_accepted accepted]
  dsimp only
  rw [← identity]
  rfl

/-- `ensure` inspects, and a container that is there is settled. -/
theorem ensure_call (b : DockerBackend) (launch : Launch) : ∃ next,
    b.ensure launch = .call (.inspect (DockerBackend.containerName launch)) next ∧
    (∀ body, next ⟨200, body⟩ = b.settle launch ⟨200, body⟩) ∧
    ∀ spec, dockerContainerSpec b.config launch = .ok spec → ∃ image,
      next ⟨404, ""⟩ = .call (.image launch.assignment.spec.image) image ∧ ∃ create,
        image ⟨200, ""⟩ =
          .call (.create (DockerBackend.containerName launch) (b.dump spec)) create ∧
        create ⟨409, ""⟩ =
          .call (.inspect (DockerBackend.containerName launch)) (b.settle launch) := by
  refine ⟨_, rfl, fun _ => rfl, fun spec hspec => ⟨_, rfl, ?_⟩⟩
  rw [hspec]
  exact ⟨_, rfl, rfl⟩

/-- The start of a container that was inspected before it was started. -/
def starting (b : DockerBackend) (launch : Launch) (c : DockerContainer b) : DockerCall String :=
  .call (.start (DockerBackend.containerName launch)) fun x =>
    .done (liftM (expect x [204, 304])) >>= fun _ => Remote.done (.ok c.id)

theorem startCreated_created {name : String} {f : Unit → DockerCall String} :
    DockerBackend.startCreated name "created" >>= f =
      .call (.start name) fun x => .done (liftM (expect x [204, 304])) >>= f := by
  rw [DockerBackend.startCreated, if_pos rfl]
  rfl

theorem settle_created {c : DockerContainer b} (fresh : c.status = .created)
    (accepted : dockerContainerMatches (c.document c.status) b.config launch = .ok true) :
    b.settle launch ⟨200, c.body c.status⟩ = starting b launch c := by
  have seen : c.status.text = "created" := by
    rw [fresh]
    rfl
  rw [settle_accepted accepted, seen, startCreated_created]
  rfl

theorem handle_inspect {c : DockerContainer b} {k : DockerChoice b} {s : Daemon b}
    (hc : s.containers (DockerBackend.containerName launch) = some c) :
    (dockerService b).handle k s (.inspect (DockerBackend.containerName launch)) =
      (⟨200, c.body c.status⟩, s) := by
  simp only [dockerService, Daemon.handle, hc]

/-- A call comes to the start of a container that it has seen created. -/
theorem reaches_start {i : ι} {c : DockerContainer b} (idle : u.callers i = none)
    (hc : u.service.containers (DockerBackend.containerName launch) = some c)
    (fresh : c.status = .created)
    (accepted : dockerContainerMatches (c.document c.status) b.config launch = .ok true) :
    ∃ v, (dockerSystem b launch d).Later u v ∧
      Service.Onward i (starting b launch c) u v := by
  obtain ⟨next, calls, settles, _⟩ := ensure_call b launch
  obtain ⟨t, begins, onward⟩ := Service.onward_begin (dockerService b) (b.ensure launch) d idle
  rw [calls] at onward
  obtain ⟨v, inspects, onward⟩ := onward.query (b.ensure launch) d (k := ⟨⟨200, ""⟩, c⟩)
    (handle_inspect hc)
  rw [settles, settle_created fresh accepted] at onward
  exact ⟨v, (System.Leads.single trivial begins).step trivial inspects, onward⟩

omit [DecidableEq ι] in
theorem calm_act {a : DockerAct b ι} (h : ∀ e, a ≠ .drift e) : Undisturbed launch u a :=
  fun same => absurd same (h _)

/-- A call finds no container and comes to its creation. -/
theorem reaches_create {i : ι} {spec : Json Number} (c : DockerContainer b)
    (idle : u.callers i = none)
    (absent : u.service.containers (DockerBackend.containerName launch) = none)
    (hspec : dockerContainerSpec b.config launch = .ok spec) :
    ∃ v next, (dockerSystem b launch d).Leads (Undisturbed launch) u v ∧
      Service.Onward i
        (.call (.create (DockerBackend.containerName launch) (b.dump spec)) next) u v ∧
      next ⟨409, ""⟩ =
        .call (.inspect (DockerBackend.containerName launch)) (b.settle launch) := by
  obtain ⟨next, calls, _, missing⟩ := ensure_call b launch
  obtain ⟨image, looks, create, creates, conflict⟩ := missing spec hspec
  let k : DockerChoice b := ⟨⟨200, ""⟩, c⟩
  have none : (dockerService b).handle k u.service
      (.inspect (DockerBackend.containerName launch)) = (⟨404, ""⟩, u.service) := by
    simp only [dockerService, Daemon.handle, absent]
  have present : (dockerService b).handle k u.service (.image launch.assignment.spec.image) =
      (⟨200, ""⟩, u.service) := rfl
  obtain ⟨u₁, begins, onward⟩ := Service.onward_begin (dockerService b) (b.ensure launch) d idle
  rw [calls] at onward
  obtain ⟨u₂, inspects, onward⟩ := onward.query (b.ensure launch) d none
  rw [looks] at onward
  obtain ⟨u₃, finds, onward⟩ := onward.query (b.ensure launch) d present
  rw [creates] at onward
  refine ⟨u₃, create, ((System.Leads.single ?_ begins).step ?_ inspects).step ?_ finds, onward,
    conflict⟩
  all_goals exact calm_act (by rintro e ⟨⟩)

/-- A call that waits for an inspection starts the container that was created, and returns. -/
theorem starts_created {i : ι} {c : DockerContainer b}
    (waits : u.callers i =
      some (.call (.inspect (DockerBackend.containerName launch)) (b.settle launch)))
    (hc : u.service.containers (DockerBackend.containerName launch) = some c)
    (fresh : c.status = .created)
    (accepted : dockerContainerMatches (c.document c.status) b.config launch = .ok true) :
    ∃ v, (dockerSystem b launch d).Leads (Undisturbed launch) u v ∧
      v.service.containers (DockerBackend.containerName launch) =
        some { c with status := .running } ∧
      v.service.log =
        .started (DockerBackend.containerName launch) .created :: u.service.log ∧
      v.returned = c.id :: u.returned := by
  let k : DockerChoice b := ⟨⟨200, ""⟩, c⟩
  have here : Service.Onward i
      (.call (.inspect (DockerBackend.containerName launch)) (b.settle launch)) u u :=
    ⟨rfl, rfl, waits, fun _ _ => rfl⟩
  obtain ⟨u₁, inspects, onward⟩ := here.query (b.ensure launch) d (k := k)
    (handle_inspect hc)
  rw [settle_created fresh accepted] at onward
  rw [← onward.service] at hc
  have handled : (dockerService b).handle k u₁.service
      (.start (DockerBackend.containerName launch)) = (⟨204, ""⟩, {
        containers := Function.update u₁.service.containers (DockerBackend.containerName launch)
          (some { c with status := .running })
        log := .started (DockerBackend.containerName launch) .created :: u₁.service.log }) := by
    simp only [dockerService, Daemon.handle, hc, fresh]
    rfl
  obtain ⟨u₂, starts, moved, returned, ended⟩ : ∃ u₂,
      (dockerSystem b launch d).step u₁ (.answer i k) = some u₂ ∧
      u₂.service = ((dockerService b).handle k u₁.service
        (.start (DockerBackend.containerName launch))).2 ∧
      u₂.returned = u.returned ∧ u₂.callers i = some (.done (.ok c.id)) := by
    refine ⟨_, Service.step_answer onward.caller k, rfl, onward.returned, ?_⟩
    rw [handled]
    exact Function.update_self ..
  rw [handled] at moved
  refine ⟨_, ((System.Leads.single ?_ inspects).step ?_ starts).step (e := .finish i) ?_
    (Service.step_finish ended), ?_, ?_, ?_⟩
  · exact calm_act (by rintro e ⟨⟩)
  · exact calm_act (by rintro e ⟨⟩)
  · exact calm_act (by rintro e ⟨⟩)
  · rw [moved]
    exact Function.update_self ..
  · rw [moved, ← onward.service]
  · rw [returned]

/-- Two calls find no container. The answer to the creation of one is lost, the other one is
refused the name, and starts what was created. -/
theorem overlap_creates {i j : ι} {c : DockerContainer b} {spec : Json Number} (apart : i ≠ j)
    (idle : ∀ i, u.callers i = none)
    (absent : u.service.containers (DockerBackend.containerName launch) = none)
    (hspec : dockerContainerSpec b.config launch = .ok spec) (fresh : c.status = .created)
    (accepted : dockerContainerMatches (c.document c.status) b.config launch = .ok true) :
    ∃ v, (dockerSystem b launch d).Leads (Undisturbed launch) u v ∧
      v.service.containers (DockerBackend.containerName launch) =
        some { c with status := .running } ∧
      v.service.log = .started (DockerBackend.containerName launch) .created ::
        .created (DockerBackend.containerName launch) :: u.service.log ∧
      v.returned = c.id :: u.returned := by
  let k : DockerChoice b := ⟨⟨200, ""⟩, c⟩
  obtain ⟨u₁, _, run₁, first, _⟩ := reaches_create (d := d) c (idle i) absent hspec
  rw [← first.service] at absent
  obtain ⟨u₂, _, run₂, second, conflict⟩ :=
    reaches_create (d := d) c ((first.others j apart.symm).trans (idle j)) absent hspec
  rw [← second.service] at absent
  obtain ⟨u₃, loses, containers, log, returned, waits⟩ : ∃ u₃,
      (dockerSystem b launch d).step u₂ (.lose i (some k)) = some u₃ ∧
      u₃.service.containers (DockerBackend.containerName launch) =
        some { c with status := .created } ∧
      u₃.service.log = .created (DockerBackend.containerName launch) :: u₂.service.log ∧
      u₃.returned = u₂.returned ∧ u₃.callers j = u₂.callers j := by
    refine ⟨_, Service.step_lose ((second.others i apart).trans first.caller) (some k), ?_, ?_,
      rfl, Function.update_of_ne apart.symm ..⟩
    · simp [Service.effect, dockerService, Daemon.handle, absent, k]
    · simp [Service.effect, dockerService, Daemon.handle, absent]
  rw [← fresh] at containers
  have refused : (dockerService b).handle k u₃.service
      (.create (DockerBackend.containerName launch) (b.dump spec)) = (⟨409, ""⟩, u₃.service) := by
    simp only [dockerService, Daemon.handle, containers]
  have waiting := Service.Onward.mk (s := u₃) rfl rfl (waits.trans second.caller) fun _ _ => rfl
  obtain ⟨u₄, refuses, third⟩ := waiting.query (b.ensure launch) d refused
  rw [conflict] at third
  rw [← third.service] at containers
  obtain ⟨v, run, running, started, returned'⟩ :=
    starts_created (d := d) third.caller containers fresh accepted
  refine ⟨v, (((run₁.trans run₂).step ?_ loses).step ?_ refuses).trans run, running, ?_, ?_⟩
  · exact calm_act (by rintro e ⟨⟩)
  · exact calm_act (by rintro e ⟨⟩)
  · rw [started, third.service, log, second.service, first.service]
  · rw [returned', third.returned, returned, second.returned, first.returned]

/-- Two calls see the container created. One starts it, it exits, and the other starts it again. -/
theorem overlap_restarts {i j : ι} {c : DockerContainer b} (apart : i ≠ j)
    (idle : ∀ i, u.callers i = none)
    (hc : u.service.containers (DockerBackend.containerName launch) = some c)
    (fresh : c.status = .created)
    (accepted : dockerContainerMatches (c.document c.status) b.config launch = .ok true) :
    ∃ w, (dockerSystem b launch d).Later u w ∧
      .started (DockerBackend.containerName launch) .exited ∈ w.service.log := by
  let name := DockerBackend.containerName launch
  obtain ⟨u₁, run₁, first⟩ := reaches_start (d := d) (idle i) hc fresh accepted
  rw [← first.service] at hc
  obtain ⟨u₂, run₂, second⟩ :=
    reaches_start (d := d) ((first.others j apart.symm).trans (idle j)) hc fresh accepted
  rw [← second.service] at hc
  let k : DockerChoice b := ⟨⟨200, ""⟩, c⟩
  obtain ⟨v, started, running, pending⟩ : ∃ v,
      (dockerSystem b launch d).step u₂ (.answer i k) = some v ∧
      v.service.containers name = some { c with status := .running } ∧
      v.callers j = some (starting b launch c) := by
    refine ⟨_, Service.step_answer ((second.others i apart).trans first.caller) k, ?_,
      (Function.update_of_ne apart.symm ..).trans second.caller⟩
    simp [dockerService, Daemon.handle, hc, fresh, name]
  obtain ⟨v', exited⟩ : ∃ v', (dockerSystem b launch d).step v (.drift (.exit name)) = some v' := by
    simp [dockerSystem, Service.system, Service.step, dockerService, Daemon.drift, running]
  obtain ⟨w, run, restarted⟩ := restarts exited fun calm => calm rfl j _ pending rfl
  exact ⟨w, ((((run₁.trans run₂).step trivial started).step trivial exited).trans run), restarted⟩

/-- The calls of `ensure` on a cluster without the Job, whose creation is then refused. -/
theorem ensure_job_call (k : KubernetesBackend) (launch : Launch) : ∃ next post last,
    k.ensure launch = .call (.get (KubernetesBackend.jobName launch)) next ∧
    next ⟨404, ""⟩ = .call (.post (kubernetesJob k.config launch)) post ∧
    post ⟨409, ""⟩ = .call (.get (KubernetesBackend.jobName launch)) last ∧
    ∀ body, last ⟨200, body⟩ = .done (k.reconcile launch ⟨200, body⟩) :=
  ⟨_, _, _, rfl, rfl, rfl, fun _ => rfl⟩

theorem handle_get {k : KubernetesBackend} {s : Cluster k} {job drawn : Job k}
    (hj : s.jobs (KubernetesBackend.jobName launch) = some job) :
    (kubernetesService k).handle drawn s (.get (KubernetesBackend.jobName launch)) =
      (⟨200, job.body job.version⟩, s) := by
  simp only [kubernetesService, Cluster.handle, hj]

/-- A call finds no Job and comes to its creation. -/
theorem reaches_post {k : KubernetesBackend} {s : Cluster k} {w : ClusterState k ι} {i : ι}
    (job : Job k) (idle : w.callers i = none)
    (absent : w.service.jobs (KubernetesBackend.jobName launch) = none) :
    ∃ v post last, (kubernetesSystem k launch s).Later w v ∧
      Service.Onward i (.call (.post (kubernetesJob k.config launch)) post) w v ∧
      post ⟨409, ""⟩ = .call (.get (KubernetesBackend.jobName launch)) last ∧
      ∀ body, last ⟨200, body⟩ = .done (k.reconcile launch ⟨200, body⟩) := by
  obtain ⟨next, post, last, calls, missing, conflict, found⟩ := ensure_job_call k launch
  have none : (kubernetesService k).handle job w.service
      (.get (KubernetesBackend.jobName launch)) = (⟨404, ""⟩, w.service) := by
    simp only [kubernetesService, Cluster.handle, absent]
  obtain ⟨t, begins, onward⟩ := Service.onward_begin (kubernetesService k) (k.ensure launch) s
    idle
  rw [calls] at onward
  obtain ⟨v, looks, onward⟩ := onward.query (k.ensure launch) s none
  rw [missing] at onward
  exact ⟨v, post, last, (System.Leads.single trivial begins).step trivial looks, onward, conflict,
    found⟩

/-- Two calls find no Job. The answer to the creation of one is lost, the other one is refused
the name, and returns the Job that was created. -/
theorem overlap_posts {k : KubernetesBackend} {s : Cluster k} {w : ClusterState k ι} {i j : ι}
    {job : Job k} {uid : String} (apart : i ≠ j) (idle : ∀ i, w.callers i = none)
    (absent : w.service.jobs (KubernetesBackend.jobName launch) = none)
    (accepted : k.reconcile launch ⟨200, job.body job.version⟩ = .ok uid) :
    ∃ v, (kubernetesSystem k launch s).Later w v ∧
      v.service.jobs (KubernetesBackend.jobName launch) = some job ∧
      v.service.created = KubernetesBackend.jobName launch :: w.service.created ∧
      v.returned = uid :: w.returned := by
  obtain ⟨w₁, _, _, run₁, first, _, _⟩ := reaches_post (s := s) job (idle i) absent
  rw [← first.service] at absent
  obtain ⟨w₂, _, last, run₂, second, conflict, found⟩ :=
    reaches_post (s := s) job ((first.others j apart.symm).trans (idle j)) absent
  rw [← second.service] at absent
  obtain ⟨w₃, loses, jobs, created, returned, waits⟩ : ∃ w₃,
      (kubernetesSystem k launch s).step w₂ (.lose i (some job)) = some w₃ ∧
      w₃.service.jobs (KubernetesBackend.jobName launch) = some job ∧
      w₃.service.created = KubernetesBackend.jobName launch :: w₂.service.created ∧
      w₃.returned = w₂.returned ∧ w₃.callers j = w₂.callers j := by
    refine ⟨_, Service.step_lose ((second.others i apart).trans first.caller) (some job), ?_, ?_,
      rfl, Function.update_of_ne apart.symm ..⟩
    · simp only [Service.effect, kubernetesService, Cluster.handle, kubernetesJob_name, absent,
        Function.update_self]
    · simp only [Service.effect, kubernetesService, Cluster.handle, kubernetesJob_name, absent]
  have refused : (kubernetesService k).handle job w₃.service
      (.post (kubernetesJob k.config launch)) = (⟨409, ""⟩, w₃.service) := by
    simp only [kubernetesService, Cluster.handle, kubernetesJob_name, jobs]
  have waiting := Service.Onward.mk (s := w₃) rfl rfl (waits.trans second.caller) fun _ _ => rfl
  obtain ⟨w₄, refuses, third⟩ := waiting.query (k.ensure launch) s refused
  rw [conflict] at third
  obtain ⟨w₅, answers, fourth⟩ := third.query (k.ensure launch) s (k := job) (handle_get jobs)
  rw [found, accepted] at fourth
  refine ⟨_, ((((run₁.trans run₂).step trivial loses).step trivial refuses).step trivial
    answers).step trivial (Service.step_finish fourth.caller), ?_, ?_, ?_⟩
  · rw [← fourth.service] at jobs
    exact jobs
  · rw [fourth.service, created, second.service, first.service]
  · rw [fourth.returned, returned, second.returned, first.returned]

end Main

/-! ## Every call for one attempt -/

theorem Daemon.Launched.unique {b : DockerBackend} {launch : Launch} {s : Daemon b}
    {id other : String} (h : Daemon.Launched b launch s id)
    (h' : Daemon.Launched b launch s other) : other = id := by
  obtain ⟨c, hc, rfl, _⟩ := h
  obtain ⟨c', hc', rfl, _⟩ := h'
  cases hc.symm.trans hc'
  rfl

theorem Cluster.Launched.unique {b : KubernetesBackend} {launch : Launch} {s : Cluster b}
    {uid other : String} (h : Cluster.Launched b launch s uid)
    (h' : Cluster.Launched b launch s other) : other = uid := by
  obtain ⟨j, hj, rfl, _⟩ := h
  obtain ⟨j', hj', rfl, _⟩ := h'
  cases hj.symm.trans hj'
  rfl

/-- Calls for one attempt in any number and in any interleaving create at most one container or
Job, and all that return name the one that is there and that matches the assignment. The
container is started only where it was just created, in the runs where it does not exit between
the inspection of a call and its start; where it does, a run follows that restarts it. -/
theorem launch_idempotent {ι : Type} [DecidableEq ι] (docker : DockerBackend)
    (kubernetes : KubernetesBackend) (launch : Launch) :
    (∀ d : Daemon docker, d.log = [] →
      (∀ u : DockerState docker ι, (dockerSystem docker launch d).Reachable u →
        u.service.log.count (.created (DockerBackend.containerName launch)) ≤ 1 ∧
        (∀ id ∈ u.returned, Daemon.Launched docker launch u.service id ∧
          ∀ other ∈ u.returned, other = id) ∧
        ∀ e v, (dockerSystem docker launch d).step u e = some v → ¬Undisturbed launch u e →
          ∃ w, (dockerSystem docker launch d).Later v w ∧
            ¬Daemon.Clean (DockerBackend.containerName launch) w.service) ∧
      ∀ u : DockerState docker ι,
        (dockerSystem docker launch d).Leads (Undisturbed launch) ⟨d, fun _ => none, []⟩ u →
          Daemon.Clean (DockerBackend.containerName launch) u.service) ∧
    ∀ s : Cluster kubernetes, s.created = [] →
      ∀ u : ClusterState kubernetes ι, (kubernetesSystem kubernetes launch s).Reachable u →
        u.service.created.count (KubernetesBackend.jobName launch) ≤ 1 ∧
        ∀ uid ∈ u.returned, Cluster.Launched kubernetes launch u.service uid ∧
          ∀ other ∈ u.returned, other = uid := by
  constructor
  · intro d fresh
    constructor
    · intro u run
      obtain ⟨⟨single, _⟩, launched⟩ := docker_run fresh False run fun h => h.elim
      refine ⟨single.1, fun id hid => ⟨launched id hid, fun other hother => ?_⟩, ?_⟩
      · exact (launched id hid).unique (launched other hother)
      · intro e v h disturbed
        obtain ⟨w, run, restarted⟩ := restarts h disturbed
        refine ⟨w, run, fun clean => ?_⟩
        cases clean _ restarted
    · intro u run
      have kept := docker_run fresh True run fun _ _ _ allowed => allowed
      exact kept.1.2 trivial
  · intro s fresh u run
    obtain ⟨single, launched⟩ := kubernetes_run fresh run
    refine ⟨single.1, fun uid huid => ⟨launched uid huid, fun other hother => ?_⟩⟩
    exact (launched uid huid).unique (launched other hother)

namespace Sample

def parse (body : String) : Json.Access (Json Number) :=
  match FloatText.exact.parse body with
  | some j => .ok j
  | none => .error "[json.exception.parse_error.101] parse error"

def dockerBackend : DockerBackend := ⟨dockerConfig, parse, FloatText.exact.dump⟩

/-- What an inspection of the container of the attempt shows. -/
def containerDocument (status : ContainerStatus) : Json Number :=
  .object [("Config", .object [("Image", .string spec.image),
      ("Labels", .object
        [("runyard.attempt", .string "attempt"), ("runyard.worker", .string "worker")])]),
    ("HostConfig", .object []), ("Id", .string "id"),
    ("State", .object [("Status", .string status.text)])]

theorem containerDocument_valid (status : ContainerStatus) :
    (containerDocument status).Valid (·.isFinite) fun _ => True := by
  refine .object (by cases status <;> (unfold Entries.Ascending; decide +kernel)) (by simp) ?_
  simp only [List.forall_mem_cons, List.not_mem_nil, false_implies, implies_true, and_true]
  refine ⟨?_, ?_, ?_, ?_⟩
  · exact Json.Valid.pair (by decide +kernel) trivial trivial (.string trivial)
      (Json.Valid.pair (by decide +kernel) trivial trivial (.string trivial) (.string trivial))
  · exact .object List.Pairwise.nil (by simp) (by simp)
  · exact .string trivial
  · exact Json.Valid.single trivial (.string trivial)

theorem containerDocument_parses (status : ContainerStatus) :
    parse (FloatText.exact.dump (containerDocument status)) = .ok (containerDocument status) := by
  rw [parse, FloatText.exact.parse_dump (containerDocument_valid status)]
  rfl

theorem containerDocument_accepted (status : ContainerStatus) :
    dockerContainerMatches (containerDocument status) dockerConfig (gpuLaunch 0 []) = .ok true := by
  obtain ⟨spec, created⟩ : ∃ spec, dockerContainerSpec dockerConfig (gpuLaunch 0 []) = .ok spec :=
    ⟨_, rfl⟩
  exact (dockerContainerMatches_iff created).mpr ⟨_, _, _, rfl, rfl, rfl, rfl, rfl, rfl,
    .inl rfl, .inl rfl, .inl rfl, rfl⟩

def dockerContainer (status : ContainerStatus) : DockerContainer dockerBackend where
  id := "id"
  status := status
  body s := FloatText.exact.dump (containerDocument s)
  document := containerDocument
  parses s := by
    dsimp only [dockerBackend]
    exact containerDocument_parses s
  identity _ := rfl
  state _ := rfl
  config _ := rfl
  host _ := rfl

/-- A daemon that keeps the container of the attempt. -/
def daemon (status : ContainerStatus) : Daemon dockerBackend where
  containers := Function.update (fun _ => none) (DockerBackend.containerName (gpuLaunch 0 []))
    (some (dockerContainer status))

def kubernetesBackend : KubernetesBackend :=
  ⟨⟨"runyard", "server:9090", true, "", ""⟩, parse⟩

/-- The Job of the attempt. -/
def jobDocument : Json Number :=
  .object [("metadata", .object [("labels", .object [("runyard.attempt", .string "attempt")]),
      ("uid", .string "uid")]),
    ("spec", .object [("template", .object [("spec", .object [("containers", .array
      [.object [("image", .string spec.image), ("resources", .object [])]])])])])]

theorem jobDocument_parses :
    parse (FloatText.exact.dump jobDocument) = .ok jobDocument := by
  have container : (Json.object [("image", .string spec.image), ("resources", .object [])] :
      Json Number).Valid (·.isFinite) fun _ => True :=
    Json.Valid.pair (by decide +kernel) trivial trivial (.string trivial)
      (.object List.Pairwise.nil (by simp) (by simp))
  have valid : jobDocument.Valid (·.isFinite) fun _ => True := by
    apply Json.Valid.pair (by decide +kernel) trivial trivial
    · exact Json.Valid.pair (by decide +kernel) trivial trivial
        (Json.Valid.single trivial (.string trivial)) (.string trivial)
    · exact Json.Valid.single trivial (Json.Valid.single trivial
        (Json.Valid.single trivial (.array (by simpa using container))))
  rw [parse, FloatText.exact.parse_dump valid]
  rfl

def job : Job kubernetesBackend where
  uid := "uid"
  version := 0
  body _ := FloatText.exact.dump jobDocument
  document _ := jobDocument
  parses _ := by
    dsimp only [kubernetesBackend]
    exact jobDocument_parses
  identity _ := rfl
  labels _ := rfl
  spec _ := rfl

theorem job_accepted :
    kubernetesBackend.reconcile (gpuLaunch 0 []) ⟨200, job.body job.version⟩ = .ok "uid" := by
  rw [KubernetesBackend.reconcile, job.parses]
  rfl

end Sample

/-- On each runtime two calls overlap where nothing is there, and one loses its answer. -/
theorem launch_idempotent_lost :
    (∃ u : DockerState Sample.dockerBackend Bool,
      (dockerSystem Sample.dockerBackend (Sample.gpuLaunch 0 []) ⟨fun _ => none, []⟩).Reachable u ∧
      u.service.log = [.started "runyard-attempt" .created, .created "runyard-attempt"] ∧
      u.returned = ["id"] ∧
      Daemon.Launched Sample.dockerBackend (Sample.gpuLaunch 0 []) u.service "id" ∧
      Daemon.Clean "runyard-attempt" u.service) ∧
    ∃ u : ClusterState Sample.kubernetesBackend Bool,
      (kubernetesSystem Sample.kubernetesBackend (Sample.gpuLaunch 0 [])
        ⟨fun _ => none, []⟩).Reachable u ∧
      u.service.created = ["runyard-attempt"] ∧ u.returned = ["uid"] ∧
      Cluster.Launched Sample.kubernetesBackend (Sample.gpuLaunch 0 []) u.service "uid" := by
  obtain ⟨docker, kubernetes⟩ := launch_idempotent (ι := Bool) Sample.dockerBackend
    Sample.kubernetesBackend (Sample.gpuLaunch 0 [])
  constructor
  · obtain ⟨calls, undisturbed⟩ := docker ⟨fun _ => none, []⟩ rfl
    obtain ⟨spec, hspec⟩ : ∃ spec, dockerContainerSpec Sample.dockerBackend.config
        (Sample.gpuLaunch 0 []) = .ok spec := ⟨_, rfl⟩
    obtain ⟨u, run, _, log, returned⟩ := overlap_creates (ι := Bool) (i := false) (j := true)
      (c := Sample.dockerContainer .created) (u := ⟨⟨fun _ => none, []⟩, fun _ => none, []⟩)
      (by decide) (fun _ => rfl) rfl hspec rfl (Sample.containerDocument_accepted .created)
    refine ⟨u, run.later, log, returned, ((calls u run.later).2.1 "id" ?_).1, undisturbed u run⟩
    rw [returned]
    exact List.mem_singleton.mpr rfl
  · obtain ⟨u, run, _, created, returned⟩ := overlap_posts (ι := Bool) (i := false) (j := true)
      (s := ⟨fun _ => none, []⟩) (w := ⟨⟨fun _ => none, []⟩, fun _ => none, []⟩) (by decide)
      (fun _ => rfl) rfl Sample.job_accepted
    refine ⟨u, run, created, returned, ((kubernetes _ rfl u run).2 "uid" ?_).1⟩
    rw [returned]
    exact List.mem_singleton.mpr rfl

/-- Two calls for a container that was created before. -/
theorem launch_restarted : ∃ u : DockerState Sample.dockerBackend Bool,
    (dockerSystem Sample.dockerBackend (Sample.gpuLaunch 0 []) (Sample.daemon .created)).Reachable
      u ∧
    .started "runyard-attempt" .exited ∈ u.service.log := by
  have kept : (Sample.daemon .created).containers
      (DockerBackend.containerName (Sample.gpuLaunch 0 [])) =
        some (Sample.dockerContainer .created) := by
    simp only [Sample.daemon, Function.update_self]
  exact overlap_restarts (ι := Bool) (i := false) (j := true) (d := Sample.daemon .created)
    (u := ⟨Sample.daemon .created, fun _ => none, []⟩) (by decide) (fun _ => rfl) kept rfl
    (Sample.containerDocument_accepted .created)

end Runyard
