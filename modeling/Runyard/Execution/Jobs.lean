import Runyard.Execution.Containers

/-!
# Launching Kubernetes Jobs

`KubernetesBackend::ensure` as a program of requests, and an API that keeps at most one Job for a
name. Together with the containers: a launch is idempotent whatever answers are lost.
-/

namespace Runyard

structure KubernetesConfig where
  nameSpace : String
  coordinator : String
  development : Bool
  gpuRuntimeClass : String
  runnerCaConfigmap : String
  deriving DecidableEq, Repr

def envVar (key value : String) : Json Number :=
  .ofFields [("name", .string key), ("value", .string value)]

/-- The variables of the container. -/
def jobEnvironment (config : KubernetesConfig) (launch : Launch) : List (Json Number) :=
  let a := launch.assignment.attempt
  [envVar "RUNYARD_ATTEMPT_ID" a.id, envVar "RUNYARD_RUN_ID" a.runId,
    envVar "RUNYARD_GENERATION" (toString a.generation),
    envVar "RUNYARD_CAPABILITY" launch.capability,
    envVar "RUNYARD_COORDINATOR" config.coordinator] ++
  (if config.development then [envVar "RUNYARD_PROFILE" "development"] else []) ++
  [.ofFields [("name", .string "RUNYARD_NODE_NAME"), ("valueFrom", .ofFields
    [("fieldRef", .ofFields [("fieldPath", .string "spec.nodeName")])])]] ++
  (if launch.assignment.spec.resources.gpuCount = 0 then [envVar "NVIDIA_VISIBLE_DEVICES" "void"]
    else []) ++
  if config.runnerCaConfigmap ≠ "" then [envVar "RUNYARD_TLS_CA" "/etc/runyard/ca/ca.crt"] else []

def jobResources (resources : Resources) : Json Number :=
  .ofFields <|
    [("cpu", .string (toString resources.cpuMillis ++ "m")),
      ("memory", .string (toString resources.memoryMib ++ "Mi"))] ++
    if 0 < resources.gpuCount then [("nvidia.com/gpu", .string (toString resources.gpuCount))]
    else []

def jobContainer (config : KubernetesConfig) (launch : Launch) : Json Number :=
  let s := launch.assignment.spec
  .ofFields <|
    [("name", .string "experiment"), ("image", .string s.image),
      ("imagePullPolicy", .string "IfNotPresent"),
      ("command", .array [.string "/usr/local/bin/runyard-runner"]),
      ("env", .array (jobEnvironment config launch)),
      ("resources", .ofFields
        [("requests", jobResources s.resources), ("limits", jobResources s.resources)]),
      ("securityContext", .ofFields [("allowPrivilegeEscalation", .boolean false),
        ("capabilities", .ofFields [("drop", .array [.string "ALL"])])])] ++
    if config.runnerCaConfigmap ≠ "" then
      [("volumeMounts", .array [.ofFields [("name", .string "ca"),
        ("mountPath", .string "/etc/runyard/ca"), ("readOnly", .boolean true)]])]
    else []

/-- What a Job with GPUs adds to its pod. -/
def gpuPlacement (config : KubernetesConfig) : List (String × Json Number) :=
  [("nodeSelector", .ofFields [("runyard.io/gpu-mode", .string "exclusive")]),
    ("tolerations", .array [.ofFields [("key", .string "nvidia.com/gpu"),
      ("operator", .string "Exists"), ("effect", .string "NoSchedule")]])] ++
  if config.gpuRuntimeClass ≠ "" then [("runtimeClassName", .string config.gpuRuntimeClass)] else []

def jobPod (config : KubernetesConfig) (launch : Launch) : Json Number :=
  .ofFields <|
    [("restartPolicy", .string "Never"), ("automountServiceAccountToken", .boolean false),
      ("serviceAccountName", .string "workload"), ("terminationGracePeriodSeconds", encodeInt 15),
      ("securityContext", .ofFields [("runAsNonRoot", .boolean true),
        ("runAsUser", encodeInt 10001), ("runAsGroup", encodeInt 10001),
        ("seccompProfile", .ofFields [("type", .string "RuntimeDefault")])])] ++
    (if 0 < launch.assignment.spec.resources.gpuCount then gpuPlacement config else []) ++
    (if config.runnerCaConfigmap ≠ "" then
      [("volumes", .array [.ofFields [("name", .string "ca"),
        ("configMap", .ofFields [("name", .string config.runnerCaConfigmap)])]])]
    else []) ++
    [("containers", .array [jobContainer config launch])]

/-- `kubernetes_job`. -/
def kubernetesJob (config : KubernetesConfig) (launch : Launch) : Json Number :=
  let a := launch.assignment.attempt
  let labels : Json Number := .ofFields [("app.kubernetes.io/managed-by", .string "runyard"),
    ("runyard.attempt", .string a.id), ("runyard.run", .string a.runId)]
  .ofFields [("apiVersion", .string "batch/v1"), ("kind", .string "Job"),
    ("metadata", .ofFields [("name", .string ("runyard-" ++ a.id)),
      ("namespace", .string config.nameSpace), ("labels", labels)]),
    ("spec", .ofFields [("completions", encodeInt 1), ("parallelism", encodeInt 1),
      ("backoffLimit", encodeInt 0), ("template", .ofFields
        [("metadata", .ofFields [("labels", labels)]), ("spec", jobPod config launch)])])]

/-- `kubernetes_request` on the endpoints that `ensure` uses. -/
inductive KubernetesRequest where
  /-- `GET {jobs}/{name}` -/
  | get (name : String)
  /-- `POST {jobs}` -/
  | post (job : Json Number)

structure KubernetesBackend where
  config : KubernetesConfig
  /-- `Json::parse`. -/
  parse : String → Json.Access (Json Number)

abbrev KubernetesCall (α : Type) := Remote KubernetesRequest HttpResult Abort α

/-- `at(i)` of an array. -/
def itemAt (i : Nat) : Json Number → Json.Access (Json Number)
  | .array items =>
    match items[i]? with
    | some value => .ok value
    | none => .error ("[json.exception.out_of_range.401] array index " ++ toString i ++
      " is out of range")
  | j => .error ("[json.exception.type_error.304] cannot use at() with " ++ j.typeName)

namespace KubernetesBackend

variable (b : KubernetesBackend)

/-- `KubernetesBackend::call`. -/
def call (r : KubernetesRequest) : KubernetesCall HttpResult := do
  let result ← Remote.request r
  throwIf (500 ≤ result.status || result.status = 429) .unavailable "Kubernetes API unavailable"
  return result

/-- One round of the loop over `requests` and `limits`. -/
def checkQuantity (count : Int) (resources : Json Number) (kind : String) : Checked Unit := do
  let quantities ← resources.valueOr kind (.object []) .ok
  let quantity ← quantities.valueOr "nvidia.com/gpu" (.string "0") .ok
  throwIf (!quantity.equal Number.equal (.string (toString count)) &&
    !quantity.equal Number.equal (encodeInt count)) .conflict
    "Kubernetes GPU request does not match assignment"

def checkSelector (count : Int) (pod : Json Number) : Checked Unit := do
  if 0 < count then do
    let selector ← pod.valueOr "nodeSelector" (.object []) .ok
    let mode ← selector.valueOr "runyard.io/gpu-mode" "" Json.getString
    throwIf (mode ≠ "exclusive") .conflict "Kubernetes GPU placement does not match assignment"
  else return ()

def checkIdentity (launch : Launch) (job : Json Number) : Checked Unit := do
  let labels ← (← job.field "metadata").field "labels"
  let attempt ← labels.valueOr "runyard.attempt" "" Json.getString
  if attempt ≠ launch.assignment.attempt.id then
    liftM (fault .conflict "Kubernetes Job name belongs to another resource" : Result Unit)
  else do
    let pod ← (← (← job.field "spec").field "template").field "spec"
    let image ← (← (← itemAt 0 (← pod.field "containers")).field "image").getString
    throwIf (image ≠ launch.assignment.spec.image) .conflict
      "Kubernetes Job name belongs to another resource"

/-- What `ensure` makes of the answer that it ends with. -/
def reconcile (launch : Launch) (response : HttpResult) : Checked String := do
  throwIf (response.status ≠ 200 && response.status ≠ 201) .unavailable
    "cannot reconcile Kubernetes Job"
  let job ← b.parse response.body
  checkIdentity launch job
  let pod ← (← (← job.field "spec").field "template").field "spec"
  let resources ← (← itemAt 0 (← pod.field "containers")).field "resources"
  let count := launch.assignment.spec.resources.gpuCount
  checkQuantity count resources "requests"
  checkQuantity count resources "limits"
  checkSelector count pod
  (← (← job.field "metadata").field "uid").getString

def jobName (launch : Launch) : String := "runyard-" ++ launch.assignment.attempt.id

/-- `KubernetesBackend::ensure`. -/
def ensure (launch : Launch) : KubernetesCall String := do
  let response ← call (.get (jobName launch))
  if response.status = 404 then do
    let response ← call (.post (kubernetesJob b.config launch))
    if response.status = 409 then do
      let response ← call (.get (jobName launch))
      b.reconcile launch response
    else b.reconcile launch response
  else b.reconcile launch response

end KubernetesBackend

/-! ## The API -/

/-- A Job with its representation in every version: the status changes, the identity, the labels
and the specification do not. -/
structure Job (b : KubernetesBackend) where
  uid : String
  version : Nat
  body : Nat → String
  document : Nat → Json Number
  parses : ∀ n, b.parse (body n) = .ok (document n)
  identity : ∀ n, (document n).path? ["metadata", "uid"] = some (.string uid)
  labels : ∀ n, (document n).path? ["metadata", "labels"] =
    (document 0).path? ["metadata", "labels"]
  spec : ∀ n, (document n).find? "spec" = (document 0).find? "spec"

/-- The Jobs by their names, and the names of those that were created. -/
structure Cluster (b : KubernetesBackend) where
  jobs : String → Option (Job b)
  created : List String := []

namespace Cluster

variable {b : KubernetesBackend}

/-- The choice is the Job that a creation makes. -/
def handle (k : Job b) (s : Cluster b) : KubernetesRequest → HttpResult × Cluster b
  | .get name =>
    match s.jobs name with
    | none => (⟨404, ""⟩, s)
    | some j => (⟨200, j.body j.version⟩, s)
  | .post job =>
    match job.path? ["metadata", "name"] with
    | some (.string name) =>
      match s.jobs name with
      | some _ => (⟨409, ""⟩, s)
      | none => (⟨201, k.body k.version⟩,
        { jobs := Function.update s.jobs name (some k), created := name :: s.created })
    | _ => (⟨422, ""⟩, s)

/-- The answers that end a call. -/
def fails : KubernetesRequest → HttpResult → Bool
  | .get _, x => x.status ≠ 200 && x.status ≠ 201 && x.status ≠ 404
  | .post _, x => x.status ≠ 200 && x.status ≠ 201 && x.status ≠ 409

/-- The controller writes the status of a Job. -/
def drift (name : String) (s : Cluster b) : Option (Cluster b) :=
  (s.jobs name).map fun j =>
    { s with jobs := Function.update s.jobs name (some { j with version := j.version + 1 }) }

end Cluster

def kubernetesService (b : KubernetesBackend) :
    Service (Cluster b) KubernetesRequest HttpResult (Job b) String where
  handle := Cluster.handle
  fails := Cluster.fails
  drift := Cluster.drift

/-- A Job of exactly this attempt, with its image and its GPUs. -/
structure JobMatches (launch : Launch) (job : Json Number) : Prop where
  attempt : Reads job ["metadata", "labels", "runyard.attempt"] launch.assignment.attempt.id
  pod : ∃ pod first rest resources, job.path? ["spec", "template", "spec"] = some pod ∧
    pod.find? "containers" = some (.array (first :: rest)) ∧
    first.find? "image" = some (.string launch.assignment.spec.image) ∧
    first.find? "resources" = some resources ∧
    (∀ kind ∈ ["requests", "limits"],
      let quantity := (resources.path? [kind, "nvidia.com/gpu"]).getD (.string "0")
      quantity.equal Number.equal (.string (toString launch.assignment.spec.resources.gpuCount)) ∨
        quantity.equal Number.equal (encodeInt launch.assignment.spec.resources.gpuCount)) ∧
    (0 < launch.assignment.spec.resources.gpuCount →
      Reads pod ["nodeSelector", "runyard.io/gpu-mode"] "exclusive")

section Reconcile

variable {b : KubernetesBackend} {launch : Launch}

theorem JobMatches.of_same {job other : Json Number} (h : JobMatches launch job)
    (labels : other.path? ["metadata", "labels"] = job.path? ["metadata", "labels"])
    (spec : other.find? "spec" = job.find? "spec") : JobMatches launch other := by
  have path (key : String) : other.path? ["metadata", "labels", key] =
      job.path? ["metadata", "labels", key] := by
    have joined (j : Json Number) : j.path? ["metadata", "labels", key] =
        (j.path? ["metadata", "labels"]).bind (·.find? key) := by
      simp [Option.bind_assoc]
    rw [joined, joined, labels]
  refine ⟨?_, ?_⟩
  · rw [Reads, path]
    exact h.attempt
  · obtain ⟨pod, first, rest, resources, hpod, others⟩ := h.pod
    refine ⟨pod, first, rest, resources, ?_, others⟩
    rw [Json.path?_cons, spec]
    exact hpod

theorem itemAt_ok {j value : Json Number} :
    itemAt 0 j = .ok value ↔ ∃ rest, j = .array (value :: rest) := by
  cases j with
  | array items => cases items <;> simp [itemAt]
  | null | boolean | number | string | object => simp [itemAt]

/-- A text in a field of a field, both of which may be missing. -/
theorem reads_nested {j inner : Json Number} {outer key text : String}
    (houter : j.valueOr outer (.object []) .ok = .ok inner)
    (htext : inner.valueOr key "" Json.getString = .ok text) : Reads j [outer, key] text := by
  have nested : j.path? [outer, key] = inner.path? [key] := by
    rw [Json.path?_cons, Json.path?_cons, ← Json.valueOr_getD houter, Json.find?_getD]
    simp
  rw [Reads, nested]
  exact reads_of_valueOr htext

theorem checkQuantity_ok {count : Int} {resources : Json Number} {kind : String} {u : Unit}
    (h : KubernetesBackend.checkQuantity count resources kind = .ok u) :
    let quantity := (resources.path? [kind, "nvidia.com/gpu"]).getD (.string "0")
    quantity.equal Number.equal (.string (toString count)) ∨
      quantity.equal Number.equal (encodeInt count) := by
  unfold KubernetesBackend.checkQuantity at h
  simp only [Except.bind_eq_ok, Checked.lift_access_ok, Checked.lift_result_ok,
    Result.throwIf_ok] at h
  obtain ⟨quantities, houter, quantity, hquantity, accepted⟩ := h
  have nested : (resources.path? [kind, "nvidia.com/gpu"]).getD (.string "0") = quantity := by
    have path : resources.path? [kind, "nvidia.com/gpu"] = quantities.find? "nvidia.com/gpu" := by
      rw [← Json.valueOr_getD houter, Json.find?_getD]
      simp
    rw [path]
    exact Json.valueOr_getD hquantity
  rw [nested]
  simp only [Bool.and_eq_true, Bool.not_eq_eq_eq_not, Bool.not_true, not_and,
    Bool.not_eq_false] at accepted
  by_cases text : quantity.equal Number.equal (.string (toString count))
  · exact .inl text
  · exact .inr (accepted (Bool.eq_false_iff.mpr text))

theorem checkSelector_ok {count : Int} {pod : Json Number} {u : Unit}
    (h : KubernetesBackend.checkSelector count pod = .ok u) (positive : 0 < count) :
    Reads pod ["nodeSelector", "runyard.io/gpu-mode"] "exclusive" := by
  unfold KubernetesBackend.checkSelector at h
  simp only [if_pos positive, Except.bind_eq_ok, Checked.lift_access_ok, Checked.lift_result_ok,
    Result.throwIf_ok, ne_eq, decide_eq_true_eq, not_not] at h
  obtain ⟨selector, houter, mode, hmode, rfl⟩ := h
  exact reads_nested houter hmode

theorem checkIdentity_ok {job : Json Number} {u : Unit}
    (h : KubernetesBackend.checkIdentity launch job = .ok u) :
    Reads job ["metadata", "labels", "runyard.attempt"] launch.assignment.attempt.id ∧
    ∃ pod first rest, job.path? ["spec", "template", "spec"] = some pod ∧
      pod.find? "containers" = some (.array (first :: rest)) ∧
      first.find? "image" = some (.string launch.assignment.spec.image) := by
  unfold KubernetesBackend.checkIdentity at h
  simp only [Except.bind_eq_ok, Checked.lift_access_ok, Json.field_ok] at h
  obtain ⟨metadata, hmetadata, labels, hlabels, attempt, hattempt, h⟩ := h
  split at h
  · cases h
  next same =>
    rw [ne_eq, not_not] at same
    subst same
    simp only [Except.bind_eq_ok, Checked.lift_access_ok, Checked.lift_result_ok, Json.field_ok,
      Json.getString_ok, itemAt_ok, Result.throwIf_ok, ne_eq, decide_eq_true_eq, not_not] at h
    obtain ⟨spec, hspec, template, htemplate, pod, hpod, _, hcontainers, first, ⟨rest, rfl⟩, _,
      himage, image, rfl, rfl⟩ := h
    refine ⟨?_, pod, first, rest, ?_, hcontainers, himage⟩
    · have path : job.path? ["metadata", "labels", "runyard.attempt"] =
          labels.path? ["runyard.attempt"] := by
        simp [hmetadata, hlabels]
      rw [Reads, path]
      exact reads_of_valueOr hattempt
    · simp [hspec, htemplate, hpod]

theorem reconcile_ok {response : HttpResult} {uid : String}
    (h : b.reconcile launch response = .ok uid) :
    (response.status = 200 ∨ response.status = 201) ∧ ∃ job, b.parse response.body = .ok job ∧
      JobMatches launch job ∧ job.path? ["metadata", "uid"] = some (.string uid) := by
  unfold KubernetesBackend.reconcile at h
  simp only [Except.bind_eq_ok, Checked.lift_access_ok, Checked.lift_result_ok,
    Result.throwIf_ok, Json.field_ok, Json.getString_ok, itemAt_ok] at h
  obtain ⟨_, status, job, parsed, _, identity, spec, hspec, template, htemplate, pod, hpod, _,
    hcontainers, first, ⟨rest, rfl⟩, resources, hresources, _, requests, _, limits, _, selector,
    metadata, hmetadata, _, huid, rfl⟩ := h
  have path : job.path? ["spec", "template", "spec"] = some pod := by
    simp [hspec, htemplate, hpod]
  obtain ⟨attempt, pod', first', rest', hpod', hcontainers', himage⟩ := checkIdentity_ok identity
  cases path.symm.trans hpod'
  cases hcontainers.symm.trans hcontainers'
  refine ⟨?_, job, parsed, ⟨attempt, pod, first, rest, resources, path, hcontainers, himage,
    hresources, ?_, checkSelector_ok selector⟩, ?_⟩
  · simp only [ne_eq, Bool.and_eq_true, decide_eq_true_eq, not_and, not_not] at status
    by_cases ok : response.status = 200
    · exact .inl ok
    · exact .inr (status ok)
  · intro kind hkind
    simp only [List.mem_cons, List.not_mem_nil, or_false] at hkind
    rcases hkind with rfl | rfl
    · exact checkQuantity_ok requests
    · exact checkQuantity_ok limits
  · simp [hmetadata, huid]

end Reconcile

/-! ## `ensure` keeps the contract -/

namespace Cluster

variable {b : KubernetesBackend} {name : String} {s t u : Cluster b}

/-- The Job of the name stays, in whatever version. -/
def Persists (name : String) (s t : Cluster b) : Prop :=
  ∀ j, s.jobs name = some j → ∃ n, t.jobs name = some { j with version := n }

/-- At most one Job of the name was created, and none if there is none. -/
def Single (name : String) (s : Cluster b) : Prop :=
  s.created.count name ≤ 1 ∧ (s.jobs name = none → s.created.count name = 0)

theorem Persists.refl (s : Cluster b) : Persists name s s := fun j hj => ⟨j.version, hj⟩

theorem Persists.trans (first : Persists name s t) (second : Persists name t u) :
    Persists name s u := by
  intro j hj
  obtain ⟨_, ht⟩ := first j hj
  obtain ⟨n, hu⟩ := second _ ht
  exact ⟨n, hu⟩

def contract (b : KubernetesBackend) (name : String) : Contract (Cluster b) KubernetesRequest where
  rely := fun _ s t => Persists name s t
  guarantee := fun s t => Persists name s t ∧ (Single name s → Single name t)
  refl := fun _ s => .refl s
  trans := fun _ _ _ _ first second => first.trans second
  still := fun s => ⟨.refl s, id⟩
  covers := fun _ _ _ h => h.1

/-- The Job of the name is the one of the launch and has this identity. -/
def Launched (b : KubernetesBackend) (launch : Launch) (s : Cluster b) (uid : String) : Prop :=
  ∃ j, s.jobs (KubernetesBackend.jobName launch) = some j ∧ j.uid = uid ∧
    JobMatches launch (j.document j.version)

theorem launched_stable {launch : Launch} {uid : String} (h : Launched b launch s uid)
    (persists : Persists (KubernetesBackend.jobName launch) s t) : Launched b launch t uid := by
  obtain ⟨j, hj, rfl, matched⟩ := h
  obtain ⟨n, ht⟩ := persists j hj
  refine ⟨_, ht, rfl, matched.of_same ?_ ?_⟩
  · exact (j.labels _).trans (j.labels _).symm
  · exact (j.spec _).trans (j.spec _).symm

theorem drift_persists {e : String} (name : String) (h : drift e s = some t) :
    Persists name s t ∧ t.created = s.created := by
  obtain ⟨j, hj, rfl⟩ := Option.map_eq_some_iff.mp h
  refine ⟨fun j' hj' => ?_, rfl⟩
  by_cases same : name = e
  · subst same
    cases hj.symm.trans hj'
    exact ⟨_, Function.update_self ..⟩
  · exact ⟨j'.version, (Function.update_of_ne same ..).trans hj'⟩

end Cluster

section Safe

variable {b : KubernetesBackend} {launch : Launch} {s : Cluster b}

abbrev KubernetesSafe (b : KubernetesBackend) (launch : Launch) (p : KubernetesCall String)
    (s : Cluster b) : Prop :=
  (kubernetesService b).Safe (Cluster.contract b (KubernetesBackend.jobName launch))
    (Cluster.Launched b launch) p s

/-- An answer that shows the Job of the launch, or no Job. -/
def ShowsJob (launch : Launch) (s : Cluster b) (x : HttpResult) : Prop :=
  x.status ≠ 200 ∧ x.status ≠ 201 ∨
  ∃ j n, s.jobs (KubernetesBackend.jobName launch) = some j ∧ x.body = j.body n

theorem reconcile_safe {x : HttpResult} (shows : ShowsJob launch s x) :
    KubernetesSafe b launch (.done (b.reconcile launch x)) s := by
  apply Service.Safe.lift
  intro uid huid t persists
  obtain ⟨status, job, parsed, matched, identity⟩ := reconcile_ok huid
  rcases shows with ⟨notOk, notCreated⟩ | ⟨j, n, hj, body⟩
  · exact absurd status (by simp [notOk, notCreated])
  · rw [body, j.parses] at parsed
    cases parsed
    cases identity.symm.trans (j.identity n)
    refine Cluster.launched_stable ⟨j, hj, rfl, matched.of_same ?_ ?_⟩ persists
    · exact (j.labels _).trans (j.labels _).symm
    · exact (j.spec _).trans (j.spec _).symm

/-- After a request: an unavailable API ends the call. -/
theorem call_safe {r : KubernetesRequest} {f : HttpResult → KubernetesCall String}
    (moves : ∀ t k, (Cluster.contract b (KubernetesBackend.jobName launch)).guarantee t
      (Cluster.handle k t r).2)
    (answers : ∀ t k, KubernetesSafe b launch (f (Cluster.handle k t r).1) (Cluster.handle k t r).2)
    (failures : ∀ t x, Cluster.fails r x → KubernetesSafe b launch (f x) t) :
    KubernetesSafe b launch (KubernetesBackend.call r >>= f) s := by
  have checked (t : Cluster b) (x : HttpResult) (goes : KubernetesSafe b launch (f x) t) :
      KubernetesSafe b launch ((Remote.done (liftM (throwIf (500 ≤ x.status || x.status = 429)
        .unavailable "Kubernetes API unavailable")) >>= fun _ => .done (.ok x)) >>= f) t := by
    cases throwIf (500 ≤ x.status || x.status = 429) .unavailable
      "Kubernetes API unavailable" with
    | ok _ => exact goes
    | error e => trivial
  intro t _
  constructor
  · intro k
    exact ⟨moves t k, checked _ _ (answers t k)⟩
  · intro k x hx
    exact checked _ x (failures _ x hx)

theorem get_safe {f : HttpResult → KubernetesCall String}
    (goes : ∀ t x, ShowsJob launch t x → KubernetesSafe b launch (f x) t) :
    KubernetesSafe b launch
      (KubernetesBackend.call (.get (KubernetesBackend.jobName launch)) >>= f) s := by
  have unchanged (k : Job b) (t : Cluster b) :
      (Cluster.handle k t (.get (KubernetesBackend.jobName launch))).2 = t := by
    simp only [Cluster.handle]
    split
    · rfl
    · rfl
  apply call_safe
  · intro t k
    rw [unchanged]
    exact (Cluster.contract b _).still t
  · intro t k
    rw [unchanged]
    apply goes
    simp only [Cluster.handle]
    split
    · exact .inl (by simp)
    next j hj => exact .inr ⟨j, j.version, hj, rfl⟩
  · intro t x fails
    refine goes t x (.inl ?_)
    simp only [Cluster.fails, ne_eq, Bool.and_eq_true, decide_eq_true_eq] at fails
    exact fails.1

theorem kubernetesJob_name (config : KubernetesConfig) (launch : Launch) :
    (kubernetesJob config launch).path? ["metadata", "name"] =
      some (.string (KubernetesBackend.jobName launch)) := by
  rw [kubernetesJob, Json.path?_cons, Json.find?_ofFields _ (by simp)]
  simp [Entries.lookup_cons, Json.find?_ofFields, KubernetesBackend.jobName]

theorem post_guarantee (k : Job b) (t : Cluster b) (config : KubernetesConfig) :
    (Cluster.contract b (KubernetesBackend.jobName launch)).guarantee t
      (Cluster.handle k t (.post (kubernetesJob config launch))).2 := by
  simp only [Cluster.handle, kubernetesJob_name]
  cases hname : t.jobs (KubernetesBackend.jobName launch) with
  | some j => exact (Cluster.contract b _).still t
  | none =>
    constructor
    · intro j hj
      rw [hname] at hj
      cases hj
    · rintro ⟨_, none⟩
      constructor
      · simp [none hname]
      · simp

theorem ensure_job_safe (s : Cluster b) : KubernetesSafe b launch (b.ensure launch) s := by
  unfold KubernetesBackend.ensure
  refine get_safe fun t response shows => ?_
  split
  · apply call_safe
    · exact fun t k => post_guarantee k t b.config
    · intro t k
      simp only [Cluster.handle, kubernetesJob_name]
      cases hname : t.jobs (KubernetesBackend.jobName launch) with
      | some j => exact get_safe fun t x shows => reconcile_safe shows
      | none => exact reconcile_safe (.inr ⟨k, k.version, Function.update_self .., rfl⟩)
    · intro t x fails
      simp only [Cluster.fails, ne_eq, Bool.and_eq_true, decide_eq_true_eq] at fails
      rw [if_neg fails.2]
      exact reconcile_safe (.inl fails.1)
  · exact reconcile_safe shows

end Safe

/-! ## Runs -/

section Runs

variable {b : KubernetesBackend} {launch : Launch} {ι : Type} [DecidableEq ι]

abbrev ClusterState (b : KubernetesBackend) (ι : Type) :=
  Service.State (Cluster b) KubernetesRequest HttpResult Abort String ι

abbrev ClusterAct (b : KubernetesBackend) (ι : Type) := Service.Act HttpResult (Job b) String ι

/-- Calls of `ensure` for one launch, against an API that begins in any state. -/
def kubernetesSystem (b : KubernetesBackend) (launch : Launch) (s : Cluster b) :
    System (ClusterState b ι) (ClusterAct b ι) :=
  (kubernetesService b).system (b.ensure launch) s

/-- What a run of calls keeps. -/
theorem kubernetes_run {s : Cluster b} (fresh : s.created = []) {u : ClusterState b ι}
    (run : (kubernetesSystem b launch s).Reachable u) :
    Cluster.Single (KubernetesBackend.jobName launch) u.service ∧
    ∀ a ∈ u.returned, Cluster.Launched b launch u.service a := by
  let name := KubernetesBackend.jobName launch
  have start : Cluster.Single name s := by
    constructor
    · simp [fresh]
    · simp [fresh]
  have good : Service.Good (kubernetesService b) (Cluster.contract b name)
      (Cluster.Launched b launch) (⟨s, fun _ => none, []⟩ : ClusterState b ι) := .init s
  have kept := good.run (P := Cluster.Single name) run start ensure_job_safe ?_ ?_ ?_
  · exact ⟨kept.2, fun a ha => (kept.1.2 a ha) _ ((Cluster.contract b name).refl none _)⟩
  · intro u e t _ ht
    have persists := (Cluster.drift_persists name ht).1
    exact ⟨persists, fun _ _ _ => persists⟩
  · exact fun s t moved => moved.2
  · rintro e s t ht ⟨few, none⟩
    obtain ⟨persists, created⟩ := Cluster.drift_persists name ht
    refine ⟨created ▸ few, fun missing => created ▸ none ?_⟩
    cases hs : s.jobs name with
    | none => rfl
    | some j =>
      obtain ⟨n, ht⟩ := persists j hs
      rw [missing] at ht
      cases ht

end Runs

end Runyard
