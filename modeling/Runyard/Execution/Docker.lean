import Runyard.Cluster.Resources
import Runyard.Serialization.Codec
import Runyard.Serialization.Text
import Runyard.Store.Operations
import Mathlib.Data.List.Dedup
import Mathlib.Data.List.Sort
import Mathlib.Data.String.Basic

/-!
# Containers of attempts

`docker_container_spec` builds the document that creates the container of an attempt, and
`docker_container_matches` checks the document of a container that exists. The two are separate
code; what the first one builds is what the second one accepts.
-/

namespace Runyard

structure Launch where
  assignment : Assignment
  capability : String
  deriving DecidableEq

structure DockerConfig where
  network : String
  worker : String
  coordinator : String
  caHostPath : String
  development : Bool
  deriving DecidableEq, Repr

/-- The UUIDs of the allocations. -/
def Launch.gpuIds (launch : Launch) : List String := launch.assignment.gpuAllocations.map (·.uuid)

/-- One round of the loop that joins the UUIDs. -/
def appendVisible (visible id : String) : Result String := do
  throwIf (!startsWith id "GPU-") .invalid "invalid assigned GPU UUID"
  return (if visible ≠ "" then visible ++ "," else visible) ++ id

def deviceRequest (ids : List String) : Json Number :=
  .ofFields [("Driver", .string "nvidia"), ("Count", encodeInt 0),
    ("DeviceIDs", .array (ids.map .string)), ("Capabilities", .array [.array [.string "gpu"]])]

/-- What the branch on `gpu_count` adds: the variables and the fields of `HostConfig`. -/
def gpuAccess (launch : Launch) : Result (List String × List (String × Json Number)) := do
  let ids := launch.gpuIds
  let count := launch.assignment.spec.resources.gpuCount
  if 0 < count then do
    throwIf ((ids.length : Int) ≠ count || ids.dedup.length ≠ ids.length) .invalid
      "assignment requires exact, distinct GPU UUIDs"
    let visible ← ids.foldlM appendVisible ""
    return (["NVIDIA_VISIBLE_DEVICES=" ++ visible, "NVIDIA_DRIVER_CAPABILITIES=compute,utility"],
      [("DeviceRequests", .array [deviceRequest ids])])
  else do
    throwIf (ids ≠ []) .invalid "CPU assignment contains GPU allocations"
    return (["NVIDIA_VISIBLE_DEVICES=void"], [])

def dockerEnvironment (config : DockerConfig) (launch : Launch) : List String :=
  let a := launch.assignment.attempt
  ["RUNYARD_ATTEMPT_ID=" ++ a.id, "RUNYARD_RUN_ID=" ++ a.runId,
    "RUNYARD_GENERATION=" ++ toString a.generation, "RUNYARD_CAPABILITY=" ++ launch.capability,
    "RUNYARD_COORDINATOR=" ++ config.coordinator,
    "RUNYARD_PROFILE=" ++ if config.development then "development" else "production"]

/-- What a certificate authority of the host adds: a field of `HostConfig` and a variable. -/
def authority (config : DockerConfig) : List (String × Json Number) × List String :=
  if config.caHostPath ≠ "" then
    ([("Binds", .array [.string (config.caHostPath ++ ":/runyard-ca.pem:ro")])],
      ["RUNYARD_TLS_CA=/runyard-ca.pem"])
  else ([], [])

def dockerHost (config : DockerConfig) (resources : Resources)
    (devices : List (String × Json Number)) : Json Number :=
  .ofFields <|
    [("NetworkMode", .string config.network),
      ("NanoCpus", encodeInt (resources.cpuMillis * 1000000)),
      ("Memory", encodeInt (resources.memoryMib * 1024 * 1024)),
      ("MemorySwap", encodeInt (resources.memoryMib * 1024 * 1024)), ("PidsLimit", encodeInt 256),
      ("Init", .boolean true), ("CapDrop", .array [.string "ALL"]),
      ("SecurityOpt", .array [.string "no-new-privileges"])] ++ devices ++ (authority config).1

/-- `docker_container_spec`. -/
def dockerContainerSpec (config : DockerConfig) (launch : Launch) : Result (Json Number) := do
  let a := launch.assignment.attempt
  let s := launch.assignment.spec
  let (visibility, devices) ← gpuAccess launch
  let environment := dockerEnvironment config launch ++ visibility ++ (authority config).2
  return .ofFields
    [("Image", .string s.image), ("Entrypoint", .array [.string "/usr/local/bin/runyard-runner"]),
      ("Cmd", .array []), ("Env", .array (environment.map .string)),
      ("User", .string "10001:10001"),
      ("Labels", .ofFields
        [("runyard.attempt", .string a.id), ("runyard.worker", .string config.worker)]),
      ("HostConfig", dockerHost config s.resources devices)]

/-- `get<int>()`: the conversion of the language, also of a truth value. A float that no `int`
holds has no value. -/
def getInt : Json Number → Checked Int
  | .boolean b => .ok (if b then 1 else 0)
  | .number (.integer value) => .ok (BitVec.ofInt 32 value.toInt).toInt
  | .number (.unsigned value) => .ok (BitVec.ofNat 32 value.toNat).toInt
  | .number (.float value) =>
    match value.truncated with
    | some n => if intMin ≤ n ∧ n ≤ intMax then .ok n else .error .overflow
    | none => .error .overflow
  | j => liftM (j.mismatch "number" : Json.Access Int)

/-- `value(key, fallback)` of an `int`. -/
def intOr (key : String) (fallback : Int) (j : Json Number) : Checked Int := do
  match ← j.valueOr key none fun value => .ok (some value) with
  | some value => getInt value
  | none => return fallback

/-- The part of `docker_container_matches` about the only device request that is there. -/
def deviceMatches (wanted found : Json Number) : Checked Bool := do
  if (← found.valueOr "Driver" "" Json.getString) ≠ "nvidia" then return false
  else if (← intOr "Count" (-1) found) ≠ 0 then return false
  else if !(← found.valueOr "Capabilities" .null .ok).equal Number.equal
      (← wanted.constItem "Capabilities") then return false
  else do
    let ids ← found.valueOr "DeviceIDs" [] Json.getStrings
    let required ← (← wanted.constItem "DeviceIDs").getStrings
    return ids.insertionSort (· ≤ ·) = required.insertionSort (· ≤ ·)

/-- The end of `docker_container_matches`: no requests at all, or exactly the wanted one. -/
def requestsMatch (gpuCount : Int) (wanted : Json Number) : Json Number → Checked Bool
  | .null => return gpuCount = 0
  | .array [] => return gpuCount = 0
  | .array [found] => if gpuCount = 0 then return false else deviceMatches wanted found
  | _ => return false

/-- `docker_container_matches`. -/
def dockerContainerMatches (container : Json Number) (config : DockerConfig) (launch : Launch) :
    Checked Bool := do
  let expected ← dockerContainerSpec config launch
  let actual ← container.field "Config"
  if (← actual.valueOr "Image" "" Json.getString) ≠ (← (expected.item "Image").getString) then
    return false
  else if (← (← actual.valueOr "Labels" (.object []) .ok).valueOr "runyard.attempt" ""
      Json.getString) ≠ launch.assignment.attempt.id then return false
  else if (← (← actual.valueOr "Labels" (.object []) .ok).valueOr "runyard.worker" ""
      Json.getString) ≠ config.worker then return false
  else do
    let host ← container.valueOr "HostConfig" (.object []) .ok
    let requests ← host.valueOr "DeviceRequests" .null .ok
    requestsMatch launch.assignment.spec.resources.gpuCount
      (((expected.item "HostConfig").item "DeviceRequests").element 0) requests

/-! ## What the documents say -/

/-- A request of an inspection is for the devices of the one that was sent: driver and
capabilities are equal, the count is the same `int`, and the identifiers come in any order. A
number that was read back may be of another kind, and there may be more fields. -/
structure SameDevices (created found : Json Number) : Prop where
  driver : found.find? "Driver" = created.find? "Driver"
  count : ∃ sent read, created.find? "Count" = some sent ∧ found.find? "Count" = some read ∧
    getInt read = getInt sent
  capabilities : ∃ sent read, created.find? "Capabilities" = some sent ∧
    found.find? "Capabilities" = some read ∧ read.equal Number.equal sent
  devices : ∃ ids others, created.find? "DeviceIDs" = some (.array ids) ∧
    found.find? "DeviceIDs" = some (.array others) ∧ others.Perm ids

/-- The inspection of a container that was created from `spec`. The image may have brought more
labels, and where no devices were requested, the field may be there without any. -/
structure Inspects (spec container : Json Number) : Prop where
  image : container.path? ["Config", "Image"] = spec.path? ["Image"]
  labels : ∀ key value, spec.path? ["Labels", key] = some value →
    container.path? ["Config", "Labels", key] = some value
  host : ∃ host, container.find? "HostConfig" = some host ∧ host.isObject
  devices : ∀ requests, spec.path? ["HostConfig", "DeviceRequests"] = some (.array requests) →
    ∃ others, container.path? ["HostConfig", "DeviceRequests"] = some (.array others) ∧
      List.Forall₂ SameDevices requests others
  none : spec.path? ["HostConfig", "DeviceRequests"] = none →
    container.path? ["HostConfig", "DeviceRequests"] ∈ [none, some .null, some (.array [])]

/-- The text of a field, which is read as the empty text where the field is missing. -/
def Reads (j : Json Number) (path : List String) (text : String) : Prop :=
  j.path? path = some (.string text) ∨ j.path? path = none ∧ text = ""

/-- One request of the NVIDIA driver for exactly these devices. -/
structure RequestsDevices (found : Json Number) (ids : List String) : Prop where
  driver : found.find? "Driver" = some (.string "nvidia")
  count : ∃ value, found.find? "Count" = some value ∧ getInt value = .ok 0
  capabilities : found.find? "Capabilities" = some (.array [.array [.string "gpu"]])
  devices : ∃ others : List String,
    found.find? "DeviceIDs" = some (.array (others.map .string)) ∧ others.Perm ids

/-- A container of exactly this attempt, on this worker and with these devices. -/
structure MatchesAssignment (config : DockerConfig) (launch : Launch)
    (container : Json Number) : Prop where
  image : Reads container ["Config", "Image"] launch.assignment.spec.image
  attempt : Reads container ["Config", "Labels", "runyard.attempt"] launch.assignment.attempt.id
  worker : Reads container ["Config", "Labels", "runyard.worker"] config.worker
  distinct : launch.gpuIds.Nodup
  devices :
    launch.assignment.spec.resources.gpuCount = 0 ∧ launch.gpuIds = [] ∧
      container.path? ["HostConfig", "DeviceRequests"] ∈ [none, some .null, some (.array [])] ∨
    launch.assignment.spec.resources.gpuCount = launch.gpuIds.length ∧ launch.gpuIds ≠ [] ∧
      ∃ found, container.path? ["HostConfig", "DeviceRequests"] = some (.array [found]) ∧
        RequestsDevices found launch.gpuIds

/-! ## The document that is built -/

section Spec

variable {config : DockerConfig} {launch : Launch} {spec : Json Number}

/-- A document is only built for no devices at all, or for as many distinct ones as the count. -/
theorem gpuAccess_ok {visibility : List String} {devices : List (String × Json Number)}
    (h : gpuAccess launch = .ok (visibility, devices)) :
    launch.assignment.spec.resources.gpuCount ≤ 0 ∧ launch.gpuIds = [] ∧ devices = [] ∨
    launch.assignment.spec.resources.gpuCount = launch.gpuIds.length ∧ launch.gpuIds ≠ [] ∧
      launch.gpuIds.Nodup ∧
      devices = [("DeviceRequests", .array [deviceRequest launch.gpuIds])] := by
  unfold gpuAccess at h
  by_cases positive : 0 < launch.assignment.spec.resources.gpuCount
  · right
    simp only [if_pos positive, Result.bind_ok, Result.throwIf_ok, Bool.or_eq_true,
      decide_eq_true_eq, not_or, not_not] at h
    obtain ⟨_, ⟨exact, distinct⟩, visible, _, h⟩ := h
    cases h
    refine ⟨exact.symm, ?_, ?_, rfl⟩
    · intro empty
      rw [empty, List.length_nil] at exact
      omega
    · exact List.dedup_eq_self.mp ((List.dedup_sublist _).eq_of_length distinct)
  · left
    simp only [if_neg positive, Result.bind_ok, Result.throwIf_ok, decide_eq_true_eq, not_not] at h
    obtain ⟨_, empty, h⟩ := h
    cases h
    exact ⟨by omega, empty, rfl⟩

/-- The field that an assignment of the branch on `gpu_count` leaves in `HostConfig`. -/
theorem host_devices (config : DockerConfig) (resources : Resources)
    (devices : List (String × Json Number))
    (h : devices = [] ∨ ∃ j, devices = [("DeviceRequests", j)]) :
    (dockerHost config resources devices).find? "DeviceRequests" =
      Entries.lookup "DeviceRequests" devices := by
  unfold dockerHost authority
  rcases h with rfl | ⟨device, rfl⟩
  · split
    · rw [Json.find?_ofFields _ (by simp)]
      simp [Entries.lookup_cons]
    · rw [Json.find?_ofFields _ (by simp)]
      simp [Entries.lookup_cons]
  · split
    · rw [Json.find?_ofFields _ (by simp)]
      simp [Entries.lookup_cons]
    · rw [Json.find?_ofFields _ (by simp)]
      simp [Entries.lookup_cons]

/-- The parts of the document that the check reads. -/
structure Built (config : DockerConfig) (launch : Launch) (spec : Json Number) : Prop where
  image : spec.find? "Image" = some (.string launch.assignment.spec.image)
  attempt : spec.path? ["Labels", "runyard.attempt"] =
    some (.string launch.assignment.attempt.id)
  worker : spec.path? ["Labels", "runyard.worker"] = some (.string config.worker)
  host : ∃ host, spec.find? "HostConfig" = some host ∧ host.isObject
  devices :
    launch.assignment.spec.resources.gpuCount ≤ 0 ∧ launch.gpuIds = [] ∧
      spec.path? ["HostConfig", "DeviceRequests"] = none ∨
    launch.assignment.spec.resources.gpuCount = launch.gpuIds.length ∧ launch.gpuIds ≠ [] ∧
      launch.gpuIds.Nodup ∧ spec.path? ["HostConfig", "DeviceRequests"] =
        some (.array [deviceRequest launch.gpuIds])

theorem dockerContainerSpec_ok (h : dockerContainerSpec config launch = .ok spec) :
    Built config launch spec := by
  obtain ⟨⟨visibility, devices⟩, haccess, h⟩ := Result.bind_ok.mp h
  cases h
  constructor
  · rw [Json.find?_ofFields _ (by simp)]
    simp [Entries.lookup_cons]
  · rw [Json.path?_cons, Json.find?_ofFields _ (by simp)]
    simp [Entries.lookup_cons, Json.find?_ofFields]
  · rw [Json.path?_cons, Json.find?_ofFields _ (by simp)]
    simp [Entries.lookup_cons, Json.find?_ofFields]
  · rw [Json.find?_ofFields _ (by simp)]
    exact ⟨dockerHost config launch.assignment.spec.resources devices,
      by simp [Entries.lookup_cons], rfl⟩
  · have host := host_devices config launch.assignment.spec.resources devices
    rw [Json.path?_cons, Json.find?_ofFields _ (by simp)]
    rcases gpuAccess_ok haccess with ⟨count, ids, rfl⟩ | ⟨count, some, distinct, rfl⟩
    · left
      simp [Entries.lookup_cons, count, ids, host]
    · right
      simp [Entries.lookup_cons, count, some, distinct, host]

/-- The document has no other labels. -/
theorem spec_labels (created : dockerContainerSpec config launch = .ok spec) {key : String}
    {value : Json Number} (h : spec.path? ["Labels", key] = some value) :
    key = "runyard.attempt" ∧ value = .string launch.assignment.attempt.id ∨
    key = "runyard.worker" ∧ value = .string config.worker := by
  obtain ⟨⟨visibility, devices⟩, _, created⟩ := Result.bind_ok.mp created
  cases created
  rw [Json.path?_cons, Json.find?_ofFields _ (by simp)] at h
  simp only [Entries.lookup_cons, String.reduceEq, if_true, if_false, Option.bind_some,
    Json.path?_cons, Json.path?_nil, Option.bind_fun_some] at h
  rw [Json.find?_ofFields _ (by simp)] at h
  simp only [Entries.lookup_cons, Entries.lookup_nil] at h
  split at h
  · next attempt =>
    cases h
    exact .inl ⟨attempt.symm, rfl⟩
  split at h
  · next worker =>
    cases h
    exact .inr ⟨worker.symm, rfl⟩
  · cases h

end Spec

/-! ## The check -/

section Check

variable {config : DockerConfig} {launch : Launch} {spec container found : Json Number}

/-- A branch that refuses the container is not taken. -/
theorem refused {c : Prop} [Decidable c] {x : Checked Bool} :
    (if c then (return false) else x) = .ok true ↔ ¬c ∧ x = .ok true := by
  by_cases h : c
  · simp [h]
  · simp [h]

theorem sorted_iff_perm {ids required : List String} :
    ids.insertionSort (· ≤ ·) = required.insertionSort (· ≤ ·) ↔ ids.Perm required := by
  constructor
  · intro same
    exact (List.perm_insertionSort (· ≤ ·) ids).symm.trans
      (same ▸ List.perm_insertionSort (· ≤ ·) required)
  · intro perm
    exact ((List.perm_insertionSort (· ≤ ·) ids).trans
      (perm.trans (List.perm_insertionSort (· ≤ ·) required).symm)).eq_of_pairwise
      (fun a b _ _ => le_antisymm) (List.pairwise_insertionSort _ _)
      (List.pairwise_insertionSort _ _)

theorem deviceRequest_fields (ids : List String) :
    (deviceRequest ids).isObject ∧ (deviceRequest ids).find? "Driver" = some (.string "nvidia") ∧
    (deviceRequest ids).find? "Count" = some (encodeInt 0) ∧
    (deviceRequest ids).find? "DeviceIDs" = some (.array (ids.map .string)) ∧
    (deviceRequest ids).find? "Capabilities" = some (.array [.array [.string "gpu"]]) := by
  refine ⟨rfl, ?_, ?_, ?_, ?_⟩
  · rw [deviceRequest, Json.find?_ofFields _ (by simp)]
    simp [Entries.lookup_cons]
  · rw [deviceRequest, Json.find?_ofFields _ (by simp)]
    simp [Entries.lookup_cons]
  · rw [deviceRequest, Json.find?_ofFields _ (by simp)]
    simp [Entries.lookup_cons]
  · rw [deviceRequest, Json.find?_ofFields _ (by simp)]
    simp [Entries.lookup_cons]

theorem intOr_ok {key : String} {fallback n : Int} {j : Json Number} :
    intOr key fallback j = .ok n ↔ j.isObject ∧
      ((∃ value, j.find? key = some value ∧ getInt value = .ok n) ∨
        j.find? key = none ∧ fallback = n) := by
  simp only [intOr, Except.bind_eq_ok, Checked.lift_access_ok, Json.valueOr_ok]
  constructor
  · rintro ⟨_, ⟨object, ⟨value, hfind, ⟨⟩⟩ | ⟨missing, rfl⟩⟩, h⟩
    · exact ⟨object, .inl ⟨value, hfind, h⟩⟩
    · cases h
      exact ⟨object, .inr ⟨missing, rfl⟩⟩
  · rintro ⟨object, ⟨value, hfind, h⟩ | ⟨missing, rfl⟩⟩
    · exact ⟨some value, ⟨object, .inl ⟨value, hfind, rfl⟩⟩, h⟩
    · exact ⟨none, ⟨object, .inr ⟨missing, rfl⟩⟩, rfl⟩

theorem deviceMatches_iff {ids : List String} (some : ids ≠ []) :
    deviceMatches (deviceRequest ids) found = .ok true ↔ RequestsDevices found ids := by
  obtain ⟨object, _, _, devices, capabilities⟩ := deviceRequest_fields ids
  have wantedCapabilities : (deviceRequest ids).constItem "Capabilities" =
      .ok (.array [.array [.string "gpu"]]) := by
    rw [Json.constItem, if_pos object, Json.item, capabilities]
    rfl
  have wantedDevices : (deviceRequest ids).constItem "DeviceIDs" =
      .ok (.array (ids.map .string)) := by
    rw [Json.constItem, if_pos object, Json.item, devices]
    rfl
  rw [deviceMatches]
  simp only [Except.bind_eq_ok, Checked.lift_access_ok, refused, Json.valueOr_ok, intOr_ok,
    Json.getString_ok, Json.getStrings_ok, wantedCapabilities, wantedDevices, ne_eq, not_not,
    Bool.not_eq_true, Bool.not_eq_false']
  constructor
  · rintro ⟨_, ⟨-, driver⟩, rfl, _, ⟨-, count⟩, rfl, gpu, ⟨-, hgpu⟩, _, ⟨⟩, same, others,
      ⟨-, hothers⟩, _, ⟨⟩, required, hrequired, sorted⟩
    cases Json.strings_inj hrequired
    have perm : others.Perm ids := sorted_iff_perm.mp (of_decide_eq_true (Except.ok.inj sorted))
    constructor
    · simpa using driver
    · simpa using count
    · rcases hgpu with ⟨_, hvalue, ⟨⟩⟩ | ⟨_, rfl⟩
      · have listed : gpu = Json.array [.array [.string "gpu"]] := by simpa using same
        rw [hvalue, listed]
      · cases same
    · rcases hothers with ⟨value, hvalue, rfl⟩ | ⟨_, rfl⟩
      · exact ⟨others, hvalue, perm⟩
      · exact absurd perm.nil_eq.symm some
  · rintro ⟨driver, count, gpu, others, hothers, perm⟩
    have found_object := Json.isObject_of_find? driver
    refine ⟨_, ⟨found_object, .inl ⟨_, driver, rfl⟩⟩, rfl, _, ⟨found_object, .inl count⟩, rfl, _,
      ⟨found_object, .inl ⟨_, gpu, rfl⟩⟩, _, rfl, ?_, others,
      ⟨found_object, .inl ⟨_, hothers, rfl⟩⟩, _, rfl, ids, rfl, ?_⟩
    · simp
    · exact congrArg Except.ok (decide_eq_true (sorted_iff_perm.mpr perm))

theorem getD_iff {α : Type} {o : Option α} {fallback a : α} :
    ((∃ value, o = some value ∧ value = a) ∨ o = none ∧ fallback = a) ↔ o.getD fallback = a := by
  cases o <;> simp

/-- A text that is read as `text`. -/
theorem reads_text {key text : String} {j : Json Number} :
    ((∃ value, j.find? key = some value ∧ value = .string text) ∨
      j.find? key = none ∧ "" = text) ↔ Reads j [key] text := by
  simp [Reads, eq_comm]

theorem reads_of_valueOr {key text : String} {j : Json Number}
    (h : j.valueOr key "" Json.getString = .ok text) : Reads j [key] text := by
  rw [Json.valueOr_ok] at h
  simp only [Json.getString_ok] at h
  exact reads_text.mp h.2

/-- The conditions in the order of the checks. -/
theorem dockerContainerMatches_iff (created : dockerContainerSpec config launch = .ok spec) :
    dockerContainerMatches container config launch = .ok true ↔
      ∃ actual labels host, container.find? "Config" = some actual ∧ actual.isObject ∧
        (actual.find? "Labels").getD (.object []) = labels ∧ labels.isObject ∧
        (container.find? "HostConfig").getD (.object []) = host ∧ host.isObject ∧
        Reads actual ["Image"] launch.assignment.spec.image ∧
        Reads labels ["runyard.attempt"] launch.assignment.attempt.id ∧
        Reads labels ["runyard.worker"] config.worker ∧
        requestsMatch launch.assignment.spec.resources.gpuCount
          (((spec.item "HostConfig").item "DeviceRequests").element 0)
          (host.item "DeviceRequests") = .ok true := by
  have built := dockerContainerSpec_ok created
  have image : spec.item "Image" = .string launch.assignment.spec.image := by
    rw [Json.item, built.image]
    rfl
  rw [dockerContainerMatches]
  simp only [Except.bind_eq_ok, Checked.lift_access_ok, Checked.lift_result_ok, refused,
    Json.valueOr_ok, Json.field_ok, Json.getString_ok, created, ne_eq, not_not, reads_text,
    Except.ok.injEq, getD_iff]
  constructor
  · rintro ⟨_, rfl, actual, config, _, ⟨object, reads⟩, _, same, rfl, _, ⟨-, labels⟩, _,
      ⟨labelled, attempt⟩, rfl, _, ⟨-, labels'⟩, _, ⟨-, worker⟩, rfl, host, ⟨-, hhost⟩, _,
      ⟨hosted, requests⟩, matched⟩
    cases labels.symm.trans labels'
    cases image.symm.trans same
    refine ⟨actual, _, host, config, object, labels, labelled, hhost, hosted, reads, attempt,
      worker, ?_⟩
    cases requests
    exact matched
  · rintro ⟨actual, labels, host, config, object, hlabels, labelled, hhost, hosted, reads,
      attempt, worker, matched⟩
    exact ⟨_, rfl, actual, config, _, ⟨object, reads⟩, _, image, rfl, labels, ⟨object, hlabels⟩, _,
      ⟨labelled, attempt⟩, rfl, labels, ⟨object, hlabels⟩, _, ⟨labelled, worker⟩, rfl, host,
      ⟨Json.isObject_of_find? config, hhost⟩, _, ⟨hosted, rfl⟩, matched⟩

/-- Without a wanted request the check throws before it accepts. -/
theorem deviceMatches_null : deviceMatches .null found ≠ .ok true := by
  intro h
  rw [deviceMatches] at h
  simp only [Except.bind_eq_ok, refused, Checked.lift_access_ok] at h
  obtain ⟨_, _, _, _, _, _, _, _, _, missing, _⟩ := h
  cases missing

theorem requestsMatch_ok {gpuCount : Int} {wanted requests : Json Number} :
    requestsMatch gpuCount wanted requests = .ok true ↔
      gpuCount = 0 ∧ (requests = .null ∨ requests = .array []) ∨
      gpuCount ≠ 0 ∧ ∃ found, requests = .array [found] ∧
        deviceMatches wanted found = .ok true := by
  rcases requests with _ | _ | _ | _ | items | _
  case array =>
    rcases items with _ | ⟨found, _ | ⟨_, _⟩⟩
    · simp [requestsMatch]
    · rw [requestsMatch, refused]
      simp
    · simp [requestsMatch]
  all_goals simp [requestsMatch]

/-- The devices are checked against what the document of the same launch asks for. -/
theorem requestsMatch_built {requests : Json Number} (built : Built config launch spec) :
    requestsMatch launch.assignment.spec.resources.gpuCount
        (((spec.item "HostConfig").item "DeviceRequests").element 0) requests = .ok true ↔
      launch.assignment.spec.resources.gpuCount = 0 ∧ launch.gpuIds = [] ∧
        (requests = .null ∨ requests = .array []) ∨
      launch.assignment.spec.resources.gpuCount = launch.gpuIds.length ∧ launch.gpuIds ≠ [] ∧
        ∃ found, requests = .array [found] ∧ RequestsDevices found launch.gpuIds := by
  obtain ⟨host, hhost, _⟩ := built.host
  have wanted : (spec.item "HostConfig").item "DeviceRequests" =
      (spec.path? ["HostConfig", "DeviceRequests"]).getD .null := by
    simp [Json.item, hhost]
  rw [wanted, requestsMatch_ok]
  rcases built.devices with ⟨count, ids, devices⟩ | ⟨count, some, distinct, devices⟩
  · rw [devices, ids]
    constructor
    · rintro (⟨zero, none⟩ | ⟨_, found, _, matched⟩)
      · exact .inl ⟨zero, rfl, none⟩
      · exact absurd matched deviceMatches_null
    · rintro (⟨zero, _, none⟩ | ⟨_, nonempty, _⟩)
      · exact .inl ⟨zero, none⟩
      · exact absurd rfl nonempty
  · have positive : launch.assignment.spec.resources.gpuCount ≠ 0 := by
      have := List.length_pos_iff.mpr some
      omega
    rw [devices]
    constructor
    · rintro (⟨zero, _⟩ | ⟨_, found, hfound, matched⟩)
      · exact absurd zero positive
      · exact .inr ⟨count, some, found, hfound, (deviceMatches_iff some).mp matched⟩
    · rintro (⟨zero, _⟩ | ⟨_, _, found, hfound, asked⟩)
      · exact absurd zero positive
      · exact .inr ⟨positive, found, hfound, (deviceMatches_iff some).mpr asked⟩

end Check

section Main

variable {config : DockerConfig} {launch : Launch} {spec : Json Number}

/-- A container that was created from the document is accepted. -/
theorem accepts_inspected (created : dockerContainerSpec config launch = .ok spec)
    (natural : 0 ≤ launch.assignment.spec.resources.gpuCount) {container : Json Number}
    (inspects : Inspects spec container) :
    dockerContainerMatches container config launch = .ok true := by
  have built := dockerContainerSpec_ok created
  rw [dockerContainerMatches_iff created]
  have image := inspects.image
  have attempt := inspects.labels _ _ built.attempt
  have worker := inspects.labels _ _ built.worker
  obtain ⟨host, hhost, hosted⟩ := inspects.host
  have specImage : spec.path? ["Image"] = some (.string launch.assignment.spec.image) := by
    simp [built.image]
  rw [specImage] at image
  simp only [Json.path?_cons, Json.path?_nil, Option.bind_eq_some_iff] at image attempt worker
  obtain ⟨actual, hactual, _, himage, ⟨⟩⟩ := image
  obtain ⟨actual', hactual', labels, hlabels, _, hattempt, ⟨⟩⟩ := attempt
  cases hactual.symm.trans hactual'
  obtain ⟨actual', hactual', labels', hlabels', _, hworker, ⟨⟩⟩ := worker
  cases hactual.symm.trans hactual'
  cases hlabels.symm.trans hlabels'
  refine ⟨actual, labels, host, hactual, Json.isObject_of_find? hlabels, by rw [hlabels]; rfl,
    Json.isObject_of_find? hattempt, by rw [hhost]; rfl, hosted, .inl (by simp [himage]),
    .inl (by simp [hattempt]), .inl (by simp [hworker]), ?_⟩
  have asked :
      container.path? ["HostConfig", "DeviceRequests"] = host.find? "DeviceRequests" := by
    simp [hhost]
  rw [requestsMatch_built built]
  rcases built.devices with ⟨count, ids, devices⟩ | ⟨count, some, _, devices⟩
  · have none := inspects.none devices
    rw [asked] at none
    refine .inl ⟨by omega, ids, ?_⟩
    simp only [List.mem_cons, List.not_mem_nil, or_false] at none
    rcases none with h | h | h
    · simp [Json.item, h]
    · simp [Json.item, h]
    · simp [Json.item, h]
  · obtain ⟨others, hothers, same⟩ := inspects.devices _ devices
    rw [asked] at hothers
    obtain ⟨found, _, ⟨hdriver, ⟨_, count', hsent, hcount, equal⟩, ⟨_, gpu, hsent', hgpu, gpus⟩,
      ids, items, hids, hfound, perm⟩, ⟨⟩, rfl⟩ := List.forall₂_cons_left_iff.mp same
    obtain ⟨_, driver, zero, listed, capabilities⟩ := deviceRequest_fields launch.gpuIds
    cases hids.symm.trans listed
    cases hsent.symm.trans zero
    cases hsent'.symm.trans capabilities
    have listed : gpu = Json.array [.array [.string "gpu"]] := by simpa using gpus
    -- A permutation of texts is the texts of a permutation.
    obtain ⟨others, rfl, same⟩ :=
      (congrFun₂ (List.eq_map_comp_perm Json.string) items launch.gpuIds).mpr perm
    refine .inr ⟨count, some, found, by simp [Json.item, hothers], ?_⟩
    constructor
    · exact hdriver.trans driver
    · exact ⟨count', hcount, equal.trans (by decide)⟩
    · rw [hgpu, listed]
    · exact ⟨others, hfound, same⟩

/-- A container that is accepted is one of exactly this assignment. -/
theorem assigned_of_accepts {container : Json Number}
    (accepts : dockerContainerMatches container config launch = .ok true) :
    MatchesAssignment config launch container := by
  obtain ⟨spec, hspec, _⟩ := Except.bind_eq_ok.mp accepts
  have created := Checked.lift_result_ok.mp hspec
  have built := dockerContainerSpec_ok created
  obtain ⟨actual, labels, host, hactual, object, hlabels, labelled, hhost, hosted, image, attempt,
    worker, requests⟩ := (dockerContainerMatches_iff created).mp accepts
  have label (key : String) : container.path? ["Config", "Labels", key] = labels.find? key := by
    rw [← hlabels, Json.find?_getD]
    simp [hactual]
  have asked : host.item "DeviceRequests" =
      (container.path? ["HostConfig", "DeviceRequests"]).getD .null := by
    rw [← hhost, Json.item, Json.find?_getD]
    simp
  rw [asked, requestsMatch_built built] at requests
  refine ⟨?_, ?_, ?_, ?_, ?_⟩
  · simpa [Reads, hactual] using image
  · simpa [Reads, label] using attempt
  · simpa [Reads, label] using worker
  · rcases built.devices with ⟨_, ids, _⟩ | ⟨_, _, distinct, _⟩
    · rw [ids]
      exact .nil
    · exact distinct
  · refine requests.imp ?_ ?_
    · rintro ⟨count, ids, none⟩
      refine ⟨count, ids, ?_⟩
      cases h : container.path? ["HostConfig", "DeviceRequests"] with
      | none => simp
      | some value =>
        rw [h] at none
        rcases none with rfl | rfl
        · simp
        · simp
    · rintro ⟨count, some, found, hfound, devices⟩
      refine ⟨count, some, found, ?_, devices⟩
      cases h : container.path? ["HostConfig", "DeviceRequests"] with
      | none =>
        rw [h] at hfound
        cases hfound
      | some value =>
        rw [h] at hfound
        rw [← hfound]
        rfl

/-- The check accepts every container that was created from the document of the launch, and
what it accepts is a container of exactly this assignment. -/
theorem docker_container_verification (created : dockerContainerSpec config launch = .ok spec) :
    (0 ≤ launch.assignment.spec.resources.gpuCount → ∀ container, Inspects spec container →
      dockerContainerMatches container config launch = .ok true) ∧
    ∀ container, dockerContainerMatches container config launch = .ok true →
      MatchesAssignment config launch container :=
  ⟨fun natural _ inspects => accepts_inspected created natural inspects,
    fun _ accepts => assigned_of_accepts accepts⟩

/-- An inspection that shows the document as it was sent. -/
def inspection (spec : Json Number) : Json Number :=
  .ofFields [("Config", spec), ("HostConfig", spec.item "HostConfig")]

theorem inspection_config : (inspection spec).find? "Config" = some spec := by
  rw [inspection, Json.find?_ofFields _ (by simp)]
  simp [Entries.lookup_cons]

theorem inspection_host : (inspection spec).find? "HostConfig" = some (spec.item "HostConfig") := by
  rw [inspection, Json.find?_ofFields _ (by simp)]
  simp [Entries.lookup_cons]

theorem inspects_inspection (created : dockerContainerSpec config launch = .ok spec) :
    Inspects spec (inspection spec) := by
  have built := dockerContainerSpec_ok created
  obtain ⟨host, hhost, hosted⟩ := built.host
  have item : spec.item "HostConfig" = host := by
    rw [Json.item, hhost]
    rfl
  have devices : (inspection spec).path? ["HostConfig", "DeviceRequests"] =
      spec.path? ["HostConfig", "DeviceRequests"] := by
    simp [inspection_host, item, hhost]
  constructor
  · simp [inspection_config]
  · intro key value h
    simpa [inspection_config] using h
  · exact ⟨host, by rw [inspection_host, item], hosted⟩
  · intro requests h
    refine ⟨requests, devices.trans h, ?_⟩
    rcases built.devices with ⟨_, _, none⟩ | ⟨_, _, _, request⟩
    · rw [h] at none
      cases none
    · cases h.symm.trans request
      obtain ⟨_, _, zero, listed, capabilities⟩ := deviceRequest_fields launch.gpuIds
      refine .cons ⟨rfl, ⟨_, _, zero, zero, rfl⟩, ⟨_, _, capabilities, capabilities, ?_⟩,
        _, _, listed, listed, .refl _⟩ .nil
      simp
  · intro none
    rw [devices, none]
    simp

/-- Only these two fields of the inspection matter. -/
theorem MatchesAssignment.of_same {container other : Json Number}
    (h : MatchesAssignment config launch container)
    (sameConfig : other.find? "Config" = container.find? "Config")
    (sameHost : other.find? "HostConfig" = container.find? "HostConfig") :
    MatchesAssignment config launch other := by
  have same (path : List String) :
      other.path? ("Config" :: path) = container.path? ("Config" :: path) ∧
      other.path? ("HostConfig" :: path) = container.path? ("HostConfig" :: path) := by
    simp [sameConfig, sameHost]
  refine ⟨?_, ?_, ?_, h.distinct, ?_⟩
  · rw [Reads, (same _).1]
    exact h.image
  · rw [Reads, (same _).1]
    exact h.attempt
  · rw [Reads, (same _).1]
    exact h.worker
  · rw [(same _).2]
    exact h.devices

end Main

namespace Sample

def dockerConfig : DockerConfig := ⟨"net", "worker", "server:9090", "", true⟩

/-- A launch of a specification with this count and these devices. -/
def gpuLaunch (gpuCount : Int) (ids : List String) : Launch where
  assignment :=
    { attempt :=
        { id := "attempt", runId := "run", generation := 1, workerId := "worker"
          launchDeadline := 0, createdAt := 0 }
      gpuAllocations := ids.map fun uuid => ⟨"attempt", uuid, "", 0, 0, none⟩
      spec := { spec with resources := { gpuCount := gpuCount } } }
  capability := "capability"

end Sample

/-- What a daemon answers about the container of two devices, as it is read from the text. -/
def Sample.gpuRequest : Json Number :=
  .object [("Capabilities", .array [.array [.string "gpu"]]), ("Count", .number (.unsigned 0)),
    ("DeviceIDs", .array [.string "GPU-b", .string "GPU-a"]), ("Driver", .string "nvidia"),
    ("Options", .object [])]

def Sample.gpuInspection : Json Number :=
  .object [("Config", .object [("Image", .string Sample.spec.image),
      ("Labels", .object
        [("runyard.attempt", .string "attempt"), ("runyard.worker", .string "worker")])]),
    ("HostConfig", .object [("DeviceRequests", .array [Sample.gpuRequest])])]

theorem Sample.gpuInspection_parses :
    FloatText.exact.parse (FloatText.exact.dump gpuInspection) = some gpuInspection := by
  have gpus : (Json.array [.array [.string "gpu"]] : Json Number).Valid (·.isFinite)
      fun _ => True :=
    .array (by simpa using Json.Valid.array (by simpa using Json.Valid.string trivial))
  have ids : (Json.array [.string "GPU-b", .string "GPU-a"] : Json Number).Valid (·.isFinite)
      fun _ => True :=
    .array (by simpa using ⟨.string trivial, .string trivial⟩)
  have request : gpuRequest.Valid (·.isFinite) fun _ => True := by
    refine .object (by unfold Entries.Ascending; decide +kernel) (by simp) ?_
    simp only [List.forall_mem_cons, List.not_mem_nil, false_implies, implies_true, and_true]
    exact ⟨gpus, .number rfl, ids, .string trivial, .object .nil (by simp) (by simp)⟩
  have host : (Json.object [("DeviceRequests", .array [gpuRequest])]).Valid (·.isFinite)
      fun _ => True :=
    .single trivial (.array (by simpa using request))
  have valid : gpuInspection.Valid (·.isFinite) fun _ => True :=
    .pair (by decide +kernel) trivial trivial
      (.pair (by decide +kernel) trivial trivial (.string trivial)
        (.pair (by decide +kernel) trivial trivial (.string trivial) (.string trivial)))
      host
  rw [FloatText.exact.parse_dump valid]
  rfl

/-- Two devices that come back in the other order. -/
theorem docker_container_pair : ∃ spec container,
    dockerContainerSpec Sample.dockerConfig (Sample.gpuLaunch 2 ["GPU-a", "GPU-b"]) = .ok spec ∧
    FloatText.exact.parse (FloatText.exact.dump Sample.gpuInspection) = some container ∧
    Inspects spec container ∧
    dockerContainerMatches container Sample.dockerConfig
      (Sample.gpuLaunch 2 ["GPU-a", "GPU-b"]) = .ok true := by
  obtain ⟨spec, created⟩ : ∃ spec, dockerContainerSpec Sample.dockerConfig
      (Sample.gpuLaunch 2 ["GPU-a", "GPU-b"]) = .ok spec := ⟨_, rfl⟩
  have built := dockerContainerSpec_ok created
  obtain ⟨zero, _⟩ | ⟨_, _, _, request⟩ := built.devices
  · cases zero
  obtain ⟨_, driver, count, devices, capabilities⟩ := deviceRequest_fields ["GPU-a", "GPU-b"]
  have inspects : Inspects spec Sample.gpuInspection := by
    constructor
    · simp only [Json.path?_cons, Json.path?_nil, built.image]
      rfl
    · intro key value h
      rcases spec_labels created h with ⟨rfl, rfl⟩ | ⟨rfl, rfl⟩
      · rfl
      · rfl
    · exact ⟨_, rfl, rfl⟩
    · intro requests h
      cases h.symm.trans request
      refine ⟨[Sample.gpuRequest], rfl, .cons ⟨driver.symm, ⟨_, _, count, rfl, by decide⟩,
        ⟨_, _, capabilities, rfl, by decide +kernel⟩, _, _, devices, rfl, ?_⟩ .nil⟩
      exact .swap _ _ []
    · intro none
      cases none.symm.trans request
  exact ⟨spec, _, created, Sample.gpuInspection_parses, inspects,
    (docker_container_verification created).1 (by decide) _ inspects⟩

/-- The request of `GPU-a` with a count of `2 ^ 32`. -/
def Sample.wrappedRequest : Json Number :=
  .ofFields [("Driver", .string "nvidia"), ("Count", .number (.unsigned 4294967296)),
    ("DeviceIDs", .array [.string "GPU-a"]), ("Capabilities", .array [.array [.string "gpu"]])]

def Sample.wrappedContainer : Json Number :=
  .object [("Config", .object [("Image", .string Sample.spec.image),
      ("Labels", .object
        [("runyard.attempt", .string "attempt"), ("runyard.worker", .string "worker")])]),
    ("HostConfig", .object [("DeviceRequests", .array [Sample.wrappedRequest])])]

theorem Sample.wrappedRequest_devices : RequestsDevices Sample.wrappedRequest ["GPU-a"] := by
  unfold Sample.wrappedRequest
  refine ⟨?_, ⟨.number (.unsigned 4294967296), ?_, by decide⟩, ?_, ["GPU-a"], ?_, .refl _⟩
  · rw [Json.find?_ofFields _ (by simp)]
    simp [Entries.lookup_cons]
  · rw [Json.find?_ofFields _ (by simp)]
    simp [Entries.lookup_cons]
  · rw [Json.find?_ofFields _ (by simp)]
    simp [Entries.lookup_cons]
  · rw [Json.find?_ofFields _ (by simp)]
    simp [Entries.lookup_cons]

/-- With a negative count a container is created that is not accepted, and a count that the
conversion to `int` takes for zero is accepted. -/
theorem docker_container_misread :
    (∃ spec, dockerContainerSpec Sample.dockerConfig (Sample.gpuLaunch (-1) []) = .ok spec ∧
      Inspects spec (inspection spec) ∧
      dockerContainerMatches (inspection spec) Sample.dockerConfig (Sample.gpuLaunch (-1) []) ≠
        .ok true) ∧
    ∃ container found,
      dockerContainerMatches container Sample.dockerConfig (Sample.gpuLaunch 1 ["GPU-a"]) =
        .ok true ∧
      container.path? ["HostConfig", "DeviceRequests"] = some (.array [found]) ∧
      found.find? "Count" = some (.number (.unsigned 4294967296)) := by
  constructor
  · obtain ⟨spec, created⟩ : ∃ spec, dockerContainerSpec Sample.dockerConfig
        (Sample.gpuLaunch (-1) []) = .ok spec := ⟨_, rfl⟩
    refine ⟨spec, created, inspects_inspection created, fun accepts => ?_⟩
    obtain ⟨_, _, _, _, _, _, _, _, _, _, _, _, requests⟩ :=
      (dockerContainerMatches_iff created).mp accepts
    rcases (requestsMatch_built (dockerContainerSpec_ok created)).mp requests with
      ⟨count, _⟩ | ⟨_, some, _⟩
    · cases count
    · exact some rfl
  · obtain ⟨spec, created⟩ : ∃ spec, dockerContainerSpec Sample.dockerConfig
        (Sample.gpuLaunch 1 ["GPU-a"]) = .ok spec := ⟨_, rfl⟩
    refine ⟨Sample.wrappedContainer, Sample.wrappedRequest, ?_, rfl, rfl⟩
    refine (dockerContainerMatches_iff created).mpr ⟨_, _, _, rfl, rfl, rfl, rfl, rfl, rfl,
      .inl rfl, .inl rfl, .inl rfl, ?_⟩
    exact (requestsMatch_built (dockerContainerSpec_ok created)).mpr
      (.inr ⟨rfl, by decide, Sample.wrappedRequest, rfl, Sample.wrappedRequest_devices⟩)

end Runyard
