import Runyard.Domain

/-!
# The environment of a workload

`workload_environment` writes and erases in layers. The last layers belong to the platform: what
a specification sets does not show in them. The runner hands on nothing beyond the allowed names.
-/

namespace Runyard

namespace StringMap

variable {α : Type} {m : StringMap α} {key : String}

def find? (m : StringMap α) (key : String) : Option α := Entries.lookup key m.entries

def erase (m : StringMap α) (key : String) : StringMap α :=
  ⟨m.entries.filter fun e => e.1 ≠ key, m.ordered.filter _⟩

@[simp] theorem find?_empty : (empty : StringMap α).find? key = none := rfl

theorem find?_insert (value : α) (other : String) :
    (m.insert key value).find? other = if key = other then some value else m.find? other :=
  Entries.lookup_assign other

theorem find?_erase (other : String) :
    (m.erase key).find? other = if key = other then none else m.find? other := by
  have each (entries : List (String × α)) :
      Entries.lookup other (entries.filter fun e => e.1 ≠ key) =
        if key = other then none else Entries.lookup other entries := by
    induction entries with
    | nil => simp
    | cons e rest ih =>
      by_cases dropped : e.1 = key
      · rw [List.filter_cons_of_neg (by simpa using dropped), ih, Entries.lookup_cons]
        split
        · rfl
        · next apart => rw [if_neg (dropped ▸ apart)]
      · rw [List.filter_cons_of_pos (by simpa using dropped), Entries.lookup_cons,
          Entries.lookup_cons, ih]
        split
        · next here => rw [if_neg fun same => dropped (here.trans same.symm)]
        · rfl
  exact each m.entries

end StringMap

abbrev Environment := StringMap String

namespace Environment

def allowed : List String :=
  ["PATH", "LD_LIBRARY_PATH", "PYTHONPATH", "VIRTUAL_ENV", "CUDA_HOME", "CUDA_PATH",
    "CUDA_VISIBLE_DEVICES", "NVIDIA_VISIBLE_DEVICES", "NVIDIA_DRIVER_CAPABILITIES"]

def defaultPath : String := "/usr/local/bin:/usr/bin:/bin"

/-- Write what the source has under the names. -/
def copy (source : String → Option String) (names : List String) (result : Environment) :
    Environment :=
  names.foldl (fun result name =>
    match source name with
    | some value => result.insert name value
    | none => result) result

def overwrite (values result : Environment) : Environment :=
  values.entries.foldl (fun result e => result.insert e.1 e.2) result

/-- Historical specs may contain NVIDIA variables. Runtime allocation still wins. -/
def exposeDevices (inherited result : Environment) : Environment :=
  ["NVIDIA_VISIBLE_DEVICES", "NVIDIA_DRIVER_CAPABILITIES"].foldl (fun result name =>
    match inherited.find? name with
    | some value => (result.erase name).insert name value
    | none => result.erase name) result

def hideDevices (gpuCount : Int) (result : Environment) : Environment :=
  if gpuCount = 0 then
    (result.insert "NVIDIA_VISIBLE_DEVICES" "void").erase "NVIDIA_DRIVER_CAPABILITIES"
  else result

/-- `operator/` of a path with a relative one. -/
def join (root name : String) : String :=
  if root = "" ∨ root.toList.getLast? = some '/' then root ++ name else root ++ "/" ++ name

def defaults : Environment := (StringMap.empty.insert "PATH" defaultPath).insert "LANG" "C.UTF-8"

/-- The names that the platform writes last. -/
def platform (root runId : String) (generation : Int) (result : Environment) : Environment :=
  (((((result.insert "HOME" root).insert
    "RUNYARD_PARAMETERS_PATH" (join root "parameters.json")).insert
    "RUNYARD_METRICS_PATH" (join root "metrics.jsonl")).insert
    "RUNYARD_OUTPUT_DIR" (join root "artifacts")).insert
    "RUNYARD_RUN_ID" runId).insert
    "RUNYARD_ATTEMPT_NUMBER" (toString generation)

end Environment

open Environment

/-- `runtime_environment`, by what `getenv` returns. -/
def runtimeEnvironment (getenv : String → Option String) : Environment :=
  copy getenv allowed .empty

/-- `workload_environment`. -/
def workloadEnvironment (spec : RunSpec) (inherited : Environment) (root runId : String)
    (generation : Int) : Environment :=
  let result := copy inherited.find? allowed defaults
  let result := overwrite spec.environment result
  let result := exposeDevices inherited result
  let result := hideDevices spec.resources.gpuCount result
  platform root runId generation result

namespace Environment

variable {result : Environment} {name : String}

theorem find?_copy (source : String → Option String) (names : List String) :
    (copy source names result).find? name =
      ((if name ∈ names then source name else none).or (result.find? name)) := by
  induction names generalizing result with
  | nil => simp [copy]
  | cons first rest ih =>
    change (copy source rest _).find? name = _
    rw [ih]
    by_cases here : name = first
    · subst here
      cases found : source name with
      | none => simp [found]
      | some value =>
        by_cases again : name ∈ rest
        · simp [found, again]
        · simp [found, again, StringMap.find?_insert]
    · have same : (match source first with
          | some value => result.insert first value
          | none => result).find? name = result.find? name := by
        cases source first with
        | none => rfl
        | some value => simp [StringMap.find?_insert, Ne.symm here]
      simp only [same, List.mem_cons, here, false_or]

theorem copy_congr {source source' : String → Option String} {names : List String}
    (same : ∀ name ∈ names, source name = source' name) :
    copy source names result = copy source' names result := by
  induction names generalizing result with
  | nil => rfl
  | cons first rest ih =>
    obtain ⟨here, later⟩ := List.forall_mem_cons.mp same
    simp only [copy, List.foldl_cons, here]
    exact ih later

theorem find?_overwrite (values : Environment) :
    (overwrite values result).find? name = (values.find? name).or (result.find? name) := by
  obtain ⟨entries, ordered⟩ := values
  simp only [overwrite, StringMap.find?]
  induction entries generalizing result with
  | nil => simp
  | cons e rest ih =>
    obtain ⟨above, ordered⟩ := List.pairwise_cons.mp ordered
    have written := @ih (result.insert e.1 e.2) ordered
    rw [List.foldl_cons, written, StringMap.insert, Entries.lookup_assign, Entries.lookup_cons]
    split
    next here =>
      have last : Entries.lookup name rest = none := by
        cases found : Entries.lookup name rest with
        | none => rfl
        | some value => exact absurd here (above _ (Entries.mem_of_lookup found)).ne
      simp [last]
    · rfl

theorem find?_exposeDevices (inherited : Environment) :
    (exposeDevices inherited result).find? name =
      if name ∈ ["NVIDIA_VISIBLE_DEVICES", "NVIDIA_DRIVER_CAPABILITIES"] then
        inherited.find? name
      else result.find? name := by
  have written (device : String) (result : Environment) :
      (match inherited.find? device with
        | some value => (result.erase device).insert device value
        | none => result.erase device).find? name =
      if device = name then inherited.find? name else result.find? name := by
    by_cases here : device = name
    · subst here
      cases found : inherited.find? device with
      | none => simp [StringMap.find?_erase]
      | some value => simp [StringMap.find?_insert]
    · cases inherited.find? device with
      | none => simp [StringMap.find?_erase, here]
      | some value => simp [StringMap.find?_insert, StringMap.find?_erase, here]
  simp only [exposeDevices, List.foldl_cons, List.foldl_nil, written, List.mem_cons,
    List.not_mem_nil, or_false]
  grind

theorem find?_hideDevices (gpuCount : Int) :
    (hideDevices gpuCount result).find? name =
      if gpuCount = 0 ∧ name = "NVIDIA_VISIBLE_DEVICES" then some "void"
      else if gpuCount = 0 ∧ name = "NVIDIA_DRIVER_CAPABILITIES" then none
      else result.find? name := by
  unfold hideDevices
  split
  next none =>
    simp only [StringMap.find?_erase, StringMap.find?_insert, none, true_and]
    grind
  next some => simp [some]

/-- The names that the platform alone decides. -/
def controlled : List String :=
  ["HOME", "RUNYARD_PARAMETERS_PATH", "RUNYARD_METRICS_PATH", "RUNYARD_OUTPUT_DIR",
    "RUNYARD_RUN_ID", "RUNYARD_ATTEMPT_NUMBER", "NVIDIA_VISIBLE_DEVICES",
    "NVIDIA_DRIVER_CAPABILITIES"]

end Environment

open Environment

section Main

variable (spec : RunSpec) (inherited : Environment) (root runId : String) (generation : Int)

/-- What a name that the platform decides holds. -/
theorem find?_controlled {name : String} (h : name ∈ controlled) :
    (workloadEnvironment spec inherited root runId generation).find? name =
      (platform root runId generation
        (hideDevices spec.resources.gpuCount (exposeDevices inherited .empty))).find? name := by
  simp only [workloadEnvironment, platform, StringMap.find?_insert, find?_hideDevices,
    find?_exposeDevices, StringMap.find?_empty]
  simp only [controlled, List.mem_cons, List.not_mem_nil, or_false] at h
  grind

/-- What any other name holds. -/
theorem find?_uncontrolled {name : String} (h : name ∉ controlled) :
    (workloadEnvironment spec inherited root runId generation).find? name =
      (spec.environment.find? name).or
        ((if name ∈ allowed then inherited.find? name else none).or (defaults.find? name)) := by
  have undecided : (workloadEnvironment spec inherited root runId generation).find? name =
      (overwrite spec.environment (copy inherited.find? allowed defaults)).find? name := by
    simp only [workloadEnvironment, platform, StringMap.find?_insert, find?_hideDevices,
      find?_exposeDevices]
    simp only [controlled, List.mem_cons, List.not_mem_nil, or_false] at h
    grind
  rw [undecided, find?_overwrite, find?_copy]

theorem workloadEnvironment_congr {inherited' : Environment}
    (same : ∀ name ∈ allowed, inherited.find? name = inherited'.find? name) :
    workloadEnvironment spec inherited root runId generation =
      workloadEnvironment spec inherited' root runId generation := by
  have copied : copy inherited.find? allowed defaults = copy inherited'.find? allowed defaults :=
    copy_congr same
  have exposed (result : Environment) :
      exposeDevices inherited result = exposeDevices inherited' result := by
    have devices : inherited.find? "NVIDIA_VISIBLE_DEVICES" =
          inherited'.find? "NVIDIA_VISIBLE_DEVICES" ∧
        inherited.find? "NVIDIA_DRIVER_CAPABILITIES" =
          inherited'.find? "NVIDIA_DRIVER_CAPABILITIES" :=
      ⟨same _ (by decide), same _ (by decide)⟩
    simp only [exposeDevices, List.foldl_cons, List.foldl_nil, devices]
  simp only [workloadEnvironment, copied, exposed]

/-- The environment of a workload: what the platform decides, the variables that it inherits, and
who wins under every other name. -/
theorem workload_isolation :
    ∃ result, result = workloadEnvironment spec inherited root runId generation ∧
    (result.find? "HOME" = some root ∧
      result.find? "RUNYARD_PARAMETERS_PATH" = some (join root "parameters.json") ∧
      result.find? "RUNYARD_METRICS_PATH" = some (join root "metrics.jsonl") ∧
      result.find? "RUNYARD_OUTPUT_DIR" = some (join root "artifacts") ∧
      result.find? "RUNYARD_RUN_ID" = some runId ∧
      result.find? "RUNYARD_ATTEMPT_NUMBER" = some (toString generation)) ∧
    (∀ name ∈ ["NVIDIA_VISIBLE_DEVICES", "NVIDIA_DRIVER_CAPABILITIES"],
      result.find? name =
        if spec.resources.gpuCount ≠ 0 then inherited.find? name
        else if name = "NVIDIA_VISIBLE_DEVICES" then some "void" else none) ∧
    (∀ spec' : RunSpec, spec'.resources.gpuCount = spec.resources.gpuCount →
      ∀ name ∈ controlled,
        (workloadEnvironment spec' inherited root runId generation).find? name =
          result.find? name) ∧
    (∀ inherited' : Environment,
      (∀ name ∈ allowed, inherited.find? name = inherited'.find? name) →
        result = workloadEnvironment spec inherited' root runId generation) ∧
    (∀ getenv getenv' : String → Option String, (∀ name ∈ allowed, getenv name = getenv' name) →
      runtimeEnvironment getenv = runtimeEnvironment getenv') ∧
    ∀ name, name ∉ controlled →
      result.find? name = (spec.environment.find? name).or
        ((if name ∈ allowed then inherited.find? name else none).or (defaults.find? name)) := by
  refine ⟨_, rfl, ?_, ?_, ?_, ?_, ?_, ?_⟩
  · simp [workloadEnvironment, platform, StringMap.find?_insert]
  · intro name device
    have inside : name ∈ controlled := by
      simp only [controlled, List.mem_cons, List.not_mem_nil, or_false] at device ⊢
      tauto
    rw [find?_controlled spec inherited root runId generation inside]
    simp only [platform, StringMap.find?_insert, find?_hideDevices, find?_exposeDevices, device]
    simp only [List.mem_cons, List.not_mem_nil, or_false] at device
    grind
  · intro spec' same name inside
    rw [find?_controlled spec inherited root runId generation inside,
      find?_controlled spec' inherited root runId generation inside, same]
  · exact fun inherited' same => workloadEnvironment_congr spec inherited root runId generation same
  · exact fun getenv getenv' same => copy_congr same
  · exact fun name outside => find?_uncontrolled spec inherited root runId generation outside

end Main

/-- A specification of before, which asks for all devices. -/
def Sample.historicalSpec : RunSpec where
  name := "run"
  image := "image"
  command := ["train"]
  environment := StringMap.empty.insert "NVIDIA_VISIBLE_DEVICES" "all"

def Sample.inherited : Environment := StringMap.empty.insert "PATH" "/opt/venv/bin"

/-- It gets none, and the path of the runner but not its credential. -/
theorem workload_isolation_secret :
    let result := workloadEnvironment Sample.historicalSpec Sample.inherited "/work" "run" 1
    result.find? "NVIDIA_VISIBLE_DEVICES" = some "void" ∧
    result = workloadEnvironment Sample.historicalSpec
      (Sample.inherited.insert "RUNYARD_CAPABILITY" "secret") "/work" "run" 1 ∧
    result.find? "PATH" = some "/opt/venv/bin" := by
  obtain ⟨_, rfl, _, devices, _, inherits, _, others⟩ :=
    workload_isolation Sample.historicalSpec Sample.inherited "/work" "run" 1
  refine ⟨devices _ (by decide), inherits _ fun name hname => ?_, ?_⟩
  · rw [StringMap.find?_insert, if_neg]
    rintro rfl
    exact absurd hname (by decide)
  · rw [others "PATH" (by decide)]
    rfl

end Runyard
