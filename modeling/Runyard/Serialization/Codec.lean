import Runyard.Serialization.Number

/-!
# Specifications as documents

`encode` and `decode_spec`, `decode_sweep` of `json.cpp`. A decoder checks the fields in the
order of the source. `decode_spec` turns the exceptions of the JSON library into errors of the
program; `decode_sweep` does not.
-/

namespace Runyard

/-- The map that a sequence of assignments builds. -/
def StringMap.ofEntries {α : Type} (writes : List (String × α)) : StringMap α :=
  ⟨Entries.collect writes, Entries.ascending_collect⟩

/-! ## Encoding -/

def encodeInt (i : Int) : Json Number := .number (.integer (.ofInt i))

def encodeScalar : Scalar → Json Number
  | .null => .null
  | .bool b => .boolean b
  | .int i => encodeInt i
  | .double x => .number (.float x)
  | .string s => .string s

def encodeStrings (m : StringMap String) : Json Number :=
  .ofFields (m.entries.map fun e => (e.1, .string e.2))

/-- A count of zero is left out, as in the specifications from before GPUs. -/
def Resources.fields (r : Resources) : List (String × Json Number) :=
  [("cpu_millis", encodeInt r.cpuMillis), ("memory_mib", encodeInt r.memoryMib)] ++
    if r.gpuCount ≠ 0 then [("gpu_count", encodeInt r.gpuCount)] else []

def RetryPolicy.fields (r : RetryPolicy) : List (String × Json Number) :=
  [("max_attempts", encodeInt r.maxAttempts), ("retry_exit", .boolean r.retryExit),
    ("retry_timeout", .boolean r.retryTimeout)]

def RunSpec.sourceFields (s : RunSpec) : List (String × Json Number) :=
  [("repository", .string s.sourceRepository), ("revision", .string s.sourceRevision)]

def RunSpec.fields (s : RunSpec) : List (String × Json Number) :=
  [("version", encodeInt s.version), ("name", .string s.name), ("image", .string s.image),
    ("command", .array (s.command.map .string)),
    ("parameters", .ofFields (s.parameters.entries.map fun e => (e.1, encodeScalar e.2))),
    ("environment", encodeStrings s.environment), ("labels", encodeStrings s.labels),
    ("resources", .ofFields s.resources.fields), ("retry", .ofFields s.retry.fields),
    ("timeout_seconds", encodeInt s.timeoutSeconds), ("priority", encodeInt s.priority),
    ("source", .ofFields s.sourceFields)]

def RunSpec.encode (s : RunSpec) : Json Number := .ofFields s.fields

def SweepSpec.fields (s : SweepSpec) : List (String × Json Number) :=
  [("base", s.base.encode),
    ("grid", .ofFields (s.grid.entries.map fun e => (e.1, .array (e.2.map encodeScalar))))]

def SweepSpec.encode (s : SweepSpec) : Json Number := .ofFields s.fields

/-! ## Decoding -/

/-- The loop over the fields of an object that rejects all but the `allowed` ones. -/
def rejectOthers (message : String) (allowed : List String)
    (entries : List (String × Json Number)) : Result Unit :=
  entries.forM fun e => throwIf (!allowed.contains e.1) .invalid (message ++ e.1)

def fields (value : Json Number) (allowed : List String) : Result Unit :=
  match value with
  | .object entries => rejectOthers "unknown field: " allowed entries
  | _ => fault .invalid "expected a JSON object"

def intMin : Int := -2 ^ 31

def intMax : Nat := 2 ^ 31 - 1

def integer (value : Json Number) (key : String) (fallback : Int) : Result Int :=
  match value.find? key with
  | none => .ok fallback
  | some (.number n) => do
    throwIf (!n.isInteger || n.above intMax) .invalid (key ++ " must be an integer in range")
    throwIf (n.toInt < intMin || intMax < n.toInt) .invalid (key ++ " is out of range")
    return n.toInt
  | some _ => fault .invalid (key ++ " must be an integer in range")

def decodeScalar : Json Number → Result Scalar
  | .null => .ok .null
  | .boolean b => .ok (.bool b)
  | .number n =>
    if n.isInteger then do
      throwIf (n.above int64Max) .invalid "integer parameter is too large"
      return .int n.toInt
    else return .double n.toDouble
  | .string s => .ok (.string s)
  | _ => fault .invalid "parameters must be JSON scalars"

def specFields : List String :=
  ["version", "name", "image", "command", "parameters", "environment", "labels", "resources",
    "retry", "timeout_seconds", "priority", "source"]

def decodeParameters : Json Number → Result (StringMap Scalar)
  | .object entries => do
    let entries ← entries.mapM fun e => return (e.1, ← decodeScalar e.2)
    return .ofEntries entries
  | _ => fault .invalid "parameters must be an object"

/-- The body of the `try` block of `decode_spec`. -/
def decodeSpecFields (j : Json Number) : Decoding RunSpec := do
  match j with
  | .object entries => rejectOthers "unknown specification field: " specFields entries
  | _ => fault .invalid "specification must be an object"
  let version ← integer j "version" 1
  let name ← (← j.field "name").getString
  let image ← (← j.field "image").getString
  let command ← (← j.field "command").getStrings
  let parameters ← decodeParameters (← j.valueOr "parameters" (.object []) .ok)
  let environment ← j.valueOr "environment" [] Json.getEntries
  let labels ← j.valueOr "labels" [] Json.getEntries
  let r ← j.valueOr "resources" (.object []) .ok
  fields r ["cpu_millis", "memory_mib", "gpu_count"]
  let cpuMillis ← integer r "cpu_millis" 1000
  let memoryMib ← integer r "memory_mib" 512
  let gpuCount ← integer r "gpu_count" 0
  let retry ← j.valueOr "retry" (.object []) .ok
  fields retry ["max_attempts", "retry_exit", "retry_timeout"]
  let maxAttempts ← integer retry "max_attempts" 3
  let retryExit ← retry.valueOr "retry_exit" false Json.getBoolean
  let retryTimeout ← retry.valueOr "retry_timeout" false Json.getBoolean
  let timeoutSeconds ← integer j "timeout_seconds" 1800
  let priority ← integer j "priority" 0
  let source ← j.valueOr "source" (.object []) .ok
  fields source ["repository", "revision"]
  let sourceRepository ← source.valueOr "repository" "" Json.getString
  let sourceRevision ← source.valueOr "revision" "" Json.getString
  let s : RunSpec :=
    { version, name, image, command, parameters
      environment := .ofEntries environment
      labels := .ofEntries labels
      resources := ⟨cpuMillis, memoryMib, gpuCount⟩
      retry := ⟨maxAttempts, retryExit, retryTimeout⟩
      timeoutSeconds, priority, sourceRepository, sourceRevision }
  validate s
  return s

def decodeSpec (j : Json Number) : Result RunSpec :=
  match decodeSpecFields j with
  | .ok s => .ok s
  | .error (.json what) => fault .invalid ("invalid specification: " ++ what)
  | .error (.program e) => .error e

def decodeDimension : Json Number → Result (List Scalar)
  | .array items => do
    let values ← items.mapM decodeScalar
    throwIf items.isEmpty .invalid "grid dimensions cannot be empty"
    return values
  | _ => fault .invalid "grid dimensions must be arrays"

def decodeSweep (j : Json Number) : Decoding SweepSpec := do
  fields j ["base", "grid"]
  let base ← decodeSpec (← j.field "base")
  match ← j.field "grid" with
  | .object entries => do
    let dimensions ← entries.mapM fun e => return (e.1, ← decodeDimension e.2)
    return ⟨base, .ofEntries dimensions⟩
  | _ => fault .invalid "grid must be an object"

end Runyard
