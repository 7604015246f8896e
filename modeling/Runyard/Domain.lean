import Runyard.Entries
import Mathlib.Algebra.Ring.Int.Defs
import Mathlib.Algebra.Ring.Nat
import Mathlib.Data.List.Basic
import Mathlib.Order.Basic
import Mathlib.Data.String.Basic

/-!
# Domain model

The run lifecycle, run specifications with their validation, telemetry records, and the
retry policy. Instants and durations are integers in microseconds; `seconds` converts.
-/

namespace Runyard

inductive ErrorCode where
  | invalid | notFound | conflict | unauthorized | unavailable | stale | exhausted
  deriving DecidableEq, Repr

/-- `Error` is the program's own exception; the other two come out of the libraries that
the repository calls: a violated unique constraint and a checked index. -/
inductive Fault where
  | error (code : ErrorCode) (message : String)
  | uniqueViolation (constraint : String)
  | outOfRange
  deriving DecidableEq, Repr

abbrev Result (α : Type) := Except Fault α

def fault {α : Type} (code : ErrorCode) (message : String) : Result α :=
  .error (.error code message)

def require (condition : Bool) (message : String) : Result Unit :=
  if condition then .ok () else fault .invalid message

/-- `if (condition) throw Error(code, message)`. -/
def throwIf (condition : Bool) (code : ErrorCode) (message : String) : Result Unit :=
  if condition then fault code message else .ok ()

namespace Result

variable {α β : Type}

theorem bind_ok {x : Result α} {f : α → Result β} {b : β} :
    x >>= f = .ok b ↔ ∃ a, x = .ok a ∧ f a = .ok b := by
  cases x with
  | ok a => simp [bind, Except.bind]
  | error e => simp [bind, Except.bind]

theorem bind_error {x : Result α} {f : α → Result β} {e : Fault} :
    x >>= f = .error e ↔ x = .error e ∨ ∃ a, x = .ok a ∧ f a = .error e := by
  cases x with
  | ok a => simp [bind, Except.bind]
  | error e' => simp [bind, Except.bind]

theorem map_ok {x : Result α} {f : α → β} {b : β} :
    x.map f = .ok b ↔ ∃ a, x = .ok a ∧ f a = b := by
  cases x with
  | ok a => simp [Except.map]
  | error e => simp [Except.map]

@[simp] theorem pure_ok {a b : α} : (pure a : Result α) = .ok b ↔ a = b := by
  simp [pure, Except.pure]

@[simp] theorem fault_ok {code : ErrorCode} {message : String} {a : α} :
    (fault code message : Result α) = .ok a ↔ False := by
  simp [fault]

@[simp] theorem require_ok {condition : Bool} {message : String} {u : Unit} :
    require condition message = .ok u ↔ condition := by
  cases condition <;> simp [require]

@[simp] theorem throwIf_ok {condition : Bool} {code : ErrorCode} {message : String} {u : Unit} :
    throwIf condition code message = .ok u ↔ ¬ condition := by
  cases condition <;> simp [throwIf]

theorem forM_ok {α : Type} {g : α → Result Unit} {items : List α} :
    items.forM g = .ok () ↔ ∀ a ∈ items, g a = .ok () := by
  induction items with
  | nil => simp [pure, Except.pure]
  | cons a rest ih =>
    rw [List.forM_eq_forM] at ih ⊢
    rw [List.forM_cons, bind_ok, List.forall_mem_cons, ← ih]
    exact ⟨fun ⟨_, first, others⟩ => ⟨first, others⟩, fun ⟨first, others⟩ => ⟨(), first, others⟩⟩

theorem throwIf_error {condition : Bool} {code : ErrorCode} {message : String} {e : Fault} :
    throwIf condition code message = .error e ↔ condition ∧ e = .error code message := by
  cases condition <;> simp [throwIf, fault, eq_comm]

end Result

/-! ## Statuses -/

inductive RunStatus where
  | queued | starting | running | finalizing | retryWait | succeeded | failed | cancelled
  deriving DecidableEq, Repr

/-- The values of `attempts.status`. -/
inductive AttemptStatus where
  | starting | running | finalizing | succeeded | failed | cancelled
  deriving DecidableEq, Repr

inductive CleanupStatus where
  | pending | done
  deriving DecidableEq, Repr

inductive Failure where
  | infrastructure | exitError | timeout | cancelled
  deriving DecidableEq, Repr

namespace RunStatus

def terminal (status : RunStatus) : Bool :=
  status = .succeeded || status = .failed || status = .cancelled

def transitionAllowed (source target : RunStatus) : Bool :=
  if source.terminal then false
  else if target = .cancelled then true
  else match source with
    | .queued => target = .starting
    | .starting => target = .running || target = .retryWait || target = .failed
    | .running => target = .finalizing || target = .retryWait || target = .failed
    | .finalizing => target = .succeeded || target = .retryWait || target = .failed
    | .retryWait => target = .queued
    | _ => false

/-- The run has a runner that may still act. -/
def live : RunStatus → Bool
  | .starting | .running | .finalizing => true
  | _ => false

theorem terminal_not_live {status : RunStatus} (h : status.terminal) : status.live = false := by
  cases status <;> simp_all [terminal, live]

theorem transitionAllowed_source {source target : RunStatus}
    (h : transitionAllowed source target) : ¬ source.terminal := by
  intro ht
  simp [transitionAllowed, ht] at h

end RunStatus

/-- `status IN ('STARTING','RUNNING','FINALIZING')`. -/
def AttemptStatus.live : AttemptStatus → Bool
  | .starting | .running | .finalizing => true
  | _ => false

/-! ## Specifications -/

/-- An IEEE binary64 value by its bits. -/
structure Double where
  bits : BitVec 64
  deriving DecidableEq, Repr

def Double.isFinite (x : Double) : Bool := x.bits.extractLsb 62 52 ≠ 0x7ff#11

inductive Scalar where
  | null
  | bool (value : Bool)
  | int (value : Int)
  | double (value : Double)
  | string (value : String)
  deriving DecidableEq, Repr

/-- `std::map<std::string, α>` as its entries in key order. -/
structure StringMap (α : Type) where
  entries : List (String × α)
  ordered : entries.Pairwise fun a b => a.1 < b.1
  deriving DecidableEq

namespace StringMap

variable {α : Type}

def empty : StringMap α := ⟨[], .nil⟩

def size (m : StringMap α) : Nat := m.entries.length

def contains (m : StringMap α) (key : String) : Bool := m.entries.any fun e => e.1 = key

/-- `m[key] = value`. -/
def insert (m : StringMap α) (key : String) (value : α) : StringMap α :=
  ⟨Entries.assign key value m.entries, Entries.ascending_assign m.ordered⟩

def all (m : StringMap α) (p : String → α → Bool) : Bool := m.entries.all fun e => p e.1 e.2

end StringMap

structure Resources where
  cpuMillis : Int := 1000
  memoryMib : Int := 512
  gpuCount : Int := 0
  deriving DecidableEq, Repr

structure RetryPolicy where
  maxAttempts : Int := 3
  retryExit : Bool := false
  retryTimeout : Bool := false
  deriving DecidableEq, Repr

structure RunSpec where
  version : Int := 1
  name : String
  image : String
  command : List String
  parameters : StringMap Scalar := .empty
  environment : StringMap String := .empty
  labels : StringMap String := .empty
  resources : Resources := {}
  retry : RetryPolicy := {}
  timeoutSeconds : Int := 1800
  priority : Int := 0
  sourceRepository : String := ""
  sourceRevision : String := ""
  deriving DecidableEq

structure SweepSpec where
  base : RunSpec
  grid : StringMap (List Scalar)
  deriving DecidableEq

def safeString (value : String) : Bool := value.toList.all fun c => c ≠ '\x00'

theorem utf8ByteSize_replicate {c : Char} (ascii : c.utf8Size = 1) (n : Nat) :
    (String.ofList (List.replicate n c)).utf8ByteSize = n := by
  induction n with
  | zero => rfl
  | succ n ih =>
    rw [List.replicate_succ, String.ofList_cons, String.utf8ByteSize_append, ih,
      String.utf8ByteSize_singleton, ascii, Nat.add_comm]

def lowerHex (c : Char) : Bool := c.isDigit || ('a' ≤ c && c ≤ 'f')

def imageNameChar (c : Char) : Bool := c.isAlphanum || ['.', '_', ':', '/', '-'].contains c

/-- The regular expression for pinned images. Its name part has no `@`, so the last 72
characters of a match are `@sha256:` and the digest. -/
def imagePattern (image : String) : Bool :=
  let chars := image.toList
  match chars.splitAt (chars.length - 72) with
  | (first :: rest, digest) =>
    first.isAlphanum && rest.all imageNameChar &&
      digest.take 8 = "@sha256:".toList && (digest.drop 8).length = 64 &&
      (digest.drop 8).all lowerHex
  | ([], _) => false

def envNamePattern (name : String) : Bool :=
  match name.toList with
  | first :: rest => (first.isAlpha || first = '_') && rest.all fun c => c.isAlphanum || c = '_'
  | [] => false

def startsWith (text pre : String) : Bool := pre.toList.isPrefixOf text.toList

def validScalar : Scalar → Result Unit
  | .double number => require number.isFinite "parameter must be finite"
  | .string text =>
    require (text.utf8ByteSize ≤ 16384 && safeString text) "invalid parameter value"
  | _ => .ok ()

def validate (spec : RunSpec) : Result Unit := do
  require (spec.version = 1) "specification version must be 1"
  require (spec.name ≠ "" && spec.name.utf8ByteSize ≤ 200 && safeString spec.name)
    "invalid run name"
  require (spec.image.utf8ByteSize ≤ 1024 && imagePattern spec.image)
    "image must be pinned with @sha256:<64 lowercase hex digits>"
  require (spec.command ≠ [] && spec.command.length ≤ 256 && spec.command.head? ≠ some "")
    "command must be a nonempty argv array"
  require (spec.command.all fun arg => arg.utf8ByteSize ≤ 16384 && safeString arg)
    "invalid command argument"
  require (0 < spec.resources.cpuMillis && spec.resources.cpuMillis ≤ 1000000)
    "cpu_millis out of range"
  require (32 ≤ spec.resources.memoryMib && spec.resources.memoryMib ≤ 1048576)
    "memory_mib out of range"
  require (0 ≤ spec.resources.gpuCount && spec.resources.gpuCount ≤ 64)
    "gpu_count must be between 0 and 64"
  require (0 < spec.timeoutSeconds && spec.timeoutSeconds ≤ 604800)
    "timeout_seconds must be between 1 and 604800"
  require (0 ≤ spec.priority && spec.priority ≤ 9) "priority must be between 0 and 9"
  require (1 ≤ spec.retry.maxAttempts && spec.retry.maxAttempts ≤ 10)
    "max_attempts must be between 1 and 10"
  require (spec.parameters.size ≤ 100 && spec.labels.size ≤ 50 && spec.environment.size ≤ 100)
    "too many specification fields"
  require (spec.sourceRepository.utf8ByteSize ≤ 2048 && safeString spec.sourceRepository &&
      spec.sourceRevision.utf8ByteSize ≤ 200 && safeString spec.sourceRevision)
    "invalid source metadata"
  require (spec.labels.all fun key value => key ≠ "" && key.utf8ByteSize ≤ 200 &&
      value.utf8ByteSize ≤ 1024 && safeString key && safeString value)
    "invalid label"
  spec.environment.entries.forM fun (key, value) => do
    require (envNamePattern key && !startsWith key "RUNYARD_")
      "invalid or reserved environment name"
    require (value.utf8ByteSize ≤ 16384 && safeString value) "invalid environment value"
  spec.parameters.entries.forM fun (key, value) => do
    require (key ≠ "" && key.utf8ByteSize ≤ 200 && safeString key) "invalid parameter name"
    validScalar value

/-- What the last loop of `validate` asks of a parameter. -/
def validParameter : String × Scalar → Result Unit := fun (key, value) => do
  require (key ≠ "" && key.utf8ByteSize ≤ 200 && safeString key) "invalid parameter name"
  validScalar value

theorem validate_parameters {spec : RunSpec} : validate spec = .ok () ↔
    validate { spec with parameters := .empty } = .ok () ∧ spec.parameters.size ≤ 100 ∧
      ∀ e ∈ spec.parameters.entries, validParameter e = .ok () := by
  rw [← Result.forM_ok]
  unfold validParameter
  simp only [validate, Result.bind_ok, Result.require_ok, exists_const, Bool.and_eq_true,
    decide_eq_true_eq, List.forM_eq_forM]
  have none : StringMap.size (StringMap.empty : StringMap Scalar) = 0 := rfl
  have done : (StringMap.empty : StringMap Scalar).entries = [] := rfl
  simp only [none, done, List.forM_nil, Result.pure_ok, and_true, Nat.zero_le, true_and]
  tauto

theorem validate_labels {spec : RunSpec} : validate spec = .ok () ↔
    validate { spec with labels := .empty } = .ok () ∧ spec.labels.size ≤ 50 ∧
      spec.labels.all fun key value => key ≠ "" && key.utf8ByteSize ≤ 200 &&
        value.utf8ByteSize ≤ 1024 && safeString key && safeString value := by
  have none : StringMap.size (StringMap.empty : StringMap String) = 0 := rfl
  have done : ∀ p, StringMap.all (StringMap.empty : StringMap String) p = true := fun _ => rfl
  simp only [validate, Result.bind_ok, Result.require_ok, exists_const, Bool.and_eq_true,
    decide_eq_true_eq, none, done, Nat.zero_le, true_and]
  tauto

def validateSubmission (spec : RunSpec) : Result Unit := do
  validate spec
  ["NVIDIA_VISIBLE_DEVICES", "NVIDIA_DRIVER_CAPABILITIES"].forM fun name =>
    require (!spec.environment.contains name) "NVIDIA exposure is controlled by Runyard"

/-! ## Telemetry -/

abbrev Bytes := List UInt8

structure Telemetry where
  sequence : Int := 0
  kind : String := ""
  text : Bytes := []
  name : String := ""
  step : Int := 0
  value : Double := ⟨0⟩
  timestampMs : Int := 0
  deriving DecidableEq, Repr

def Telemetry.validate (point : Telemetry) : Result Unit := do
  require (0 < point.sequence) "telemetry sequence must be positive"
  require (["stdout", "stderr", "metric", "notice"].contains point.kind) "unknown telemetry kind"
  require (point.text.length ≤ 65536 && point.text.all (· ≠ 0)) "log record exceeds 64 KiB"
  if point.kind = "metric" then
    require (point.name ≠ "" && point.name.utf8ByteSize ≤ 200 && safeString point.name)
      "invalid metric name"
    require (point.value.isFinite && 0 ≤ point.step) "invalid metric value or step"

/-- The loop takes the parts between slashes, also an empty one at the end. -/
def validateRelativePath (path : String) : Result Unit := do
  require (path ≠ "" && path.utf8ByteSize ≤ 1024 && path.toList.head? ≠ some '/' &&
    safeString path) "invalid artifact path"
  require (!path.toList.contains '\\') "artifact paths use forward slashes"
  (path.toList.splitOn '/').forM fun part =>
    require (part ≠ [] && part ≠ ['.'] && part ≠ ['.', '.'])
      "artifact path contains an unsafe component"

/-! ## Retry policy -/

def shouldRetry (policy : RetryPolicy) (completedAttempts : Int) (reason : Failure) : Bool :=
  if completedAttempts ≥ policy.maxAttempts || reason = .cancelled then false
  else reason = .infrastructure || (reason = .exitError && policy.retryExit) ||
    (reason = .timeout && policy.retryTimeout)

def retryDelay (generation baseSeconds maxSeconds : Int) : Int :=
  let factor := 2 ^ (max 1 (min generation 31) - 1).toNat
  min (max 1 maxSeconds) (max 1 baseSeconds * factor)

theorem shouldRetry_budget {policy : RetryPolicy} {n : Int} {reason : Failure}
    (h : shouldRetry policy n reason) : n < policy.maxAttempts := by
  by_contra hn
  simp [shouldRetry, Int.not_lt.mp hn] at h

/-! ## Time -/

/-- Instants and durations are counted in microseconds. -/
def seconds (n : Int) : Int := n * 1000000

structure Timing where
  heartbeatSeconds : Int := 5
  leaseSeconds : Int := 30
  workerSeconds : Int := 15
  launchSeconds : Int := 300
  retryBaseSeconds : Int := 5
  terminationSeconds : Int := 10
  finalizationSeconds : Int := 300
  retryMaxSeconds : Int := 60
  recoveryScanMillis : Int := 1000
  deriving DecidableEq, Repr

end Runyard
