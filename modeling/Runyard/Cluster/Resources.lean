import Runyard.Serialization.Number

/-!
# Resources of the cluster

`kubernetes_resources.cpp`: how many whole GPUs a quantity of the Kubernetes API means, what a pod
requests, and what a node has. The arithmetic of `long double` comes from the platform. A signed
sum that does not fit has no value: nothing is defined after it.
-/

namespace Runyard

/-- Why a call does not return. -/
inductive Abort where
  | thrown (e : Thrown)
  | overflow
  deriving DecidableEq

abbrev Checked (α : Type) := Except Abort α

instance : MonadLift Decoding Checked := ⟨fun x => x.mapError .thrown⟩

namespace Checked

variable {α : Type}

@[simp] theorem lift_ok {x : Decoding α} {a : α} : (liftM x : Checked α) = .ok a ↔ x = .ok a :=
  Except.mapError_eq_ok

@[simp] theorem lift_access_ok {x : Json.Access α} {a : α} :
    (liftM x : Checked α) = .ok a ↔ x = .ok a :=
  Except.mapError_eq_ok.trans Decoding.lift_access_ok

@[simp] theorem lift_result_ok {x : Result α} {a : α} :
    (liftM x : Checked α) = .ok a ↔ x = .ok a :=
  Except.mapError_eq_ok.trans Decoding.lift_result_eq_ok

end Checked

/-- `a + b` in `std::int64_t`. -/
def int64Add (a b : Int) : Checked Int :=
  if -2 ^ 63 ≤ a + b ∧ a + b < 2 ^ 63 then .ok (a + b) else .error .overflow

theorem int64Add_ok {a b sum : Int} (h : int64Add a b = .ok sum) : sum = a + b := by
  rw [int64Add] at h
  split at h
  · exact (Except.ok.inj h).symm
  · cases h

/-! ## Quantities -/

structure LongDouble where
  Value : Type
  /-- The number, where it is finite. -/
  finite : Value → Option Rat
  ofInt : Int → Value
  stold : List Char → Value
  pow : Value → Value → Value
  mul : Value → Value → Value
  /-- `1e-9L`. -/
  tolerance : Rat

/-- The second group of the pattern. -/
inductive QuantitySuffix where
  | none
  | exponent (text : List Char)
  | unit (letter : Char) (binary : Bool)
  deriving DecidableEq

/-- `powers`. -/
def quantityPower : Char → Option Int
  | 'n' => some (-9)
  | 'u' => some (-6)
  | 'm' => some (-3)
  | 'k' => some 3
  | 'K' => some 3
  | 'M' => some 6
  | 'G' => some 9
  | 'T' => some 12
  | 'P' => some 15
  | 'E' => some 18
  | _ => none

/-- `[+-]?[0-9]+` -/
def quantityExponent (text : List Char) : Bool :=
  let digits := match text with
    | '+' :: rest => rest
    | '-' :: rest => rest
    | _ => text
  digits ≠ [] && digits.all Char.isDigit

/-- `([eE][+-]?[0-9]+|[numkKMGTPE]i?)?` -/
def readQuantitySuffix : List Char → Option QuantitySuffix
  | [] => some .none
  | c :: rest =>
    if (c = 'e' || c = 'E') && quantityExponent rest then some (.exponent rest)
    else if (quantityPower c).isNone then none
    else if rest = [] then some (.unit c false)
    else if rest = ['i'] then some (.unit c true)
    else none

/-- `[0-9]+(?:\.[0-9]+)?` and what follows it. -/
def readQuantityNumber (text : List Char) : Option (List Char × List Char) :=
  let whole := text.takeWhile Char.isDigit
  if whole = [] then none
  else match text.dropWhile Char.isDigit with
    | '.' :: rest =>
      let fraction := rest.takeWhile Char.isDigit
      if fraction = [] then none
      else some (whole ++ '.' :: fraction, rest.dropWhile Char.isDigit)
    | rest => some (whole, rest)

namespace LongDouble

variable (d : LongDouble)

def scale : QuantitySuffix → d.Value
  | .none => d.ofInt 1
  | .exponent text => d.pow (d.ofInt 10) (d.stold text)
  | .unit letter binary =>
    let power := (quantityPower letter).getD 0
    if binary then d.pow (d.ofInt 1024) (d.ofInt (power.tdiv 3))
    else d.pow (d.ofInt 10) (d.ofInt power)

/-- The nearest integer of a value that is in range and as good as whole. The difference to the
nearest integer is exact. -/
def whole (value : d.Value) : Option Int := do
  let q ← d.finite value
  let nearest := (q + 1 / 2).floor
  if 0 ≤ q ∧ q ≤ 1000000000000 ∧ q - nearest < d.tolerance ∧ nearest - q < d.tolerance then
    some nearest
  else none

/-- The text of a quantity. -/
def quantity (text : String) : Option Int :=
  if 64 < text.utf8ByteSize then none
  else do
    let (number, rest) ← readQuantityNumber text.toList
    let suffix ← readQuantitySuffix rest
    d.whole (d.mul (d.stold number) (d.scale suffix))

end LongDouble

def gpuQuantity (d : LongDouble) (quantity : Json Number) : Decoding Int :=
  let value := match quantity with
    | .number n =>
      if n.isInteger && 0 ≤ n.toInt && n.toInt ≤ 1000000000000 then some n.toInt else none
    | .string text => d.quantity text
    | _ => none
  match value with
  | some value => .ok value
  | none => (fault .invalid "invalid whole-GPU resource quantity" : Result Int)

/-- `value("nvidia.com/gpu", Json(0))`. -/
def gpuField (resources : Json Number) (fallback : Json Number) : Decoding (Json Number) :=
  resources.valueOr "nvidia.com/gpu" fallback .ok

def noGpu : Json Number := .number (.integer 0)

def requested (d : LongDouble) (container : Json Number) : Decoding Int := do
  let resources ← container.valueOr "resources" (.object []) .ok
  let requests ← resources.valueOr "requests" (.object []) .ok
  let limits ← resources.valueOr "limits" (.object []) .ok
  gpuQuantity d (← gpuField requests (← gpuField limits noGpu))

/-! ## Pods -/

/-- One init container: the sum of the restartable ones so far and the largest sum so far. -/
def initStep (d : LongDouble) (acc : Int × Int) (container : Json Number) :
    Checked (Int × Int) := do
  let (sidecars, initialization) := acc
  let count ← requested d container
  let policy ← container.valueOr "restartPolicy" "" Json.getString
  if policy = "Always" then do
    let sidecars ← int64Add sidecars count
    return (sidecars, max initialization sidecars)
  else do
    let running ← int64Add sidecars count
    return (sidecars, max initialization running)

def applicationStep (d : LongDouble) (application : Int) (container : Json Number) :
    Checked Int := do
  int64Add application (← requested d container)

def podOverhead (d : LongDouble) (spec : Json Number) : Decoding Int := do
  let overhead ← spec.valueOr "overhead" (.object []) .ok
  gpuQuantity d (← gpuField overhead noGpu)

def podGpuRequest (d : LongDouble) (pod : Json Number) : Checked Int := do
  let spec ← pod.field "spec"
  let containers ← spec.valueOr "containers" (.array []) .ok
  let application ← containers.elements.foldlM (applicationStep d) 0
  let initContainers ← spec.valueOr "initContainers" (.array []) .ok
  let (sidecars, initialization) ← initContainers.elements.foldlM (initStep d) (0, 0)
  let overhead ← podOverhead d spec
  let running ← int64Add application sidecars
  int64Add (max running initialization) overhead

/-! ## Nodes -/

structure GpuNodeCapacity where
  name : String
  capacity : Int := 0
  allocatable : Int := 0
  reserved : Int := 0
  ready : Bool := false
  schedulable : Bool := false
  eligible : Bool := false
  deriving DecidableEq, Repr

/-- One of the conditions; the last one of the type `Ready` decides. -/
def readyStep (ready : Bool) (condition : Json Number) : Decoding Bool := do
  if (← condition.valueOr "type" "" Json.getString) = "Ready" then do
    return (← condition.valueOr "status" "" Json.getString) = "True"
  else return ready

def gpuNodeCapacity (d : LongDouble) (node : Json Number) : Decoding GpuNodeCapacity := do
  let name ← (← (← node.field "metadata").field "name").getString
  let status ← node.valueOr "status" (.object []) .ok
  let capacity ← gpuQuantity d (← gpuField (← status.valueOr "capacity" (.object []) .ok) noGpu)
  let allocatable ← gpuQuantity d
    (← gpuField (← status.valueOr "allocatable" (.object []) .ok) noGpu)
  let conditions ← status.valueOr "conditions" (.array []) .ok
  let ready ← conditions.elements.foldlM readyStep false
  let spec ← node.valueOr "spec" (.object []) .ok
  let unschedulable ← spec.valueOr "unschedulable" false Json.getBoolean
  let exclusive ←
    if ready && !unschedulable then do
      let labels ← (← node.field "metadata").valueOr "labels" (.object []) .ok
      let mode ← labels.valueOr "runyard.io/gpu-mode" "" Json.getString
      pure (decide (mode = "exclusive"))
    else pure false
  return {
    name, capacity, allocatable, ready
    schedulable := !unschedulable
    eligible := exclusive }

end Runyard
