import Runyard.Domain
import Runyard.Json

/-!
# JSON numbers and exceptions

The three kinds of number that the JSON library keeps apart, their conversion to the program's
own types, and what code that reads a document may throw.
-/

namespace Runyard

/-! ## Conversion to binary64 -/

namespace Double

/-- Round the last `places` bits away, to the nearest and on a tie to the even number. -/
def roundOff (n places : Nat) : Nat :=
  let quotient := n / 2 ^ places
  let remainder := n % 2 ^ places
  if 2 ^ places < 2 * remainder || (2 * remainder = 2 ^ places && quotient % 2 = 1) then
    quotient + 1
  else quotient

/-- The 53 bits of the significand; rounding up may give `2 ^ 53`. -/
def significand (n : Nat) : Nat :=
  if n.log2 ≤ 52 then n * 2 ^ (52 - n.log2) else roundOff n (n.log2 - 52)

/-- `static_cast<double>` of an unsigned integer. A significand of `2 ^ 53` carries into the
exponent. -/
def ofNat (n : Nat) : Double :=
  if n = 0 then ⟨0⟩ else ⟨BitVec.ofNat 64 ((n.log2 + 1022) * 2 ^ 52 + significand n)⟩

/-- `static_cast<double>` of a signed integer. -/
def ofInt (i : Int) : Double :=
  if i < 0 then ⟨(ofNat i.natAbs).bits ||| 1#64 <<< 63⟩ else ofNat i.natAbs

example : ofInt (-3) = ⟨0xc008000000000000⟩ ∧ ofNat (2 ^ 53 + 1) = ⟨0x4340000000000000⟩ ∧
    ofNat (2 ^ 64 - 1) = ⟨0x43f0000000000000⟩ := by decide +kernel

def exponent (x : Double) : Nat := x.bits.toNat / 2 ^ 52 % 2 ^ 11

def fraction (x : Double) : Nat := x.bits.toNat % 2 ^ 52

/-- `x == y`: a NaN is not itself, and both zeros are one number. -/
def equal (x y : Double) : Bool :=
  (x.isFinite || x.fraction = 0) &&
    (x = y || x.exponent = 0 && x.fraction = 0 && y.exponent = 0 && y.fraction = 0)

/-- The part before the point; `none` where the value is not finite. -/
def truncated (x : Double) : Option Int :=
  if x.isFinite then
    let significand := if x.exponent = 0 then x.fraction else 2 ^ 52 + x.fraction
    let place := max x.exponent 1
    let magnitude := if 1075 ≤ place then significand * 2 ^ (place - 1075)
      else significand / 2 ^ (1075 - place)
    some (if x.bits.msb then -magnitude else magnitude)
  else none

example : truncated ⟨0xc00c000000000000⟩ = some (-3) ∧ truncated ⟨0x3fe0000000000000⟩ = some 0 ∧
    truncated ⟨0x4340000000000000⟩ = some (2 ^ 53) := by decide +kernel

theorem isFinite_iff (x : Double) : x.isFinite ↔ x.bits.toNat / 2 ^ 52 % 2 ^ 11 ≠ 0x7ff := by
  rw [isFinite, decide_eq_true_iff, ne_eq, ← BitVec.toNat_inj, BitVec.extractLsb_toNat,
    Nat.shiftRight_eq_div_pow]
  rfl

end Double

/-! ## Numbers -/

inductive Number where
  | integer (value : Int64)
  | unsigned (value : UInt64)
  | float (value : Double)
  deriving DecidableEq

namespace Number

/-- `is_number_integer`, which holds of both integer kinds. -/
def isInteger : Number → Bool
  | .float _ => false
  | _ => true

/-- `get<std::int64_t>()` of an integer. -/
def toInt : Number → Int
  | .integer value => value.toInt
  | .unsigned value => value.toInt64.toInt
  | .float _ => 0

/-- `is_number_unsigned` with a value above the bound. -/
def above (bound : Nat) : Number → Bool
  | .unsigned value => bound < value.toNat
  | _ => false

/-- `operator==`: an integer is converted to the kind of the other one. -/
def equal : Number → Number → Bool
  | .integer m, .integer n => m = n
  | .unsigned m, .unsigned n => m = n
  | .float x, .float y => x.equal y
  | .integer m, .unsigned n => m = n.toInt64
  | .unsigned m, .integer n => m.toInt64 = n
  | .integer m, .float y => (Double.ofInt m.toInt).equal y
  | .float x, .integer n => x.equal (.ofInt n.toInt)
  | .unsigned m, .float y => (Double.ofNat m.toNat).equal y
  | .float x, .unsigned n => x.equal (.ofNat n.toNat)

/-- `get<double>()`. -/
def toDouble : Number → Double
  | .integer value => .ofInt value.toInt
  | .unsigned value => .ofNat value.toNat
  | .float value => value

end Number

def int64Max : Nat := 2 ^ 63 - 1

/-! ## Exceptions -/

/-- `Json::exception` with its text, or an exception of the program. -/
inductive Thrown where
  | json (what : String)
  | program (e : Fault)
  deriving DecidableEq

abbrev Decoding (α : Type) := Except Thrown α

instance : MonadLift Json.Access Decoding := ⟨fun x => x.mapError .json⟩

instance : MonadLift Result Decoding := ⟨fun x => x.mapError .program⟩

namespace Decoding

variable {α : Type}

variable {β : Type}

/-- What every value that comes out meets. -/
def Ensures (x : Decoding α) (p : α → Prop) : Prop := ∀ a, x = .ok a → p a

theorem Ensures.bind {x : Decoding α} {f : α → Decoding β} {p : β → Prop}
    (h : ∀ a, x = .ok a → Ensures (f a) p) : Ensures (x >>= f) p := by
  cases x with
  | ok a => exact h a rfl
  | error e => exact nofun

@[simp] theorem lift_access_ok {x : Json.Access α} {a : α} :
    (liftM x : Decoding α) = .ok a ↔ x = .ok a :=
  Except.mapError_eq_ok

@[simp] theorem lift_result_eq_ok {x : Result α} {a : α} :
    (liftM x : Decoding α) = .ok a ↔ x = .ok a :=
  Except.mapError_eq_ok

@[simp] theorem lift_ok (a : α) : (liftM (.ok a : Json.Access α) : Decoding α) = .ok a := rfl

@[simp] theorem lift_error (what : String) :
    (liftM (.error what : Json.Access α) : Decoding α) = .error (.json what) := rfl

@[simp] theorem lift_result_ok (a : α) : (liftM (.ok a : Result α) : Decoding α) = .ok a := rfl

@[simp] theorem lift_result_error (e : Fault) :
    (liftM (.error e : Result α) : Decoding α) = .error (.program e) := rfl

end Decoding

end Runyard
