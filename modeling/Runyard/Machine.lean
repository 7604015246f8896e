import Mathlib.Order.Defs.LinearOrder
import Mathlib.Algebra.Order.Ring.Int

/-!
# Machine integers whose operations tell an overflow

Signed arithmetic of a C++ program. An operation has a value when the exact result is in the range
of its type; `none` stands for an overflow, and in a narrowing for a value that is not kept.
-/

namespace Machine

def int? (n : Int) : Option Int32 := if -2 ^ 31 ≤ n ∧ n < 2 ^ 31 then some (.ofInt n) else none

def int64? (n : Int) : Option Int64 := if -2 ^ 63 ≤ n ∧ n < 2 ^ 63 then some (.ofInt n) else none

def sub (a b : Int32) : Option Int32 := int? (a.toInt - b.toInt)

def mul (a b : Int64) : Option Int64 := int64? (a.toInt * b.toInt)

/-- `a << count`. -/
def shiftLeft (a : Int64) (count : Int32) : Option Int64 :=
  if 0 ≤ count.toInt ∧ count.toInt < 64 then int64? (a.toInt * 2 ^ count.toInt.toNat) else none

/-- `static_cast<int>`. -/
def narrow (a : Int64) : Option Int32 := int? a.toInt

/-- `std::clamp`. -/
def clamp (a low high : Int32) : Int32 := if a < low then low else if high < a then high else a

variable {n : Int}

theorem int?_in_range (low : -2 ^ 31 ≤ n) (high : n < 2 ^ 31) :
    ∃ v, int? n = some v ∧ v.toInt = n :=
  ⟨.ofInt n, if_pos ⟨low, high⟩, Int32.toInt_ofInt_of_le low high⟩

theorem int64?_in_range (low : -2 ^ 63 ≤ n) (high : n < 2 ^ 63) :
    ∃ v, int64? n = some v ∧ v.toInt = n :=
  ⟨.ofInt n, if_pos ⟨low, high⟩, Int64.toInt_ofInt_of_le low high⟩

theorem sub_in_range (a b : Int32) (low : -2 ^ 31 ≤ a.toInt - b.toInt)
    (high : a.toInt - b.toInt < 2 ^ 31) : ∃ v, sub a b = some v ∧ v.toInt = a.toInt - b.toInt :=
  int?_in_range low high

theorem mul_in_range (a b : Int64) (low : -2 ^ 63 ≤ a.toInt * b.toInt)
    (high : a.toInt * b.toInt < 2 ^ 63) : ∃ v, mul a b = some v ∧ v.toInt = a.toInt * b.toInt :=
  int64?_in_range low high

theorem shiftLeft_in_range (a : Int64) (count : Int32) (positive : 0 ≤ count.toInt)
    (small : count.toInt < 64) (low : -2 ^ 63 ≤ a.toInt * 2 ^ count.toInt.toNat)
    (high : a.toInt * 2 ^ count.toInt.toNat < 2 ^ 63) :
    ∃ v, shiftLeft a count = some v ∧ v.toInt = a.toInt * 2 ^ count.toInt.toNat := by
  rw [shiftLeft, if_pos ⟨positive, small⟩]
  exact int64?_in_range low high

theorem narrow_in_range (a : Int64) (low : -2 ^ 31 ≤ a.toInt) (high : a.toInt < 2 ^ 31) :
    ∃ v, narrow a = some v ∧ v.toInt = a.toInt :=
  int?_in_range low high

theorem int_toInt_max (a b : Int32) : (max a b).toInt = max a.toInt b.toInt := by
  change (if a ≤ b then b else a).toInt = _
  rw [max_def]
  split
  · next h => rw [if_pos (Int32.le_iff_toInt_le.mp h)]
  · next h => rw [if_neg (mt Int32.le_iff_toInt_le.mpr h)]

theorem int64_toInt_min (a b : Int64) : (min a b).toInt = min a.toInt b.toInt := by
  change (if a ≤ b then a else b).toInt = _
  rw [min_def]
  split
  · next h => rw [if_pos (Int64.le_iff_toInt_le.mp h)]
  · next h => rw [if_neg (mt Int64.le_iff_toInt_le.mpr h)]

theorem clamp_toInt {a low high : Int32} (ordered : low.toInt ≤ high.toInt) :
    (clamp a low high).toInt = max low.toInt (min a.toInt high.toInt) := by
  unfold clamp
  simp only [Int32.lt_iff_toInt_lt]
  split
  · omega
  · split
    · omega
    · omega

end Machine
