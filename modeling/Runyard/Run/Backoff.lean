import Runyard.Domain
import Runyard.Machine
import Mathlib.Algebra.Order.Ring.Int

/-!
# Backoff

`retry_delay` on the machine's integers. It overflows nowhere, so it is the function on the
integers that the transactions use, with its bounds and its monotonicity.
-/

namespace Runyard

open Machine

namespace Backoff

/-- `retry_delay`; `none` would be an overflow. -/
def retryDelay (generation baseSeconds maxSeconds : Int32) : Option Int32 := do
  let exponent ← sub (clamp generation 1 31) 1
  let factor ← shiftLeft 1 exponent
  let product ← mul (max 1 baseSeconds).toInt64 factor
  narrow (min (max 1 maxSeconds).toInt64 product)

end Backoff

section Delay

variable {generation baseSeconds maxSeconds : Int}

/-- The factor is at least 1 and at most `2 ^ 30`. -/
theorem backoff_factor (generation : Int) :
    (1 : Int) ≤ 2 ^ (max 1 (min generation 31) - 1).toNat ∧
      (2 : Int) ^ (max 1 (min generation 31) - 1).toNat ≤ 2 ^ 30 := by
  have small : (max 1 (min generation 31) - 1).toNat ≤ 30 := by omega
  constructor
  · exact one_le_pow₀ (by decide)
  · exact pow_le_pow_right₀ (by decide) small

theorem retryDelay_pos : 1 ≤ retryDelay generation baseSeconds maxSeconds := by
  have factor := (backoff_factor generation).1
  refine le_min (le_max_left _ _) ?_
  calc (1 : Int) = 1 * 1 := rfl
    _ ≤ max 1 baseSeconds * _ := mul_le_mul (le_max_left _ _) factor (by decide) (by omega)

theorem retryDelay_le : retryDelay generation baseSeconds maxSeconds ≤ max 1 maxSeconds :=
  min_le_left _ _

theorem retryDelay_mono {generation' baseSeconds' maxSeconds' : Int}
    (hgeneration : generation ≤ generation') (hbase : baseSeconds ≤ baseSeconds')
    (hmax : maxSeconds ≤ maxSeconds') :
    retryDelay generation baseSeconds maxSeconds ≤
      retryDelay generation' baseSeconds' maxSeconds' := by
  have exponent : (max 1 (min generation 31) - 1).toNat ≤
      (max 1 (min generation' 31) - 1).toNat := by omega
  have factor : (2 : Int) ^ (max 1 (min generation 31) - 1).toNat ≤
      2 ^ (max 1 (min generation' 31) - 1).toNat := pow_le_pow_right₀ (by decide) exponent
  refine min_le_min (max_le_max_left 1 hmax) ?_
  exact mul_le_mul (max_le_max_left 1 hbase) factor (pow_nonneg (by decide) _) (by omega)

theorem retryDelay_exact (first : 1 ≤ generation) (last : generation ≤ 31) :
    retryDelay generation baseSeconds maxSeconds =
      min (max 1 maxSeconds) (max 1 baseSeconds * 2 ^ (generation - 1).toNat) := by
  rw [retryDelay, min_eq_left last, max_eq_right first]

end Delay

namespace Backoff

/-- No operation overflows, and the narrowing keeps the value. -/
theorem retryDelay_refines (generation baseSeconds maxSeconds : Int32) :
    ∃ delay, retryDelay generation baseSeconds maxSeconds = some delay ∧
      delay.toInt = Runyard.retryDelay generation.toInt baseSeconds.toInt maxSeconds.toInt := by
  have clamped : (clamp generation 1 31).toInt = max 1 (min generation.toInt 31) :=
    clamp_toInt (by decide)
  have base : (max 1 baseSeconds).toInt64.toInt = max 1 baseSeconds.toInt := by
    rw [Int32.toInt_toInt64, int_toInt_max, Int32.toInt_one]
  have cap : (max 1 maxSeconds).toInt64.toInt = max 1 maxSeconds.toInt := by
    rw [Int32.toInt_toInt64, int_toInt_max, Int32.toInt_one]
  have baseBound := baseSeconds.toInt_lt
  have capBound := maxSeconds.toInt_lt
  obtain ⟨factorLow, factorHigh⟩ := backoff_factor generation.toInt
  have one : (1 : Int32).toInt = 1 := Int32.toInt_one
  obtain ⟨exponent, hexponent, exponentValue⟩ :=
    sub_in_range (clamp generation 1 31) 1 (by omega) (by omega)
  rw [clamped, one] at exponentValue
  have power : (1 : Int64).toInt * 2 ^ exponent.toInt.toNat =
      2 ^ (max 1 (min generation.toInt 31) - 1).toNat := by
    rw [Int64.toInt_one, Int.one_mul, exponentValue]
  obtain ⟨factor, hfactor, factorValue⟩ :=
    shiftLeft_in_range 1 exponent (by omega) (by omega) (by omega) (by omega)
  rw [power] at factorValue
  -- Two factors below `2 ^ 31`.
  have productLow : 0 ≤ (max 1 baseSeconds).toInt64.toInt * factor.toInt :=
    Int.mul_nonneg (by omega) (by omega)
  have productHigh : (max 1 baseSeconds).toInt64.toInt * factor.toInt ≤ 2 ^ 31 * 2 ^ 30 :=
    Int.mul_le_mul (by omega) (by omega) (by omega) (by omega)
  obtain ⟨product, hproduct, productValue⟩ :=
    mul_in_range (max 1 baseSeconds).toInt64 factor (by omega) (by omega)
  have least := int64_toInt_min (max 1 maxSeconds).toInt64 product
  obtain ⟨delay, hdelay, delayValue⟩ :=
    narrow_in_range (min (max 1 maxSeconds).toInt64 product) (by omega) (by omega)
  refine ⟨delay, ?_, ?_⟩
  · simp only [retryDelay, hexponent, hfactor, hproduct, hdelay, Option.bind_eq_bind,
      Option.bind_some]
  · rw [delayValue, least, cap, productValue, base, factorValue, Runyard.retryDelay]

end Backoff

/-- Over all values of `int` the delay is computed without an overflow, lies between 1 and the
positive maximum, and grows with each argument. Up to the generation 31 it doubles. -/
theorem backoff_arithmetic :
    (∀ generation baseSeconds maxSeconds : Int32, ∃ delay,
      Backoff.retryDelay generation baseSeconds maxSeconds = some delay ∧
      1 ≤ delay ∧ delay ≤ max 1 maxSeconds ∧
      (1 ≤ generation → generation ≤ 31 → delay.toInt =
        min (max 1 maxSeconds.toInt)
          (max 1 baseSeconds.toInt * 2 ^ (generation.toInt - 1).toNat))) ∧
    ∀ generation generation' baseSeconds baseSeconds' maxSeconds maxSeconds' : Int32,
      generation ≤ generation' → baseSeconds ≤ baseSeconds' → maxSeconds ≤ maxSeconds' →
      ∃ delay delay', Backoff.retryDelay generation baseSeconds maxSeconds = some delay ∧
        Backoff.retryDelay generation' baseSeconds' maxSeconds' = some delay' ∧
        delay ≤ delay' := by
  constructor
  · intro generation baseSeconds maxSeconds
    obtain ⟨delay, computed, value⟩ :=
      Backoff.retryDelay_refines generation baseSeconds maxSeconds
    refine ⟨delay, computed, ?_, ?_, fun first last => ?_⟩
    · rw [Int32.le_iff_toInt_le, value]
      exact retryDelay_pos
    · rw [Int32.le_iff_toInt_le, value, int_toInt_max]
      exact retryDelay_le
    · rw [value]
      exact retryDelay_exact (Int32.le_iff_toInt_le.mp first) (Int32.le_iff_toInt_le.mp last)
  · intro generation generation' baseSeconds baseSeconds' maxSeconds maxSeconds' hgeneration
      hbase hmax
    obtain ⟨delay, computed, value⟩ :=
      Backoff.retryDelay_refines generation baseSeconds maxSeconds
    obtain ⟨delay', computed', value'⟩ :=
      Backoff.retryDelay_refines generation' baseSeconds' maxSeconds'
    refine ⟨delay, delay', computed, computed', ?_⟩
    rw [Int32.le_iff_toInt_le, value, value']
    exact retryDelay_mono (Int32.le_iff_toInt_le.mp hgeneration)
      (Int32.le_iff_toInt_le.mp hbase) (Int32.le_iff_toInt_le.mp hmax)

/-- The third generation, and one far beyond the clamp with the largest base and maximum. -/
theorem backoff_arithmetic_doubles :
    (∃ delay, Backoff.retryDelay 3 3 100 = some delay ∧ delay.toInt = 12) ∧
    ∃ delay delay', Backoff.retryDelay 3 3 100 = some delay ∧
      Backoff.retryDelay 100000 Int32.maxValue Int32.maxValue = some delay' ∧ delay ≤ delay' := by
  constructor
  · obtain ⟨delay, computed, _, _, doubled⟩ := backoff_arithmetic.1 3 3 100
    exact ⟨delay, computed, doubled (by decide) (by decide)⟩
  · exact backoff_arithmetic.2 3 100000 3 Int32.maxValue 100 Int32.maxValue (by decide) (by decide)
      (by decide)

end Runyard
