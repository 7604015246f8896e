import Mathlib.Algebra.Order.Ring.Nat
import Mathlib.Algebra.Order.Ring.Int
import Mathlib.Data.Nat.Log

/-!
# Decimal numbers

A nonnegative number `coefficient * 10 ^ exponent`. The normal form has no zero at the end of its
coefficient, so every number has one; `normalize` computes it.
-/

structure Decimal where
  coefficient : Nat
  exponent : Int
  deriving DecidableEq, Repr

namespace Decimal

def zero : Decimal := ⟨0, 0⟩

def Normal (d : Decimal) : Prop := d.coefficient % 10 ≠ 0 ∨ d = zero

/-- Move up to `fuel` zeros from the coefficient to the exponent. -/
def strip : Nat → Nat → Int → Decimal
  | 0, c, e => ⟨c, e⟩
  | fuel + 1, c, e => if c % 10 = 0 then strip fuel (c / 10) (e + 1) else ⟨c, e⟩

/-- A number has fewer zeros at its end than bits. -/
def normalize (c : Nat) (e : Int) : Decimal := if c = 0 then zero else strip c.log2 c e

/-- The number of digits of the coefficient. -/
def digits (d : Decimal) : Nat := (Nat.toDigits 10 d.coefficient).length

theorem digits_pos (d : Decimal) : 0 < d.digits := Nat.length_toDigits_pos

theorem Normal.coefficient_ne_zero {d : Decimal} (h : d.Normal) (hzero : d ≠ zero) :
    d.coefficient % 10 ≠ 0 :=
  h.resolve_right hzero

theorem Normal.eq_zero {d : Decimal} (h : d.Normal) (hzero : d.coefficient = 0) : d = zero :=
  h.resolve_left fun hdigit => hdigit (by rw [hzero])

theorem strip_shift {fuel c places : Nat} {e : Int} (hfuel : places ≤ fuel) (hc : c % 10 ≠ 0) :
    strip fuel (c * 10 ^ places) (e - places) = ⟨c, e⟩ := by
  induction places generalizing fuel with
  | zero =>
    rw [pow_zero, Nat.mul_one, Int.natCast_zero, Int.sub_zero]
    cases fuel with
    | zero => rfl
    | succ fuel => rw [strip, if_neg hc]
  | succ places ih =>
    cases fuel with
    | zero => omega
    | succ fuel =>
      have hzeros : c * 10 ^ (places + 1) = c * 10 ^ places * 10 := by
        rw [Nat.pow_succ, Nat.mul_assoc]
      have hexponent : e - (places + 1 : Nat) + 1 = e - places := by omega
      rw [strip, hzeros, if_pos (Nat.mul_mod_left _ _), Nat.mul_div_cancel _ (by decide), hexponent]
      exact ih (by omega)

/-- A normal decimal is found again however many zeros are written. -/
theorem Normal.normalize_shift {d : Decimal} (h : d.Normal) (places : Nat) :
    normalize (d.coefficient * 10 ^ places) (d.exponent - places) = d := by
  by_cases hzero : d.coefficient = 0
  · rw [hzero, Nat.zero_mul, normalize, if_pos rfl, h.eq_zero hzero]
  · have hdigit : d.coefficient % 10 ≠ 0 := by
      refine h.coefficient_ne_zero ?_
      rintro rfl
      exact hzero rfl
    have hpositive : d.coefficient * 10 ^ places ≠ 0 :=
      Nat.mul_ne_zero hzero (Nat.pow_pos (by decide)).ne'
    have hfuel : places ≤ (d.coefficient * 10 ^ places).log2 := by
      rw [Nat.le_log2 hpositive]
      calc 2 ^ places ≤ 10 ^ places := Nat.pow_le_pow_left (by decide) places
        _ ≤ d.coefficient * 10 ^ places := Nat.le_mul_of_pos_left _ (Nat.pos_of_ne_zero hzero)
    rw [normalize, if_neg hpositive, strip_shift hfuel hdigit]

theorem strip_spec (fuel c : Nat) (e : Int) :
    ∃ places : Nat, c = (strip fuel c e).coefficient * 10 ^ places ∧
      (strip fuel c e).exponent = e + places := by
  induction fuel generalizing c e with
  | zero => exact ⟨0, by rw [pow_zero, Nat.mul_one]; rfl, by simp [strip]⟩
  | succ fuel ih =>
    rw [strip]
    split
    · next hzero =>
      obtain ⟨places, hcoefficient, hexponent⟩ := ih (c / 10) (e + 1)
      refine ⟨places + 1, ?_, by rw [hexponent]; omega⟩
      rw [Nat.pow_succ, ← Nat.mul_assoc, ← hcoefficient]
      omega
    · exact ⟨0, by rw [pow_zero, Nat.mul_one], by simp⟩

theorem strip_normal {fuel c : Nat} (e : Int) (hc : c ≠ 0) (hfuel : c < 2 ^ (fuel + 1)) :
    (strip fuel c e).coefficient % 10 ≠ 0 := by
  induction fuel generalizing c e with
  | zero =>
    rw [strip]
    dsimp only
    omega
  | succ fuel ih =>
    rw [strip]
    split
    · next hzero =>
      refine ih (e + 1) (by omega) ?_
      rw [Nat.pow_succ] at hfuel
      omega
    · next hdigit => exact hdigit

/-- Normalization keeps the number. -/
theorem normalize_spec {c : Nat} (hc : c ≠ 0) (e : Int) :
    ∃ places : Nat, c = (normalize c e).coefficient * 10 ^ places ∧
      (normalize c e).exponent = e + places := by
  rw [normalize, if_neg hc]
  exact strip_spec c.log2 c e

theorem normalize_eq_zero_iff (c : Nat) (e : Int) : normalize c e = zero ↔ c = 0 := by
  refine ⟨fun h => ?_, fun h => by rw [normalize, if_pos h]⟩
  by_contra hc
  obtain ⟨places, hcoefficient, _⟩ := normalize_spec hc e
  rw [h] at hcoefficient
  exact hc (hcoefficient.trans (Nat.zero_mul _))

theorem normalize_normal (c : Nat) (e : Int) : (normalize c e).Normal := by
  rw [normalize]
  split
  · exact .inr rfl
  · next hc => exact .inl (strip_normal e hc Nat.lt_log2_self)

theorem Normal.normalize_self {d : Decimal} (h : d.Normal) :
    normalize d.coefficient d.exponent = d := by
  have hshift := h.normalize_shift 0
  rwa [pow_zero, Nat.mul_one, Int.natCast_zero, Int.sub_zero] at hshift

end Decimal
