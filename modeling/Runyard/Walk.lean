import Mathlib.Data.Set.Finite.Basic
import Mathlib.Data.Finite.Defs

/-!
# Walks along successors

A walk asks for the successor of what it has reached, until there is none. The answers may change
from one question to the next. Where they do not, a walk that comes back never ends.
-/

universe u

namespace Walk

variable {α : Type u}

/-- Where a walk is after some steps, `none` when it has ended. -/
def after (next : Nat → α → Option α) (start : α) : Nat → Option α
  | 0 => some start
  | n + 1 => (after next start n).bind (next n)

def Ends (next : Nat → α → Option α) (start : α) : Prop := ∃ n, after next start n = none

section Walks

variable {next : Nat → α → Option α} {start a b : α} {i j n : Nat}

/-- The first step, and the walk from there. -/
theorem after_succ (n : Nat) : after next start (n + 1) =
    (next 0 start).bind fun b => after (fun k => next (k + 1)) b n := by
  induction n with
  | zero =>
    change (next 0 start) = _
    cases next 0 start <;> rfl
  | succ n ih =>
    rw [after, ih, Option.bind_assoc]
    rfl

theorem after_none (h : after next start i = none) (le : i ≤ j) : after next start j = none := by
  induction le with
  | refl => exact h
  | step _ ih => rw [after, ih, Option.bind_none]

end Walks

section Steady

variable {next : α → Option α} {start a : α} {i j : Nat}

theorem after_add (n : Nat) (h : after (fun _ => next) start i = some a) :
    after (fun _ => next) start (i + n) = after (fun _ => next) a n := by
  induction n with
  | zero => exact h
  | succ n ih => rw [← Nat.add_assoc, after, ih, after]

/-- A steady walk that is twice at one place comes there again and again. -/
theorem after_returns (h : after (fun _ => next) start i = some a)
    (again : after (fun _ => next) start j = some a) (lt : i < j) (n : Nat) :
    after (fun _ => next) start (i + n * (j - i)) = some a := by
  induction n with
  | zero => simpa using h
  | succ n ih =>
    have round : after (fun _ => next) a (j - i) = some a := by
      rw [← after_add (j - i) h, Nat.add_sub_of_le (Nat.le_of_lt lt)]
      exact again
    rw [Nat.succ_mul, ← Nat.add_assoc, after_add _ ih, round]

theorem not_ends_of_returns (h : after (fun _ => next) start i = some a)
    (again : after (fun _ => next) start j = some a) (lt : i < j) :
    ¬Ends (fun _ => next) start := by
  rintro ⟨n, ended⟩
  have late : n ≤ i + n * (j - i) := by
    have grows := Nat.le_mul_of_pos_right n (Nat.sub_pos_of_lt lt)
    omega
  have gone := after_none ended late
  rw [after_returns h again lt n] at gone
  cases gone

/-- A steady walk through finitely many places ends if it never comes back. -/
theorem ends_iff (finite : {a | ∃ n, after (fun _ => next) start n = some a}.Finite) :
    Ends (fun _ => next) start ↔ ∀ i j a, i < j → after (fun _ => next) start i = some a →
      after (fun _ => next) start j ≠ some a := by
  constructor
  · intro ends i j a lt h again
    exact not_ends_of_returns h again lt ends
  · intro apart
    by_contra goes
    have places (n : Nat) : ∃ a, after (fun _ => next) start n = some a :=
      Option.ne_none_iff_exists'.mp fun ended => goes ⟨n, ended⟩
    choose place at_place using places
    have injective : Function.Injective place := by
      intro i j same
      rcases Nat.lt_trichotomy i j with lt | rfl | lt
      · exact absurd (same ▸ at_place j) (apart i j (place i) lt (at_place i))
      · rfl
      · exact absurd (same ▸ at_place i) (apart j i (place j) lt (at_place j))
    refine Set.infinite_range_of_injective injective (finite.subset ?_)
    rintro _ ⟨n, rfl⟩
    exact ⟨n, at_place n⟩

end Steady

end Walk
