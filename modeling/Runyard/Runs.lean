import Mathlib.Data.Nat.Find
import Runyard.System

/-!
# Infinite runs

A run of a system that goes on forever, possibly with steps in which nothing happens. What stays
in force until an event meets the event when it comes.
-/

universe u v

structure System.Run {σ : Type u} {ε : Type v} (sys : System σ ε) where
  state : Nat → σ
  act : Nat → Option ε
  start : state 0 = sys.init
  pauses : ∀ n, act n = none → state (n + 1) = state n
  moves : ∀ n e, act n = some e → sys.step (state n) e = some (state (n + 1))

/-- The state after the first `n` events of a list. -/
def System.after {σ : Type u} {ε : Type v} (sys : System σ ε) (events : List ε) (n : Nat) : σ :=
  (events.take n).foldl (fun s e => (sys.step s e).getD s) sys.init

theorem System.after_end {σ : Type u} {ε : Type v} (sys : System σ ε) {events : List ε} {n : Nat}
    (h : events.length ≤ n) : sys.after events n = sys.after events events.length := by
  rw [System.after, System.after, List.take_of_length_le h, List.take_length]

namespace System.Run

variable {σ : Type u} {ε : Type v} {sys : System σ ε} (run : sys.Run) {n m : Nat}

theorem later (le : n ≤ m) : sys.Later (run.state n) (run.state m) := by
  induction le with
  | refl => exact .refl
  | @step m _ ih =>
    cases hact : run.act m with
    | none =>
      rw [run.pauses m hact]
      exact ih
    | some e => exact ih.step trivial (run.moves m e hact)

theorem reachable (n : Nat) : sys.Reachable (run.state n) := by
  have later := run.later (Nat.zero_le n)
  rw [run.start] at later
  exact later

/-- The events of a list, all of them enabled, and then nothing. -/
def ofList (events : List ε)
    (enabled : ∀ n (h : n < events.length), (sys.step (sys.after events n) events[n]).isSome) :
    sys.Run where
  state := sys.after events
  act n := events[n]?
  start := rfl
  pauses n stop := by
    rw [System.after, System.after, List.take_add_one, stop]
    simp
  moves n e act := by
    obtain ⟨h, rfl⟩ := List.getElem?_eq_some_iff.mp act
    obtain ⟨s, hs⟩ := Option.isSome_iff_exists.mp (enabled n h)
    rw [hs, System.after, List.take_add_one, act, List.foldl_append]
    change some s = some ((sys.step (sys.after events n) events[n]).getD (sys.after events n))
    rw [hs, Option.getD_some]

variable {run}

/-- What every step keeps that is not due holds when something is due for the first time. -/
theorem meets (P : σ → Prop) (due : ε → Prop) (holds : P (run.state n))
    (keeps : ∀ s e s', sys.Reachable s → P s → ¬due e → sys.step s e = some s' → P s')
    (comes : ∃ m, n ≤ m ∧ ∃ e, run.act m = some e ∧ due e) :
    ∃ m, n ≤ m ∧ ∃ e, run.act m = some e ∧ due e ∧ P (run.state m) := by
  classical
  obtain ⟨le, e, hact, hdue⟩ := Nat.find_spec comes
  refine ⟨Nat.find comes, le, e, hact, hdue, ?_⟩
  have before (k : Nat) (hk : n + k ≤ Nat.find comes) : P (run.state (n + k)) := by
    induction k with
    | zero => exact holds
    | succ k ih =>
      have here := ih (by omega)
      cases hact : run.act (n + k) with
      | none =>
        rw [← Nat.add_assoc, run.pauses (n + k) hact]
        exact here
      | some e =>
        refine keeps _ e _ (run.reachable (n + k)) here (fun hdue => ?_)
          (run.moves (n + k) e hact)
        exact Nat.find_min comes (by omega) ⟨by omega, e, hact, hdue⟩
  have there := before (Nat.find comes - n) (by omega)
  rwa [Nat.add_sub_of_le le] at there

/-- A sequence that grows and is bounded ends up constant. -/
theorem settles_of_bounded {f : Nat → Int} (grows : ∀ {n m}, n ≤ m → f n ≤ f m) {bound : Int}
    (bounded : ∀ n, f n ≤ bound) : ∃ n, ∀ m, n ≤ m → f m = f n := by
  have settles : ∀ (room n : Nat), bound - f n ≤ room → ∃ n, ∀ m, n ≤ m → f m = f n := by
    intro room
    induction room with
    | zero =>
      intro n full
      refine ⟨n, fun m le => ?_⟩
      have up := grows le
      have top := bounded m
      omega
    | succ room ih =>
      intro n enough
      by_cases settled : ∀ m, n ≤ m → f m = f n
      · exact ⟨n, settled⟩
      · obtain ⟨m, le, moved⟩ : ∃ m, n ≤ m ∧ f m ≠ f n := by simpa using settled
        have up := grows le
        exact ih m (by omega)
  exact settles (bound - f 0).toNat 0 (by omega)

end System.Run
