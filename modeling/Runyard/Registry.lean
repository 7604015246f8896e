import Mathlib.Data.List.Count
import Mathlib.Logic.Function.Basic

/-!
# Registries of request keys

The first request that is accepted under a key binds the key to its fingerprint and its answer.
A later request with the key gets that answer when its fingerprint is the same, and a conflict
when it is not. `Step` is what one request may do, and `Log` relates the requests of a whole run,
in order, to the bindings that they leave.
-/

universe u v w

namespace Registry

variable {κ : Type u} {φ : Type v} {ρ : Type w}

inductive Outcome (ρ : Type w) where
  | accepted (answer : ρ)
  | conflict
  | failed

/-- One request; `valid` says that it passes the checks that do not look at the bindings, and
`wrote` that it changed what is stored. -/
structure Entry (κ : Type u) (φ : Type v) (ρ : Type w) where
  key : κ
  fingerprint : φ
  valid : Prop
  outcome : Outcome ρ
  wrote : Bool

abbrev Bindings (κ : Type u) (φ : Type v) (ρ : Type w) := κ → Option (φ × ρ)

variable [DecidableEq κ]

inductive Step (bindings : Bindings κ φ ρ) (e : Entry κ φ ρ) : Bindings κ φ ρ → Prop where
  | created {answer : ρ} (free : bindings e.key = none) (accepted : e.outcome = .accepted answer)
      (wrote : e.wrote) :
      Step bindings e (Function.update bindings e.key (some (e.fingerprint, answer)))
  | replayed {answer : ρ} (bound : bindings e.key = some (e.fingerprint, answer))
      (accepted : e.outcome = .accepted answer) (silent : ¬ e.wrote) : Step bindings e bindings
  | refused (unanswered : ∀ answer, e.outcome ≠ .accepted answer) (silent : ¬ e.wrote)
      (cause : e.valid → ∀ first answer, bindings e.key = some (first, answer) →
        first ≠ e.fingerprint ∧ e.outcome = .conflict) : Step bindings e bindings

inductive Log : List (Entry κ φ ρ) → Bindings κ φ ρ → Prop where
  | nil : Log [] fun _ => none
  | snoc {log : List (Entry κ φ ρ)} {bindings bindings' : Bindings κ φ ρ} {e : Entry κ φ ρ}
      (before : Log log bindings) (step : Step bindings e bindings') : Log (log ++ [e]) bindings'

variable {log : List (Entry κ φ ρ)} {bindings : Bindings κ φ ρ}

/-- A binding holds the fingerprint and the answer of every accepted request with its key. -/
theorem Log.bound (run : Log log bindings) {e : Entry κ φ ρ} (he : e ∈ log) {answer : ρ}
    (accepted : e.outcome = .accepted answer) : bindings e.key = some (e.fingerprint, answer) := by
  induction run with
  | nil => cases he
  | @snoc log bindings _ new _ step ih =>
    rcases List.mem_append.mp he with he | he
    · have held := ih he
      cases step with
      | created free _ _ =>
        have hother : e.key ≠ new.key := by
          intro hkey
          rw [hkey, free] at held
          cases held
        rwa [Function.update_of_ne hother]
      | replayed => exact held
      | refused => exact held
    · rw [List.mem_singleton.mp he] at accepted ⊢
      cases step with
      | created _ accepted' _ =>
        cases accepted'.symm.trans accepted
        rw [Function.update_self]
      | replayed bound accepted' _ =>
        cases accepted'.symm.trans accepted
        exact bound
      | refused unanswered _ _ => exact (unanswered answer accepted).elim

/-- Accepted requests with one key have one answer. -/
theorem Log.agree (run : Log log bindings) {e e' : Entry κ φ ρ} (he : e ∈ log) (he' : e' ∈ log)
    (same : e.key = e'.key) {answer answer' : ρ} (accepted : e.outcome = .accepted answer)
    (accepted' : e'.outcome = .accepted answer') : answer = answer' := by
  have bound := run.bound he accepted
  rw [same, run.bound he' accepted'] at bound
  exact (congrArg Prod.snd (Option.some.inj bound)).symm

/-- Under one key one request wrote, if any was accepted, and none otherwise. -/
theorem Log.count_wrote (run : Log log bindings) (key : κ) :
    log.countP (fun e => e.key = key && e.wrote) = if (bindings key).isSome then 1 else 0 := by
  induction run with
  | nil => rfl
  | @snoc log bindings _ new _ step ih =>
    rw [List.countP_append, List.countP_singleton, ih]
    cases step with
    | created free _ wrote =>
      by_cases hkey : new.key = key
      · subst hkey
        simp [free, wrote]
      · simp [hkey, Function.update_of_ne (Ne.symm hkey)]
    | replayed _ _ silent => simp [silent]
    | refused _ silent _ => simp [silent]

/-- What a request gets after another one with its key was accepted. -/
theorem Log.later (run : Log log bindings) :
    log.Pairwise fun e e' => e.key = e'.key → ∀ answer, e.outcome = .accepted answer →
      ¬ e'.wrote ∧ (e'.valid →
        (e.fingerprint = e'.fingerprint → e'.outcome = .accepted answer) ∧
        (e.fingerprint ≠ e'.fingerprint → e'.outcome = .conflict)) := by
  induction run with
  | nil => exact .nil
  | @snoc log bindings _ new before step ih =>
    refine List.pairwise_append.mpr ⟨ih, List.pairwise_singleton _ _, fun e he e' he' => ?_⟩
    rw [List.mem_singleton.mp he']
    intro same answer accepted
    have bound := before.bound he accepted
    rw [same] at bound
    cases step with
    | created free _ _ =>
      rw [free] at bound
      cases bound
    | replayed bound' accepted' silent =>
      obtain ⟨hprint, hanswer⟩ := Prod.mk.inj (Option.some.inj (bound'.symm.trans bound))
      exact ⟨silent, fun _ => ⟨fun _ => hanswer ▸ accepted', fun hne => (hne hprint.symm).elim⟩⟩
    | refused _ silent cause =>
      refine ⟨silent, fun valid => ?_⟩
      obtain ⟨hne, conflict⟩ := cause valid _ _ bound
      exact ⟨fun hsame => (hne hsame).elim, fun _ => conflict⟩

/-- A request that was not accepted wrote nothing. -/
theorem Log.silent (run : Log log bindings) {e : Entry κ φ ρ} (he : e ∈ log)
    (unanswered : ∀ answer, e.outcome ≠ .accepted answer) : ¬ e.wrote := by
  induction run with
  | nil => cases he
  | snoc _ step ih =>
    rcases List.mem_append.mp he with he | he
    · exact ih he
    · rw [List.mem_singleton.mp he] at unanswered ⊢
      cases step with
      | created _ accepted _ => exact (unanswered _ accepted).elim
      | replayed _ _ silent => exact silent
      | refused _ silent _ => exact silent

end Registry
