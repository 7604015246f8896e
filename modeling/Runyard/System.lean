import Mathlib.Logic.Basic

/-!
# Guarded transition systems and their runs

A system is an executable guarded step function: `step s e` is the next state when event `e`
is enabled in `s`. `Leads allowed s s'` says that a run leads from `s` to `s'` in which every
step meets `allowed`, a condition on the state before the step and on the event. An
invariant is proved for one step and holds along whole runs by `Leads.invariant`. A system
that contains another one as a component reaches only reachable states of it (`Embeds`).
-/

universe u v

structure System (σ : Type u) (ε : Type v) where
  init : σ
  step : σ → ε → Option σ

namespace System

variable {σ : Type u} {ε : Type v} (sys : System σ ε)

inductive Leads (allowed : σ → ε → Prop) (s : σ) : σ → Prop where
  | refl : Leads allowed s s
  | step {s' s'' : σ} {e : ε} : Leads allowed s s' → allowed s' e →
      sys.step s' e = some s'' → Leads allowed s s''

/-- Some run leads from `s` to `s'`. -/
def Later : σ → σ → Prop := sys.Leads fun _ _ => True

def Reachable (s : σ) : Prop := sys.Later sys.init s

/-- Replay a list of events; `none` when one of them is not enabled or not permitted. -/
def replay (permitted : σ → ε → Bool) (s : σ) : List ε → Option σ
  | [] => some s
  | e :: rest => if permitted s e then (sys.step s e).bind fun s' => replay permitted s' rest
      else none

variable {sys} {allowed wider : σ → ε → Prop} {s s' s'' : σ}

theorem Leads.trans (first : sys.Leads allowed s s') (second : sys.Leads allowed s' s'') :
    sys.Leads allowed s s'' := by
  induction second with
  | refl => exact first
  | step _ ok h ih => exact .step ih ok h

theorem Leads.mono (weaker : ∀ s e, allowed s e → wider s e) (run : sys.Leads allowed s s') :
    sys.Leads wider s s' := by
  induction run with
  | refl => exact .refl
  | step _ ok h ih => exact .step ih (weaker _ _ ok) h

theorem Leads.later (run : sys.Leads allowed s s') : sys.Later s s' :=
  run.mono fun _ _ _ => trivial

theorem Leads.single {e : ε} (ok : allowed s e) (h : sys.step s e = some s') :
    sys.Leads allowed s s' :=
  .step .refl ok h

theorem Reachable.later (hs : sys.Reachable s) (run : sys.Leads allowed s s') :
    sys.Reachable s' :=
  Leads.trans hs run.later

theorem Reachable.step {e : ε} (hs : sys.Reachable s) (h : sys.step s e = some s') :
    sys.Reachable s' :=
  Leads.step hs trivial h

theorem reachable_init : sys.Reachable sys.init := .refl

/-- What one permitted step preserves, a whole run preserves. -/
theorem Leads.invariant {P : σ → Prop} (run : sys.Leads allowed s s') (start : P s)
    (keeps : ∀ s e s', P s → allowed s e → sys.step s e = some s' → P s') : P s' := by
  induction run with
  | refl => exact start
  | step _ ok h ih => exact keeps _ _ _ ih ok h

theorem Reachable.invariant {P : σ → Prop} (hs : sys.Reachable s) (start : P sys.init)
    (keeps : ∀ s e s', P s → sys.step s e = some s' → P s') : P s :=
  Leads.invariant hs start fun _ _ _ hp _ h => keeps _ _ _ hp h

/-- What holds at the end of a run and not at its start became true in one of its steps. -/
theorem Leads.appears {P : σ → Prop} (run : sys.Leads allowed s s') (start : ¬ P s) (stop : P s') :
    ∃ u e v, sys.Leads allowed s u ∧ allowed u e ∧ sys.step u e = some v ∧
      sys.Leads allowed v s' ∧ ¬ P u ∧ P v := by
  induction run with
  | refl => exact absurd stop start
  | @step u v e before ok h ih =>
    by_cases already : P u
    · obtain ⟨u₁, e₁, v₁, first, ok₁, h₁, rest, absent, present⟩ := ih already
      exact ⟨u₁, e₁, v₁, first, ok₁, h₁, .step rest ok h, absent, present⟩
    · exact ⟨u, e, v, before, ok, h, .refl, already, stop⟩

/-- Along a run from a reachable state, every step may use that its state is reachable. -/
theorem Leads.stable {P : σ → Prop} (hs : sys.Reachable s) (run : sys.Leads allowed s s')
    (start : P s)
    (keeps : ∀ s e s', sys.Reachable s → P s → allowed s e → sys.step s e = some s' → P s') :
    P s' := by
  induction run with
  | refl => exact start
  | step before ok h ih => exact keeps _ _ _ (hs.later before) ih ok h

/-- A preorder that contains every step contains every run. -/
theorem Leads.relation {R : σ → σ → Prop} (hs : sys.Reachable s) (run : sys.Leads allowed s s')
    (refl : ∀ s, R s s) (trans : ∀ a b c, R a b → R b c → R a c)
    (steps : ∀ s e s', sys.Reachable s → allowed s e → sys.step s e = some s' → R s s') :
    R s s' := by
  induction run with
  | refl => exact refl s
  | step before ok h ih => exact trans _ _ _ ih (steps _ _ _ (hs.later before) ok h)

/-- The component `view` of a system moves by steps of `base` only. -/
structure Embeds {τ : Type u} {δ : Type v} (sys : System σ ε) (base : System τ δ)
    (view : σ → τ) : Prop where
  init : view sys.init = base.init
  step : ∀ s e s', sys.Reachable s → sys.step s e = some s' →
    view s' = view s ∨ ∃ d, base.step (view s) d = some (view s')

section Embedding

variable {τ : Type u} {δ : Type v} {base : System τ δ} {view : σ → τ}

theorem Embeds.later (embeds : sys.Embeds base view) (hs : sys.Reachable s)
    (run : sys.Leads allowed s s') : base.Later (view s) (view s') := by
  refine run.relation hs (R := fun s s' => base.Later (view s) (view s')) ?_ ?_ ?_
  · exact fun _ => .refl
  · exact fun _ _ _ first second => first.trans second
  · intro s e s' hs _ h
    rcases embeds.step s e s' hs h with hsame | ⟨d, hd⟩
    · rw [hsame]
      exact .refl
    · exact .single trivial hd

theorem Embeds.reachable (embeds : sys.Embeds base view) (hs : sys.Reachable s) :
    base.Reachable (view s) := by
  have later := embeds.later reachable_init hs
  rw [embeds.init] at later
  exact later

end Embedding

theorem replay_append {permitted : σ → ε → Bool} {events more : List ε} :
    sys.replay permitted s (events ++ more) =
      (sys.replay permitted s events).bind fun s' => sys.replay permitted s' more := by
  induction events generalizing s with
  | nil => rfl
  | cons e rest ih =>
    rw [List.cons_append, replay, replay]
    split
    · rw [Option.bind_assoc]
      exact Option.bind_congr fun s' _ => ih
    · rfl

theorem replay_leads {permitted : σ → ε → Bool} {events : List ε}
    (h : sys.replay permitted s events = some s') :
    sys.Leads (fun s e => permitted s e) s s' := by
  induction events generalizing s with
  | nil => cases h; exact .refl
  | cons e rest ih =>
    rw [replay] at h
    by_cases ok : permitted s e
    · rw [if_pos ok] at h
      obtain ⟨next, hstep, hrest⟩ := Option.bind_eq_some_iff.mp h
      have first : sys.Leads (fun s e => permitted s e) s next := .single ok hstep
      exact first.trans (ih hrest)
    · rw [if_neg ok] at h
      cases h

theorem replay_reachable {permitted : σ → ε → Bool} {events : List ε}
    (h : sys.replay permitted sys.init events = some s) : sys.Reachable s :=
  (replay_leads h).later

end System
