import Runyard.System
import Mathlib.Logic.Function.Basic

/-!
# Programs that call a shared service

A `Remote` program sends requests and waits for each answer. Several callers run such programs
against one service in any interleaving; an answer may be lost with or without the effect of its
request. `Safe` says what a program promises while the others interfere: a `Contract` names what a
caller relies on and what its own requests guarantee. A safe program is safe in every run.
-/

inductive Remote (ρ σ ε α : Type) where
  | done (result : Except ε α)
  | call (request : ρ) (next : σ → Remote ρ σ ε α)

namespace Remote

variable {ρ σ ε α β : Type}

def bind : Remote ρ σ ε α → (α → Remote ρ σ ε β) → Remote ρ σ ε β
  | .done (.ok a), f => f a
  | .done (.error e), _ => .done (.error e)
  | .call r next, f => .call r fun x => (next x).bind f

/-- Run `f` on the error that the program ends with. -/
def rescue : Remote ρ σ ε α → (ε → Remote ρ σ ε α) → Remote ρ σ ε α
  | .done (.ok a), _ => .done (.ok a)
  | .done (.error e), f => f e
  | .call r next, f => .call r fun x => (next x).rescue f

instance : Monad (Remote ρ σ ε) where
  pure a := .done (.ok a)
  bind := bind

instance : MonadLift (Except ε) (Remote ρ σ ε) := ⟨.done⟩

/-- Send a request and return its answer. -/
def request (r : ρ) : Remote ρ σ ε σ := .call r fun x => .done (.ok x)

/-- The request that the program waits for. -/
def pending : Remote ρ σ ε α → Option ρ
  | .done _ => none
  | .call r _ => some r

@[simp] theorem request_bind (r : ρ) (f : σ → Remote ρ σ ε β) :
    (request r : Remote ρ σ ε σ) >>= f = .call r f := rfl

@[simp] theorem call_bind (r : ρ) (next : σ → Remote ρ σ ε α) (f : α → Remote ρ σ ε β) :
    Remote.call r next >>= f = .call r fun x => next x >>= f := rfl

@[simp] theorem ok_bind (a : α) (f : α → Remote ρ σ ε β) :
    (Remote.done (.ok a) : Remote ρ σ ε α) >>= f = f a := rfl

@[simp] theorem error_bind (e : ε) (f : α → Remote ρ σ ε β) :
    (Remote.done (.error e) : Remote ρ σ ε α) >>= f = .done (.error e) := rfl

end Remote

/-- A service with states `S`. What it is free to choose when it handles a request comes as a
value of `κ`; `drift` is what it does on its own. -/
structure Service (S ρ σ κ δ : Type) where
  handle : κ → S → ρ → σ × S
  /-- The answers that may stand for the one that is lost. -/
  fails : ρ → σ → Bool
  drift : δ → S → Option S

namespace Service

variable {S ρ σ κ δ ε α ι : Type} (service : Service S ρ σ κ δ)

def effect (r : ρ) (s : S) : Option κ → S
  | none => s
  | some k => (service.handle k s r).2

/-- The service, the program that each caller still has to run, and what calls have returned. -/
structure State (S ρ σ ε α ι : Type) where
  service : S
  callers : ι → Option (Remote ρ σ ε α)
  returned : List α

inductive Act (σ κ δ ι : Type) where
  | begin (i : ι)
  | answer (i : ι) (choice : κ)
  /-- A failure arrives in the place of the answer. -/
  | fail (i : ι) (effect : Option κ) (answer : σ)
  /-- No answer arrives, and the call ends with an exception. -/
  | lose (i : ι) (effect : Option κ)
  | finish (i : ι)
  | drift (d : δ)

variable [DecidableEq ι] (program : Remote ρ σ ε α)

def step (s : State S ρ σ ε α ι) : Act σ κ δ ι → Option (State S ρ σ ε α ι)
  | .begin i =>
    match s.callers i with
    | none => some { s with callers := Function.update s.callers i (some program) }
    | some _ => none
  | .answer i k =>
    match s.callers i with
    | some (.call r next) =>
      let (x, t) := service.handle k s.service r
      some { s with service := t, callers := Function.update s.callers i (some (next x)) }
    | _ => none
  | .fail i k x =>
    match s.callers i with
    | some (.call r next) =>
      if service.fails r x then
        some { s with
          service := service.effect r s.service k
          callers := Function.update s.callers i (some (next x)) }
      else none
    | _ => none
  | .lose i k =>
    match s.callers i with
    | some (.call r _) =>
      some { s with
        service := service.effect r s.service k
        callers := Function.update s.callers i none }
    | _ => none
  | .finish i =>
    match s.callers i with
    | some (.done (.ok a)) =>
      some { s with callers := Function.update s.callers i none, returned := a :: s.returned }
    | some (.done (.error _)) => some { s with callers := Function.update s.callers i none }
    | _ => none
  | .drift d => (service.drift d s.service).map fun t => { s with service := t }

/-- The callers of a service that begins in the state `s`. -/
def system (s : S) : System (State S ρ σ ε α ι) (Act σ κ δ ι) where
  init := ⟨s, fun _ => none, []⟩
  step := service.step program

section Steps

variable {service program} {start : S} {s : State S ρ σ ε α ι} {i : ι} {r : ρ}
  {next : σ → Remote ρ σ ε α}

theorem step_begin (idle : s.callers i = none) :
    (service.system program start).step s (.begin i) =
      some { s with callers := Function.update s.callers i (some program) } := by
  simp only [system, step, idle]

theorem step_answer (waits : s.callers i = some (.call r next)) (k : κ) :
    (service.system program start).step s (.answer i k) = some { s with
      service := (service.handle k s.service r).2
      callers := Function.update s.callers i (some (next (service.handle k s.service r).1)) } := by
  simp only [system, step, waits]

theorem step_lose (waits : s.callers i = some (.call r next)) (k : Option κ) :
    (service.system program start).step s (.lose i k) = some { s with
      service := service.effect r s.service k
      callers := Function.update s.callers i none } := by
  simp only [system, step, waits]

theorem step_finish {a : α} (ended : s.callers i = some (.done (.ok a))) :
    (service.system program start).step s (.finish i) = some { s with
      callers := Function.update s.callers i none
      returned := a :: s.returned } := by
  simp only [system, step, ended]

/-- From `s` to `t` nothing has moved but the caller `i`, which has the program `p` to run. -/
structure Onward (i : ι) (p : Remote ρ σ ε α) (s t : State S ρ σ ε α ι) : Prop where
  service : t.service = s.service
  returned : t.returned = s.returned
  caller : t.callers i = some p
  others : ∀ j, j ≠ i → t.callers j = s.callers j

variable (service program start) in
theorem onward_begin (idle : s.callers i = none) :
    ∃ t, (service.system program start).step s (.begin i) = some t ∧ Onward i program s t :=
  ⟨_, step_begin idle, rfl, rfl, Function.update_self .., fun _ other =>
    Function.update_of_ne other ..⟩

variable (program start) in
/-- The answer to a request without an effect. -/
theorem Onward.query {t : State S ρ σ ε α ι} {k : κ} {x : σ}
    (onward : Onward i (.call r next) s t)
    (answer : service.handle k s.service r = (x, s.service)) :
    ∃ u, (service.system program start).step t (.answer i k) = some u ∧
      Onward i (next x) s u := by
  rw [← onward.service] at answer
  refine ⟨_, step_answer onward.caller k, ?_, onward.returned, ?_, fun j other => ?_⟩
  · rw [answer]
    exact onward.service
  · rw [answer]
    exact Function.update_self ..
  · exact (Function.update_of_ne other ..).trans (onward.others j other)

end Steps

end Service

/-- What a caller relies on while a request is pending, and what its requests guarantee. The
guarantee of each is enough for what the others rely on. -/
structure Contract (S ρ : Type) where
  rely : Option ρ → S → S → Prop
  guarantee : S → S → Prop
  refl : ∀ r s, rely r s s
  trans : ∀ r s t u, rely r s t → rely r t u → rely r s u
  still : ∀ s, guarantee s s
  covers : ∀ r s t, guarantee s t → rely r s t

namespace Service

variable {S ρ σ κ δ ε α β ι : Type} (service : Service S ρ σ κ δ) (contract : Contract S ρ)

/-- From the state `s` on, under interference, the requests keep the guarantee and the result
meets `post`. -/
def Safe (post : S → α → Prop) : Remote ρ σ ε α → S → Prop
  | .done (.ok a), s => ∀ t, contract.rely none s t → post t a
  | .done (.error _), _ => True
  | .call r next, s => ∀ t, contract.rely (some r) s t →
    (∀ k, contract.guarantee t (service.handle k t r).2 ∧
      Safe post (next (service.handle k t r).1) (service.handle k t r).2) ∧
    ∀ k x, service.fails r x → Safe post (next x) (service.effect r t k)

variable {service contract} {post : S → α → Prop} {p : Remote ρ σ ε α} {s t : S}

theorem Safe.stable (h : service.Safe contract post p s)
    (moved : contract.rely p.pending s t) : service.Safe contract post p t := by
  match p with
  | .done (.ok a) => exact fun u later => h u (contract.trans _ _ _ _ moved later)
  | .done (.error e) => trivial
  | .call r next => exact fun u later => h u (contract.trans _ _ _ _ moved later)

theorem Safe.bind {mid : S → α → Prop} {post : S → β → Prop} {f : α → Remote ρ σ ε β}
    (h : service.Safe contract mid p s)
    (rest : ∀ a t, mid t a → service.Safe contract post (f a) t) :
    service.Safe contract post (p >>= f) s := by
  induction p generalizing s with
  | done result =>
    cases result with
    | ok a => exact rest a s (h s (contract.refl _ s))
    | error e => trivial
  | call r next ih =>
    intro t moved
    obtain ⟨answered, failed⟩ := h t moved
    constructor
    · intro k
      exact ⟨(answered k).1, ih _ (answered k).2⟩
    · intro k x hx
      exact ih _ (failed k x hx)

theorem Safe.weaken {post' : S → α → Prop} (h : service.Safe contract post p s)
    (weaker : ∀ t a, post t a → post' t a) : service.Safe contract post' p s := by
  induction p generalizing s with
  | done result =>
    cases result with
    | ok a => exact fun t later => weaker t a (h t later)
    | error e => trivial
  | call r next ih =>
    intro t moved
    obtain ⟨answered, failed⟩ := h t moved
    constructor
    · intro k
      exact ⟨(answered k).1, ih _ (answered k).2⟩
    · intro k x hx
      exact ih _ (failed k x hx)

/-- What every caller may rely on, an effect without an answer keeps. -/
theorem Safe.kept {fact : S → Prop} {r : ρ} {next : σ → Remote ρ σ ε α}
    (h : service.Safe contract post (.call r next) s) (start : fact s)
    (keeps : ∀ r s t, contract.rely r s t → fact s → fact t) (k : Option κ) :
    fact (service.effect r s k) := by
  cases k with
  | none => exact start
  | some k =>
    have guaranteed := ((h s (contract.refl _ s)).1 k).1
    exact keeps _ _ _ (contract.covers none _ _ guaranteed) start

/-- What holds from the first state on still holds with the result. -/
theorem Safe.frame (h : service.Safe contract post p s) (fact : S → Prop) (start : fact s)
    (keeps : ∀ r s t, contract.rely r s t → fact s → fact t) :
    service.Safe contract (fun s a => fact s ∧ post s a) p s := by
  induction p generalizing s with
  | done result =>
    cases result with
    | ok a => exact fun t later => ⟨keeps _ _ _ later start, h t later⟩
    | error e => trivial
  | call r next ih =>
    intro t moved
    obtain ⟨answered, failed⟩ := h t moved
    have there := (h.stable moved).kept (keeps _ _ _ moved start) keeps
    constructor
    · intro k
      exact ⟨(answered k).1, ih _ (answered k).2 (there (some k))⟩
    · intro k x hx
      exact ih _ (failed k x hx) (there k)

/-- What holds from the first state on still holds where an error is caught. -/
theorem Safe.rescue {f : ε → Remote ρ σ ε α} (h : service.Safe contract post p s)
    (fact : S → Prop) (start : fact s)
    (keeps : ∀ r s t, contract.rely r s t → fact s → fact t)
    (caught : ∀ e t, fact t → service.Safe contract post (f e) t) :
    service.Safe contract post (p.rescue f) s := by
  induction p generalizing s with
  | done result =>
    cases result with
    | ok a => exact h
    | error e => exact caught e s start
  | call r next ih =>
    intro t moved
    obtain ⟨answered, failed⟩ := h t moved
    have there := (h.stable moved).kept (keeps _ _ _ moved start) keeps
    constructor
    · intro k
      exact ⟨(answered k).1, ih _ (answered k).2 (there (some k))⟩
    · intro k x hx
      exact ih _ (failed k x hx) (there k)

/-- A result that is computed without a request. -/
theorem Safe.lift {x : Except ε α} (h : ∀ a, x = .ok a → ∀ t, contract.rely none s t → post t a) :
    service.Safe contract post (.done x) s := by
  cases x with
  | ok a => exact h a rfl
  | error e => trivial

/-- A request without an effect. -/
theorem Safe.query {r : ρ} {next : σ → Remote ρ σ ε α}
    (unchanged : ∀ k t, (service.handle k t r).2 = t)
    (answers : ∀ t, contract.rely (some r) s t → ∀ k,
      service.Safe contract post (next (service.handle k t r).1) t)
    (failures : ∀ t x, service.fails r x → service.Safe contract post (next x) t) :
    service.Safe contract post (.call r next) s := by
  intro t moved
  constructor
  · intro k
    rw [unchanged k t]
    exact ⟨contract.still t, answers t moved k⟩
  · intro k x hx
    have same : service.effect r t k = t := by
      cases k with
      | none => rfl
      | some k => exact unchanged k t
    rw [same]
    exact failures t x hx

/-- An effect that comes without its answer is one that the contract knows. -/
theorem Safe.effect {r : ρ} {next : σ → Remote ρ σ ε α}
    (h : service.Safe contract post (.call r next) s) (k : Option κ) :
    service.effect r s k = s ∨ contract.guarantee s (service.effect r s k) := by
  cases k with
  | none => exact .inl rfl
  | some k => exact .inr ((h s (contract.refl _ s)).1 k).1

section Runs

variable [DecidableEq ι] {program : Remote ρ σ ε α}
  {allowed : State S ρ σ ε α ι → Act σ κ δ ι → Prop} {u v : State S ρ σ ε α ι}

/-- Every caller is safe, and what has been returned meets the postcondition. -/
def Good (service : Service S ρ σ κ δ) (contract : Contract S ρ) (post : S → α → Prop)
    (u : State S ρ σ ε α ι) : Prop :=
  (∀ i p, u.callers i = some p → service.Safe contract post p u.service) ∧
  ∀ a ∈ u.returned, service.Safe (ε := ε) contract post (.done (.ok a)) u.service

omit [DecidableEq ι] in
theorem Good.init (s : S) : Good (ι := ι) (ε := ε) service contract post ⟨s, fun _ => none, []⟩ :=
  ⟨by simp, by simp⟩

omit [DecidableEq ι] in
/-- An effect moves the service within what the others rely on. -/
theorem Good.moved (good : Good service contract post u) {i : ι} {r : ρ}
    {next : σ → Remote ρ σ ε α} (waits : u.callers i = some (.call r next)) (k : Option κ) :
    ∀ pending, contract.rely pending u.service (service.effect r u.service k) := by
  intro pending
  rcases (good.1 i _ waits).effect k with same | guaranteed
  · rw [same]
    exact contract.refl _ _
  · exact contract.covers _ _ _ guaranteed

/-- The service moves within what the others rely on, and one caller goes on with a program that
is safe. -/
theorem Good.update (good : Good service contract post u) {t : S} {i : ι}
    {q : Option (Remote ρ σ ε α)} {returned : List α}
    (moved : ∀ r, contract.rely r u.service t)
    (safe : ∀ p, q = some p → service.Safe contract post p t)
    (results : ∀ a ∈ returned, a ∈ u.returned ∨
      service.Safe (ε := ε) contract post (.done (.ok a)) u.service) :
    Good service contract post ⟨t, Function.update u.callers i q, returned⟩ := by
  constructor
  · intro j p hp
    dsimp only at hp ⊢
    by_cases hj : j = i
    · subst hj
      rw [Function.update_self] at hp
      exact safe p hp
    · rw [Function.update_of_ne hj] at hp
      exact (good.1 j p hp).stable (moved _)
  · intro a ha
    rcases results a ha with hold | hnew
    · exact (good.2 a hold).stable (moved _)
    · exact hnew.stable (moved _)

/-- What a step can do. -/
inductive Steps (service : Service S ρ σ κ δ) (program : Remote ρ σ ε α)
    (u : State S ρ σ ε α ι) : Act σ κ δ ι → State S ρ σ ε α ι → Prop where
  | begin (i : ι) : Steps service program u (.begin i)
      { u with callers := Function.update u.callers i (some program) }
  | answer {i : ι} {r : ρ} {next : σ → Remote ρ σ ε α} (k : κ)
      (waits : u.callers i = some (.call r next)) : Steps service program u (.answer i k)
      { u with
        service := service.effect r u.service (some k)
        callers := Function.update u.callers i (some (next (service.handle k u.service r).1)) }
  | fail {i : ι} {r : ρ} {next : σ → Remote ρ σ ε α} (k : Option κ) {x : σ}
      (waits : u.callers i = some (.call r next)) (fails : service.fails r x) :
      Steps service program u (.fail i k x)
      { u with
        service := service.effect r u.service k
        callers := Function.update u.callers i (some (next x)) }
  | lose {i : ι} {r : ρ} {next : σ → Remote ρ σ ε α} (k : Option κ)
      (waits : u.callers i = some (.call r next)) : Steps service program u (.lose i k)
      { u with
        service := service.effect r u.service k
        callers := Function.update u.callers i none }
  | returns {i : ι} {a : α} (result : u.callers i = some (.done (.ok a))) :
      Steps service program u (.finish i)
      { u with callers := Function.update u.callers i none, returned := a :: u.returned }
  | throws {i : ι} {e : ε} (result : u.callers i = some (.done (.error e))) :
      Steps service program u (.finish i)
      { u with callers := Function.update u.callers i none }
  | drift {d : δ} {t : S} (h : service.drift d u.service = some t) :
      Steps service program u (.drift d) { u with service := t }

theorem step_cases {e : Act σ κ δ ι} (h : service.step program u e = some v) :
    Steps service program u e v := by
  cases e with
  | begin i =>
    simp only [step] at h
    split at h
    · cases h
      exact .begin i
    · cases h
  | answer i k =>
    simp only [step] at h
    split at h
    next r next waits =>
      cases h
      exact .answer k waits
    · cases h
  | fail i k x =>
    simp only [step] at h
    split at h
    next r next waits =>
      obtain ⟨hx, ⟨⟩⟩ := Option.ite_none_right_eq_some.mp h
      exact .fail k waits hx
    · cases h
  | lose i k =>
    simp only [step] at h
    split at h
    next r next waits =>
      cases h
      exact .lose k waits
    · cases h
  | finish i =>
    simp only [step] at h
    split at h
    next a result =>
      cases h
      exact .returns result
    next e result =>
      cases h
      exact .throws result
    · cases h
  | drift d =>
    obtain ⟨t, ht, rfl⟩ := Option.map_eq_some_iff.mp h
    exact .drift ht

/-- One step of any caller or of the service itself. -/
theorem Good.step (good : Good service contract post u)
    (begins : ∀ s, service.Safe contract post program s) {e : Act σ κ δ ι}
    (drifts : ∀ d t, e = .drift d → service.drift d u.service = some t →
      contract.rely none u.service t ∧
      ∀ i p, u.callers i = some p → contract.rely p.pending u.service t)
    (h : service.step program u e = some v) : Good service contract post v := by
  cases step_cases h with
  | begin i =>
    refine good.update (fun _ => contract.refl _ _) (fun p hp => ?_) fun a ha => .inl ha
    cases hp
    exact begins _
  | @answer i r next k waits =>
    refine good.update (good.moved waits (some k)) (fun p hp => ?_) fun a ha => .inl ha
    cases hp
    exact ((good.1 i _ waits _ (contract.refl _ _)).1 k).2
  | @fail i r next k x waits fails =>
    refine good.update (good.moved waits k) (fun p hp => ?_) fun a ha => .inl ha
    cases hp
    exact (good.1 i _ waits _ (contract.refl _ _)).2 k x fails
  | lose k waits => exact good.update (good.moved waits k) (by simp) fun a ha => .inl ha
  | @returns i a result =>
    refine good.update (fun _ => contract.refl _ _) (by simp) fun b hb => ?_
    rcases List.mem_cons.mp hb with rfl | hb
    · exact .inr (good.1 i _ result)
    · exact .inl hb
  | throws result => exact good.update (fun _ => contract.refl _ _) (by simp) fun b hb => .inl hb
  | drift ht =>
    obtain ⟨settled, moved⟩ := drifts _ _ rfl ht
    exact ⟨fun i p hp => (good.1 i p hp).stable (moved i p hp),
      fun a ha => (good.2 a ha).stable settled⟩

/-- What the guarantee and the drift keep of the service, a step keeps. -/
theorem Good.keeps {P : S → Prop} (good : Good service contract post u) (hP : P u.service)
    (guaranteed : ∀ s t, contract.guarantee s t → P s → P t)
    (drifted : ∀ d s t, service.drift d s = some t → P s → P t) {e : Act σ κ δ ι}
    (h : service.step program u e = some v) : P v.service := by
  have affected {i : ι} {r : ρ} {next : σ → Remote ρ σ ε α} (k : Option κ)
      (waits : u.callers i = some (.call r next)) : P (service.effect r u.service k) := by
    rcases (good.1 i _ waits).effect k with same | moved
    · rw [same]
      exact hP
    · exact guaranteed _ _ moved hP
  cases step_cases h with
  | begin | returns | throws => exact hP
  | answer k waits => exact affected (some k) waits
  | fail k waits => exact affected k waits
  | lose k waits => exact affected k waits
  | drift ht => exact drifted _ _ _ ht hP

/-- A safe program in a run: every caller stays safe, results keep their postcondition, and the
service keeps what the guarantee and the drift keep. -/
theorem Good.run {P : S → Prop} {s : S} (run : (service.system program s).Leads allowed u v)
    (good : Good service contract post u) (hP : P u.service)
    (begins : ∀ s, service.Safe contract post program s)
    (drifts : ∀ u d t, allowed u (.drift d) → service.drift d u.service = some t →
      contract.rely none u.service t ∧
      ∀ i p, u.callers i = some p → contract.rely p.pending u.service t)
    (guaranteed : ∀ s t, contract.guarantee s t → P s → P t)
    (drifted : ∀ d s t, service.drift d s = some t → P s → P t) :
    Good service contract post v ∧ P v.service := by
  refine run.invariant (P := fun u => Good service contract post u ∧ P u.service) ⟨good, hP⟩ ?_
  rintro u e v ⟨good, hP⟩ ok h
  exact ⟨good.step begins (fun d t hd ht => drifts u d t (hd ▸ ok) ht) h,
    good.keeps hP guaranteed drifted h⟩

end Runs

end Service
