import Runyard.System
import Mathlib.Data.List.Basic
import Mathlib.Logic.Function.Basic

/-!
# Coordinators and the advisory lock

`Leadership` of every coordinator and the database server that holds the advisory lock. The
flag `ready` remembers the outcome of the last refresh, while the server may end a session at
any time. A coordinator dispatches when a tick or a call has passed the check of `ready`.
-/

universe u

namespace Runyard

/-- The sessions of the server and the one that was granted the advisory lock. -/
structure Server where
  live : List Nat := []
  lock : Option Nat := none
  next : Nat := 0
  deriving DecidableEq

namespace Server

/-- Open a session. -/
def connect (server : Server) : Server :=
  { server with live := server.next :: server.live, next := server.next + 1 }

/-- `pg_try_advisory_lock(72841902)`: the session that holds the lock gets it again. -/
def tryLock (session : Nat) (server : Server) : Server × Bool :=
  match server.lock with
  | none => ({ server with lock := some session }, true)
  | some holder => (server, holder = session)

/-- The session ends, and its lock is released. -/
def close (session : Nat) (server : Server) : Server :=
  { server with
    live := server.live.filter (· ≠ session)
    lock := server.lock.filter (· ≠ session) }

end Server

structure Connection where
  session : Nat
  isOpen : Bool := true
  deriving DecidableEq

structure Leadership where
  connection : Option Connection := none
  ready : Bool := false
  deriving DecidableEq

/-- How far a query got: not to the server, not back from it, or there and back. -/
inductive Exchange where
  | unsent | unanswered | answered
  deriving DecidableEq

namespace Leadership

/-- The query of `refresh` on an open connection; the result `{}` is the `catch` clause. -/
def query (exchange : Exchange) (session : Nat) (server : Server) (l : Leadership) :
    Server × Leadership :=
  if session ∈ server.live ∧ exchange ≠ .unsent then
    let (server, granted) := if l.ready then (server, true) else server.tryLock session
    (server, if exchange = .answered then { l with ready := granted } else {})
  else (server, {})

/-- The session of a connection that the client believes to be open. -/
def session? (l : Leadership) : Option Nat :=
  match l.connection with
  | some c => if c.isOpen then some c.session else none
  | none => none

def refresh (connects : Bool) (exchange : Exchange) (server : Server) (l : Leadership) :
    Server × Leadership :=
  match l.session? with
  | some session => query exchange session server l
  | none =>
    if connects then
      query exchange server.next server.connect { connection := some ⟨server.next, true⟩ }
    else (server, {})

/-- The refresh asks for the lock, and does not just test the session that had it. -/
def asks (l : Leadership) : Bool := !l.ready || l.session?.isNone

end Leadership

/-- One coordinator process; `dispatching` counts the ticks and calls that it is executing. -/
structure Coordinator where
  leadership : Leadership := {}
  dispatching : Nat := 0
  deriving DecidableEq

namespace Coordination

variable {P : Type u} [DecidableEq P]

structure State (P : Type u) where
  server : Server := {}
  coordinator : P → Coordinator := fun _ => {}

inductive Act (P : Type u) where
  | refresh (p : P) (connects : Bool) (exchange : Exchange)
  | dispatch (p : P)
  | finish (p : P)
  /-- The server ends a session. -/
  | lose (session : Nat)
  /-- The client sees that its connection is broken. -/
  | disconnect (p : P)
  | restart (p : P)

namespace State

variable (s : State P)

def ready (p : P) : Bool := (s.coordinator p).leadership.ready

/-- The coordinator accepts calls and ticks, or executes one. -/
def active (p : P) : Bool := s.ready p || 0 < (s.coordinator p).dispatching

/-- The coordinator is ready, and the session that made it ready is live. -/
def current (p : P) : Bool :=
  s.ready p && (s.coordinator p).leadership.connection.any fun c => c.session ∈ s.server.live

def put (p : P) (c : Coordinator) : State P :=
  { s with coordinator := Function.update s.coordinator p c }

end State

def step (s : State P) : Act P → Option (State P)
  | .refresh p connects exchange =>
    let c := s.coordinator p
    let (server, leadership) := c.leadership.refresh connects exchange s.server
    some { s.put p { c with leadership := leadership } with server := server }
  | .dispatch p =>
    let c := s.coordinator p
    if s.ready p then some (s.put p { c with dispatching := c.dispatching + 1 }) else none
  | .finish p =>
    let c := s.coordinator p
    if 0 < c.dispatching then some (s.put p { c with dispatching := c.dispatching - 1 }) else none
  | .lose session => some { s with server := s.server.close session }
  | .disconnect p =>
    let c := s.coordinator p
    let connection := c.leadership.connection.map fun c => { c with isOpen := false }
    some (s.put p { c with leadership := { c.leadership with connection := connection } })
  | .restart p => some (s.put p {})

def system : System (State P) (Act P) where
  init := {}
  step := step

/-- Before a refresh asks for the lock, every other coordinator whose session the server ended
has noticed it and finished what it dispatched. -/
def noticed (s : State P) : Act P → Prop
  | .refresh p _ _ => (s.coordinator p).leadership.asks →
      ∀ q, q ≠ p → s.active q → s.current q
  | _ => True

/-! ## The server -/

section Query

variable {server server' : Server} {l l' : Leadership} {exchange : Exchange} {session : Nat}

/-- What a query does to the server, and what a ready flag after it rests on. -/
structure Granted (server : Server) (session : Nat) (l : Leadership) (server' : Server)
    (l' : Leadership) : Prop where
  live : server'.live = server.live
  next : server'.next = server.next
  lock : server'.lock = server.lock ∨
    server.lock = none ∧ server'.lock = some session ∧ session ∈ server.live ∧ ¬ l.ready
  connection : l'.connection = l.connection ∨ l'.connection = none
  ready : l'.ready → l'.connection = l.connection ∧ session ∈ server.live ∧
    (l.ready ∨ server'.lock = some session)

theorem tryLock_free (free : server.lock = none) :
    server.tryLock session = ({ server with lock := some session }, true) := by
  simp [Server.tryLock, free]

theorem tryLock_held {holder : Nat} (held : server.lock = some holder) :
    server.tryLock session = (server, decide (holder = session)) := by
  simp [Server.tryLock, held]

theorem query_granted (h : l.query exchange session server = (server', l')) :
    Granted server session l server' l' := by
  unfold Leadership.query at h
  split at h
  swap
  · cases h
    exact ⟨rfl, rfl, .inl rfl, .inr rfl, by simp⟩
  rename_i hsent
  by_cases hready : l.ready
  · simp only [hready, if_true, Prod.mk.injEq] at h
    obtain ⟨rfl, rfl⟩ := h
    split
    · exact ⟨rfl, rfl, .inl rfl, .inl rfl, fun _ => ⟨rfl, hsent.1, .inl hready⟩⟩
    · exact ⟨rfl, rfl, .inl rfl, .inr rfl, by simp⟩
  simp only [hready, Bool.false_eq_true, if_false, Prod.mk.injEq] at h
  obtain ⟨rfl, rfl⟩ := h
  cases hlock : server.lock with
  | none =>
    rw [tryLock_free hlock]
    refine ⟨rfl, rfl, .inr ⟨hlock, rfl, hsent.1, by simp [hready]⟩, ?_, ?_⟩
    · split
      · exact .inl rfl
      · exact .inr rfl
    · split
      · exact fun _ => ⟨rfl, hsent.1, .inr rfl⟩
      · simp
  | some holder =>
    rw [tryLock_held hlock]
    refine ⟨rfl, rfl, .inl rfl, ?_, ?_⟩
    · split
      · exact .inl rfl
      · exact .inr rfl
    · split
      · intro hsame
        have hholder : holder = session := by simpa using hsame
        exact ⟨rfl, hsent.1, .inr (by rw [hlock, hholder])⟩
      · simp

theorem refresh_granted {connects : Bool} (h : l.refresh connects exchange server = (server', l')) :
    server' = server ∧ l' = {} ∨
    (∃ c, l.connection = some c ∧ c.isOpen ∧ Granted server c.session l server' l') ∨
    l.session? = none ∧ Granted server.connect server.next
      { connection := some ⟨server.next, true⟩ } server' l' := by
  unfold Leadership.refresh at h
  split at h
  · rename_i session hsession
    unfold Leadership.session? at hsession
    split at hsession
    · rename_i c hconnection
      split at hsession
      · rename_i hopen
        cases hsession
        exact .inr (.inl ⟨c, hconnection, hopen, query_granted h⟩)
      · cases hsession
    · cases hsession
  · rename_i hnone
    split at h
    · exact .inr (.inr ⟨hnone, query_granted h⟩)
    · cases h
      exact .inl ⟨rfl, rfl⟩

end Query

/-! ## The invariant -/

/-- A live session that made a coordinator ready holds the lock, and nobody else is active. -/
structure Exclusive (s : State P) : Prop where
  lockLive : ∀ x, s.server.lock = some x → x ∈ s.server.live
  fresh : ∀ x ∈ s.server.live, x < s.server.next
  opened : ∀ p c, (s.coordinator p).leadership.connection = some c → c.session < s.server.next
  own : ∀ p q c d, (s.coordinator p).leadership.connection = some c →
    (s.coordinator q).leadership.connection = some d → c.session = d.session → p = q
  held : ∀ p, s.ready p → ∃ c, (s.coordinator p).leadership.connection = some c ∧
    (c.session ∈ s.server.live → s.server.lock = some c.session)
  single : ∀ p q, s.active p → s.active q → p = q

section Steps

variable {s : State P} {p q : P} {c : Coordinator}

@[simp] theorem put_self (s : State P) (p : P) (c : Coordinator) :
    (s.put p c).coordinator p = c := by
  simp [State.put]

theorem put_other (s : State P) (c : Coordinator) (hne : q ≠ p) :
    (s.put p c).coordinator q = s.coordinator q := by
  simp [State.put, hne]

omit [DecidableEq P] in
theorem active_iff : s.active p ↔ s.ready p ∨ 0 < (s.coordinator p).dispatching := by
  simp [State.active]

/-- The coordinator keeps its connection or has none, and becomes neither ready nor active. -/
theorem Exclusive.calm (exclusive : Exclusive s)
    (connection : ∀ d, c.leadership.connection = some d →
      ∃ d₀, (s.coordinator p).leadership.connection = some d₀ ∧ d.session = d₀.session)
    (ready : c.leadership.ready → s.ready p ∧ c.leadership.connection.isSome)
    (dispatching : 0 < c.dispatching → s.active p) : Exclusive (s.put p c) := by
  have was : ∀ q d, ((s.put p c).coordinator q).leadership.connection = some d →
      ∃ d₀, (s.coordinator q).leadership.connection = some d₀ ∧ d.session = d₀.session := by
    intro q d hd
    by_cases hq : q = p
    · subst hq
      rw [put_self] at hd
      exact connection d hd
    · rw [put_other s c hq] at hd
      exact ⟨d, hd, rfl⟩
  have wasActive : ∀ q, (s.put p c).active q → s.active q := by
    intro q hq
    by_cases hqp : q = p
    · subst hqp
      rcases active_iff.mp hq with hready | hdispatching
      · rw [State.ready, put_self] at hready
        exact active_iff.mpr (.inl (ready hready).1)
      · rw [put_self] at hdispatching
        exact dispatching hdispatching
    · rw [State.active, State.ready, put_other s c hqp] at hq
      exact hq
  refine ⟨exclusive.lockLive, exclusive.fresh, ?_, ?_, ?_, ?_⟩
  · intro q d hd
    obtain ⟨d₀, hd₀, hsame⟩ := was q d hd
    rw [hsame]
    exact exclusive.opened q d₀ hd₀
  · intro a b d e hd he hsame
    obtain ⟨d₀, hd₀, hdsame⟩ := was a d hd
    obtain ⟨e₀, he₀, hesame⟩ := was b e he
    exact exclusive.own a b d₀ e₀ hd₀ he₀ (by rw [← hdsame, ← hesame, hsame])
  · intro q hq
    by_cases hqp : q = p
    · subst hqp
      rw [State.ready, put_self] at hq
      obtain ⟨hready, hsome⟩ := ready hq
      obtain ⟨d, hd⟩ := Option.isSome_iff_exists.mp hsome
      obtain ⟨d₀, hd₀, hsame⟩ := connection d hd
      obtain ⟨e, he, hlock⟩ := exclusive.held q hready
      obtain rfl : d₀ = e := Option.some.inj (hd₀.symm.trans he)
      refine ⟨d, by rw [put_self, hd], ?_⟩
      rw [hsame]
      exact hlock
    · rw [State.ready, put_other s c hqp] at hq
      rw [put_other s c hqp]
      exact exclusive.held q hq
  · exact fun a b ha hb => exclusive.single a b (wasActive a ha) (wasActive b hb)

/-- Opening a session for a coordinator that is then not ready. -/
theorem Exclusive.connect (exclusive : Exclusive s) (p : P) :
    Exclusive { s.put p { s.coordinator p with
        leadership := { connection := some ⟨s.server.next, true⟩ } } with
      server := s.server.connect } := by
  have calm : Exclusive (s.put p { s.coordinator p with leadership := {} }) :=
    exclusive.calm (by simp) (by simp) fun h => active_iff.mpr (.inr h)
  have other : ∀ q, q ≠ p → (s.put p { s.coordinator p with
      leadership := { connection := some ⟨s.server.next, true⟩ } }).coordinator q =
        s.coordinator q := fun q hq => put_other s _ hq
  have below : ∀ q d, (s.coordinator q).leadership.connection = some d →
      d.session ≠ s.server.next := fun q d hd => by
    have := exclusive.opened q d hd
    omega
  refine ⟨?_, ?_, ?_, ?_, ?_, ?_⟩
  · exact fun x hx => List.mem_cons_of_mem _ (exclusive.lockLive x hx)
  · intro x hx
    rcases List.mem_cons.mp hx with rfl | hx
    · exact Nat.lt_succ_self _
    · exact Nat.lt_succ_of_lt (exclusive.fresh x hx)
  · intro q d hd
    by_cases hq : q = p
    · subst hq
      rw [put_self] at hd
      cases hd
      exact Nat.lt_succ_self _
    · rw [other q hq] at hd
      exact Nat.lt_succ_of_lt (exclusive.opened q d hd)
  · intro a b d e hd he hsame
    by_cases ha : a = p
    · by_cases hb : b = p
      · rw [ha, hb]
      · subst ha
        rw [put_self] at hd
        cases hd
        rw [other b hb] at he
        exact absurd hsame.symm (below b e he)
    · rw [other a ha] at hd
      by_cases hb : b = p
      · subst hb
        rw [put_self] at he
        cases he
        exact absurd hsame (below a d hd)
      · rw [other b hb] at he
        exact exclusive.own a b d e hd he hsame
  · intro q hq
    by_cases hqp : q = p
    · subst hqp
      simp [State.ready] at hq
    · rw [State.ready, other q hqp] at hq
      obtain ⟨d, hd, hlock⟩ := exclusive.held q hq
      refine ⟨d, by rw [other q hqp, hd], fun hlive => ?_⟩
      rcases List.mem_cons.mp hlive with hnew | hlive
      · exact absurd hnew (below q d hd)
      · exact hlock hlive
  · intro a b ha hb
    refine calm.single a b ?_ ?_
    · by_cases hap : a = p
      · subst hap
        simpa [State.active, State.ready] using ha
      · rw [State.active, State.ready, other a hap] at ha
        rwa [State.active, State.ready, put_other s _ hap]
    · by_cases hbp : b = p
      · subst hbp
        simpa [State.active, State.ready] using hb
      · rw [State.active, State.ready, other b hbp] at hb
        rwa [State.active, State.ready, put_other s _ hbp]

/-- The answer of the server to a refresh on the connection of `p`. -/
theorem Exclusive.granted (exclusive : Exclusive s) (server' : Server) (l' : Leadership)
    {c : Connection} (connection : (s.coordinator p).leadership.connection = some c)
    (granted : Granted s.server c.session (s.coordinator p).leadership server' l')
    (noticed : ¬ s.ready p → ∀ q, q ≠ p → s.active q → s.current q) :
    Exclusive { s.put p { s.coordinator p with leadership := l' } with server := server' } := by
  have other : ∀ q, q ≠ p →
      (s.put p { s.coordinator p with leadership := l' }).coordinator q = s.coordinator q :=
    fun q hq => put_other s _ hq
  have was : ∀ q d, ((s.put p { s.coordinator p with leadership := l' }).coordinator
      q).leadership.connection = some d → (s.coordinator q).leadership.connection = some d := by
    intro q d hd
    by_cases hq : q = p
    · subst hq
      rw [put_self] at hd
      rcases granted.connection with hsame | hnone
      · rw [← hsame, hd]
      · rw [hnone] at hd
        cases hd
    · rwa [other q hq] at hd
  have heldLock : ∀ x, s.server.lock = some x → server'.lock = some x := by
    intro x hx
    rcases granted.lock with hlock | ⟨hnone, _⟩
    · rw [hlock, hx]
    · rw [hnone] at hx
      cases hx
  refine ⟨?_, ?_, ?_, ?_, ?_, ?_⟩
  · intro x hx
    rw [granted.live]
    rcases granted.lock with hlock | ⟨_, hlock, hlive, _⟩
    · exact exclusive.lockLive x (hlock.symm.trans hx)
    · obtain rfl : c.session = x := Option.some.inj (hlock.symm.trans hx)
      exact hlive
  · intro x hx
    rw [granted.live] at hx
    rw [granted.next]
    exact exclusive.fresh x hx
  · intro q d hd
    rw [granted.next]
    exact exclusive.opened q d (was q d hd)
  · exact fun a b d e hd he => exclusive.own a b d e (was a d hd) (was b e he)
  · intro q hq
    by_cases hqp : q = p
    · subst hqp
      rw [State.ready, put_self] at hq
      obtain ⟨hsame, hlive, hready | hlock⟩ := granted.ready hq
      · obtain ⟨d, hd, hheld⟩ := exclusive.held q hready
        obtain rfl : c = d := Option.some.inj (connection.symm.trans hd)
        exact ⟨c, by rw [put_self, hsame, connection], fun _ => heldLock _ (hheld hlive)⟩
      · exact ⟨c, by rw [put_self, hsame, connection], fun _ => hlock⟩
    · rw [State.ready, other q hqp] at hq
      obtain ⟨d, hd, hheld⟩ := exclusive.held q hq
      refine ⟨d, by rw [other q hqp, hd], fun hlive => ?_⟩
      rw [granted.live] at hlive
      exact heldLock _ (hheld hlive)
  · -- Only `p` may have become active, and then the lock was granted to its session.
    have gained : ∀ q, q ≠ p → s.active q → l'.ready → s.active p := by
      intro q hq hactive hready
      by_contra hp
      have unready : ¬ s.ready p := fun h => hp (active_iff.mpr (.inl h))
      obtain ⟨_, hlive, hwas | hlock⟩ := granted.ready hready
      · exact unready hwas
      have current := noticed unready q hq hactive
      simp only [State.current, Bool.and_eq_true, Option.any_eq_true, decide_eq_true_eq] at current
      obtain ⟨hqready, d, hd, hdlive⟩ := current
      obtain ⟨d', hd', hheld⟩ := exclusive.held q hqready
      obtain rfl : d = d' := Option.some.inj (hd.symm.trans hd')
      have hsession : d.session = c.session :=
        Option.some.inj ((heldLock _ (hheld hdlive)).symm.trans hlock)
      exact hq (exclusive.own q p d c hd connection hsession)
    have wasActive : ∀ a b, a ≠ b →
        State.active { s.put p { s.coordinator p with leadership := l' } with
          server := server' } a →
        State.active { s.put p { s.coordinator p with leadership := l' } with
          server := server' } b → s.active a := by
      intro a b hne ha hb
      by_cases hap : a = p
      · subst hap
        rcases active_iff.mp ha with hready | hdispatching
        · rw [State.ready, put_self] at hready
          rw [State.active, State.ready, other b hne.symm] at hb
          exact gained b hne.symm hb hready
        · rw [put_self] at hdispatching
          exact active_iff.mpr (.inr hdispatching)
      · rwa [State.active, State.ready, other a hap] at ha
    intro a b ha hb
    by_contra hne
    exact hne (exclusive.single a b (wasActive a b hne ha hb) (wasActive b a (Ne.symm hne) hb ha))

theorem Exclusive.refresh (exclusive : Exclusive s) {connects : Bool} {exchange : Exchange}
    (noticed : (s.coordinator p).leadership.asks → ∀ q, q ≠ p → s.active q → s.current q)
    {server' : Server} {l' : Leadership}
    (h : (s.coordinator p).leadership.refresh connects exchange s.server = (server', l')) :
    Exclusive { s.put p { s.coordinator p with leadership := l' } with server := server' } := by
  rcases refresh_granted h with ⟨rfl, rfl⟩ | ⟨c, hconnection, _, granted⟩ | ⟨hnone, granted⟩
  · have calm : Exclusive (s.put p { s.coordinator p with leadership := {} }) :=
      exclusive.calm (by simp) (by simp) fun hd => active_iff.mpr (.inr hd)
    exact calm
  · refine exclusive.granted _ _ hconnection granted fun unready => noticed ?_
    rw [State.ready] at unready
    simp [Leadership.asks, unready]
  · -- A new session: the refresh is a query on the state after it was opened.
    have opened := exclusive.connect p
    have asks := noticed (by simp [Leadership.asks, hnone])
    have granted' := opened.granted (p := p) server' l'
      (c := ⟨s.server.next, true⟩) (by simp) (by simpa using granted) ?_
    · have same : ∀ l, (s.put p l).put p { s.coordinator p with leadership := l' } =
          s.put p { s.coordinator p with leadership := l' } := fun l => by simp [State.put]
      simpa [State.put] using granted'
    · intro _ q hq hactive
      rw [State.active, State.ready] at hactive
      rw [State.current, State.ready]
      rw [put_other s _ hq] at hactive ⊢
      have current := asks q hq hactive
      simp only [State.current, Bool.and_eq_true, Option.any_eq_true, decide_eq_true_eq]
        at current ⊢
      obtain ⟨hready, d, hd, hlive⟩ := current
      exact ⟨hready, d, hd, List.mem_cons_of_mem _ hlive⟩

omit [DecidableEq P] in
theorem Exclusive.lose (exclusive : Exclusive s) (session : Nat) :
    Exclusive { s with server := s.server.close session } := by
  refine ⟨?_, ?_, exclusive.opened, exclusive.own, ?_, exclusive.single⟩
  · intro x hx
    obtain ⟨hlock, hne⟩ := Option.filter_eq_some_iff.mp hx
    exact List.mem_filter.mpr ⟨exclusive.lockLive x hlock, hne⟩
  · exact fun x hx => exclusive.fresh x (List.mem_filter.mp hx).1
  · intro q hq
    obtain ⟨d, hd, hheld⟩ := exclusive.held q hq
    refine ⟨d, hd, fun hlive => ?_⟩
    obtain ⟨hmem, hne⟩ := List.mem_filter.mp hlive
    exact Option.filter_eq_some_iff.mpr ⟨hheld hmem, hne⟩

theorem Exclusive.step {s' : State P} {a : Act P} (exclusive : Exclusive s)
    (allowed : noticed s a) (h : system.step s a = some s') : Exclusive s' := by
  cases a with
  | refresh p connects exchange =>
    cases h
    exact exclusive.refresh allowed rfl
  | dispatch p =>
    change (if s.ready p then some (s.put p _) else none) = some s' at h
    by_cases hready : s.ready p
    · rw [if_pos hready] at h
      cases h
      obtain ⟨d, hd, _⟩ := exclusive.held p hready
      exact exclusive.calm (fun e he => ⟨e, he, rfl⟩) (fun _ => ⟨hready, by simp [hd]⟩)
        fun _ => active_iff.mpr (.inl hready)
    · rw [if_neg hready] at h
      cases h
  | finish p =>
    change (if 0 < (s.coordinator p).dispatching then some (s.put p _) else none) = some s' at h
    by_cases hbusy : 0 < (s.coordinator p).dispatching
    · rw [if_pos hbusy] at h
      cases h
      refine exclusive.calm (fun e he => ⟨e, he, rfl⟩) (fun hready => ?_)
        fun _ => active_iff.mpr (.inr hbusy)
      obtain ⟨d, hd, _⟩ := exclusive.held p hready
      exact ⟨hready, by simp [hd]⟩
    · rw [if_neg hbusy] at h
      cases h
  | lose session =>
    cases h
    exact exclusive.lose session
  | disconnect p =>
    cases h
    refine exclusive.calm (fun e he => ?_) (fun hready => ?_) fun hd => active_iff.mpr (.inr hd)
    · obtain ⟨d, hd, rfl⟩ := Option.map_eq_some_iff.mp he
      exact ⟨d, hd, rfl⟩
    · obtain ⟨d, hd, _⟩ := exclusive.held p hready
      exact ⟨hready, by simp [hd]⟩
  | restart p =>
    cases h
    exact exclusive.calm (by simp) (by simp) (by simp)

end Steps

theorem exclusive_init : Exclusive (system (P := P)).init :=
  ⟨by simp [system], by simp [system], by simp [system], by simp [system],
    by simp [system, State.ready], by simp [system, State.active, State.ready]⟩

/-- As long as every coordinator notices the loss of its session, and finishes what it
dispatched, before another one asks for the lock, at most one is ready and at most one
dispatches. -/
theorem single_coordinator {s : State P} (run : system.Leads noticed system.init s) :
    (∀ p q, s.ready p → s.ready q → p = q) ∧
      ∀ p q, s.active p → s.active q → p = q := by
  have exclusive : Exclusive s :=
    run.invariant exclusive_init fun _ _ _ exclusive allowed h => exclusive.step allowed h
  exact ⟨fun p q hp hq => exclusive.single p q (active_iff.mpr (.inl hp))
    (active_iff.mpr (.inl hq)), exclusive.single⟩

namespace Sample

/-- The session of the first coordinator ends, and the second one gets the lock before the
first one refreshes. -/
def overlap : List (Act Bool) :=
  [.refresh false true .answered, .lose 0, .refresh true true .answered, .dispatch false,
    .dispatch true]

/-- The first coordinator refreshes before the second one. -/
def takeover : List (Act Bool) :=
  [.refresh false true .answered, .dispatch false, .finish false, .lose 0,
    .refresh false false .unsent, .refresh true true .answered]

def noticed (s : State Bool) : Act Bool → Bool
  | .refresh p _ _ => !(s.coordinator p).leadership.asks || !s.active !p || s.current !p
  | _ => true

theorem noticed_of (s : State Bool) (a : Act Bool) (h : noticed s a) :
    Coordination.noticed s a := by
  cases a with
  | refresh p connects exchange =>
    intro asks q hq hactive
    obtain rfl : q = !p := by cases p <;> cases q <;> simp_all
    simpa [noticed, asks, hactive] using h
  | dispatch | finish | lose | disconnect | restart => trivial

end Sample

theorem single_coordinator_overlap : ¬ ∀ s : State Bool, system.Reachable s →
    (∀ p q, s.ready p → s.ready q → p = q) ∧ ∀ p q, s.active p → s.active q → p = q := by
  intro single
  have both : (system.replay (fun _ _ => true) system.init Sample.overlap).any
      (fun s => s.ready false && s.ready true) := by
    decide
  obtain ⟨s, hs, hready⟩ := (Option.any_eq_true _ _).mp both
  rw [Bool.and_eq_true] at hready
  have same := (single s (System.replay_reachable hs)).1 false true hready.1 hready.2
  cases same

theorem single_coordinator_takeover : ∃ s : State Bool,
    system.Leads Coordination.noticed system.init s ∧ s.ready true ∧
    ∀ p, s.ready p → p = true := by
  have last : (system.replay Sample.noticed system.init Sample.takeover).any
      (fun s => s.ready true) := by
    decide
  obtain ⟨s, hs, hready⟩ := (Option.any_eq_true _ _).mp last
  have run : system.Leads Coordination.noticed system.init s :=
    (System.replay_leads hs).mono Sample.noticed_of
  exact ⟨s, run, hready, fun p hp => (single_coordinator run).1 p true hp hready⟩

end Coordination

end Runyard
