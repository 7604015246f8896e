import Runyard.Runs
import Mathlib.Data.List.Nodup

/-!
# The connection pool

`ConnectionPool` of `pool.cpp`: calls of `acquire` with their leases. A section under the mutex is
one step, and so are `notify_one` after it, the end of the five seconds and a check of a
connection. Connections break at any time.
-/

namespace Runyard

/-- What the constructor accepts. -/
structure ConnectionPool where
  size : Nat
  size_pos : 0 < size

namespace ConnectionPool

/-- A call of `acquire`, then its lease. -/
inductive Call where
  /-- About to lock the mutex for the first time. -/
  | locking
  /-- Blocked in `available_.wait_for`. -/
  | blocked
  /-- Woken, and about to lock the mutex again. -/
  | waking
  /-- The five seconds are over. -/
  | expiring
  | taken (connection : Option Nat)
  | leased (connection : Nat)
  /-- The connection cannot be made again. -/
  | failing
  /-- Before `notify_one`. -/
  | notifying (failed : Bool)
  | released
  | busy
  | unavailable
  deriving DecidableEq

/-- The call has popped one of the elements of `connections_`. -/
def Call.holds : Call → Bool
  | .taken _ | .leased _ | .failing => true
  | _ => false

def Call.connection : Call → Option Nat
  | .taken connection => connection
  | .leased connection => some connection
  | _ => none

/-- The call is inside `wait_for`. -/
def Call.waits : Call → Bool
  | .blocked | .waking | .expiring => true
  | _ => false

/-- The call is going to wake another one or to look for a connection. -/
def Call.rouses : Call → Bool
  | .waking | .notifying _ => true
  | _ => false

/-- How `acquire` and its lease end after `notify_one`. -/
def Call.ended (failed : Bool) : Call := if failed then .unavailable else .released

structure State where
  connections : List (Option Nat)
  closed : List Nat := []
  /-- The number of the next connection that is made. -/
  next : Nat
  calls : List Call := []
  waiting : Int := 0
  timeouts : Int := 0

inductive Act where
  | acquire
  /-- The mutex is locked and the predicate evaluated. -/
  | lock (n : Nat)
  | check (n : Nat) (connects : Bool)
  /-- The destructor of the lease, or the `catch` clause. -/
  | push (n : Nat)
  | notify (n : Nat) (target : Option Nat)
  /-- A spurious wakeup. -/
  | wake (n : Nat)
  | expire (n : Nat)
  | lose (connection : Nat)

def State.set (s : State) (n : Nat) (call : Call) : State := { s with calls := s.calls.set n call }

/-- `waiting_` counts a call from its first look until it leaves `wait_for`. -/
def State.counted (s : State) (call : Call) : Int :=
  if call = .locking then s.waiting + 1 else s.waiting

def State.look (s : State) (n : Nat) (call : Call) : State :=
  match s.connections.getLast? with
  | some connection => { s.set n (.taken connection) with
      connections := s.connections.dropLast, waiting := s.counted call - 1 }
  | none =>
    if call = .expiring then
      { s.set n .busy with waiting := s.counted call - 1, timeouts := s.timeouts + 1 }
    else { s.set n .blocked with waiting := s.counted call }

/-- A connection that is open is used, else another one is made. -/
def State.check (s : State) (n : Nat) (connection : Option Nat) (connects : Bool) : State :=
  match connection.filter fun id => !s.closed.contains id with
  | some id => s.set n (.leased id)
  | none => if connects then { s.set n (.leased s.next) with next := s.next + 1 }
      else s.set n .failing

def step (s : State) : Act → Option State
  | .acquire => some { s with calls := s.calls ++ [.locking] }
  | .lock n => do
    let call ← s.calls[n]?
    match call with
    | .locking | .waking | .expiring => some (s.look n call)
    | _ => none
  | .check n connects => do
    let call ← s.calls[n]?
    match call with
    | .taken connection => some (s.check n connection connects)
    | _ => none
  | .push n => do
    let call ← s.calls[n]?
    match call with
    | .leased id =>
      some { s.set n (.notifying false) with connections := s.connections ++ [some id] }
    | .failing => some { s.set n (.notifying true) with connections := s.connections ++ [none] }
    | _ => none
  | .notify n target => do
    let call ← s.calls[n]?
    match call with
    | .notifying failed =>
      let s' := s.set n (Call.ended failed)
      match target with
      | some m => if s.calls[m]? = some .blocked then some (s'.set m .waking) else none
      | none => if .blocked ∈ s.calls then none else some s'
    | _ => none
  | .wake n => if s.calls[n]? = some .blocked then some (s.set n .waking) else none
  | .expire n => if s.calls[n]? = some .blocked then some (s.set n .expiring) else none
  | .lose connection =>
    if connection < s.next then some { s with closed := connection :: s.closed } else none

def system (c : ConnectionPool) : System State Act where
  init := { connections := (List.range c.size).map some, next := c.size }
  step := step

structure Statistics where
  capacity : Int
  inUse : Int
  waiting : Int
  timeouts : Int
  deriving DecidableEq

def statistics (c : ConnectionPool) (s : State) : Statistics where
  capacity := c.size
  inUse := c.size - s.connections.length
  waiting := s.waiting
  timeouts := s.timeouts

/-! ## Counting the calls -/

section Counting

variable {s : State} {n : Nat} {call other : Call}

/-- How many calls of a kind there are. -/
def State.count (s : State) (p : Call → Bool) : Nat := s.calls.countP p

theorem count_set (call : Call) (p : Call → Bool) (h : s.calls[n]? = some other) :
    (s.set n call).count p + (p other).toNat = s.count p + (p call).toNat := by
  obtain ⟨within, here⟩ := List.getElem?_eq_some_iff.mp h
  have least := List.boole_getElem_le_countP (p := p) within
  have counted := List.countP_set (p := p) (a := call) within
  rw [here] at least counted
  change (s.calls.set n call).countP p + _ = s.calls.countP p + _
  rw [counted]
  cases hother : p other with
  | true =>
    rw [hother, if_pos rfl] at least
    cases hcall : p call with
    | true => simp only [if_true, Bool.toNat_true]; omega
    | false =>
      simp only [if_true, Bool.false_eq_true, if_false, Bool.toNat_true, Bool.toNat_false]
      omega
  | false =>
    cases hcall : p call with
    | true => simp
    | false => simp

theorem count_snoc (p : Call → Bool) :
    State.count { s with calls := s.calls ++ [call] } p = s.count p + (p call).toNat := by
  rw [State.count, State.count, List.countP_append, List.countP_singleton]
  cases p call <;> rfl

/-- In how many places a connection is. -/
def State.owners (s : State) (id : Nat) : Nat :=
  s.connections.count (some id) + s.count fun call => call.connection = some id

end Counting

/-! ## The invariant -/

structure Sound (c : ConnectionPool) (s : State) : Prop where
  unique : ∀ id, s.owners id ≤ 1
  fresh : ∀ id, s.next ≤ id → s.owners id = 0
  known : ∀ id ∈ s.closed, id < s.next
  slots : s.connections.length + s.count Call.holds = c.size
  waiting : s.waiting = s.count Call.waits
  timeouts : s.timeouts = s.count (· = .busy)
  /-- No wakeup is lost. -/
  roused : 0 < s.count (· = .blocked) → s.connections.length ≤ s.count Call.rouses

/-- What a step can do, with the guard under which it does it. -/
inductive Moves (s : State) : Act → State → Prop where
  | acquire : Moves s .acquire { s with calls := s.calls ++ [.locking] }
  | look {n call} (here : s.calls[n]? = some call)
      (looks : call = .locking ∨ call = .waking ∨ call = .expiring) :
      Moves s (.lock n) (s.look n call)
  | check {n connection connects} (here : s.calls[n]? = some (.taken connection)) :
      Moves s (.check n connects) (s.check n connection connects)
  | release {n id} (here : s.calls[n]? = some (.leased id)) :
      Moves s (.push n)
        { s.set n (.notifying false) with connections := s.connections ++ [some id] }
  | giveUp {n} (here : s.calls[n]? = some .failing) :
      Moves s (.push n) { s.set n (.notifying true) with connections := s.connections ++ [none] }
  | notifyOne {n m failed} (here : s.calls[n]? = some (.notifying failed))
      (there : s.calls[m]? = some .blocked) :
      Moves s (.notify n (some m)) ((s.set n (Call.ended failed)).set m .waking)
  | notifyNone {n failed} (here : s.calls[n]? = some (.notifying failed))
      (none : .blocked ∉ s.calls) : Moves s (.notify n .none) (s.set n (Call.ended failed))
  | wake {n} (here : s.calls[n]? = some .blocked) : Moves s (.wake n) (s.set n .waking)
  | expire {n} (here : s.calls[n]? = some .blocked) : Moves s (.expire n) (s.set n .expiring)
  | lose {connection} (known : connection < s.next) :
      Moves s (.lose connection) { s with closed := connection :: s.closed }

theorem moves {s s' : State} {act : Act} (h : step s act = some s') : Moves s act s' := by
  cases act with
  | acquire =>
    cases h
    exact .acquire
  | lock n =>
    obtain ⟨call, hcall, h⟩ := Option.bind_eq_some_iff.mp h
    split at h
    · cases h
      exact .look hcall (.inl rfl)
    · cases h
      exact .look hcall (.inr (.inl rfl))
    · cases h
      exact .look hcall (.inr (.inr rfl))
    · cases h
  | check n connects =>
    obtain ⟨call, hcall, h⟩ := Option.bind_eq_some_iff.mp h
    split at h
    · cases h
      exact .check hcall
    · cases h
  | push n =>
    obtain ⟨call, hcall, h⟩ := Option.bind_eq_some_iff.mp h
    split at h
    · cases h
      exact .release hcall
    · cases h
      exact .giveUp hcall
    · cases h
  | notify n target =>
    obtain ⟨call, hcall, h⟩ := Option.bind_eq_some_iff.mp h
    split at h
    case h_2 => cases h
    cases target with
    | none =>
      obtain ⟨absent, rfl⟩ : .blocked ∉ s.calls ∧ _ = s' := by simpa using h
      exact .notifyNone hcall absent
    | some m =>
      obtain ⟨there, rfl⟩ : s.calls[m]? = some .blocked ∧ _ = s' := by simpa using h
      exact .notifyOne hcall there
  | wake n =>
    obtain ⟨here, rfl⟩ : s.calls[n]? = some .blocked ∧ _ = s' := by simpa [step] using h
    exact .wake here
  | expire n =>
    obtain ⟨here, rfl⟩ : s.calls[n]? = some .blocked ∧ _ = s' := by simpa [step] using h
    exact .expire here
  | lose connection =>
    obtain ⟨known, rfl⟩ : connection < s.next ∧ _ = s' := by simpa [step] using h
    exact .lose known

section Steps

variable {c : ConnectionPool} {s s' : State} {n : Nat} {call other : Call}
  {connections : List (Option Nat)}

/-- A call that wakes nobody has left no connection behind. -/
theorem Sound.rouse (sound : Sound c s) (here : s.calls[n]? = some other) (awake : call ≠ .blocked)
    (passes : connections.length + other.rouses.toNat ≤
      s.connections.length + call.rouses.toNat)
    (blocked : 0 < (s.set n call).count (· = .blocked)) :
    connections.length ≤ (s.set n call).count Call.rouses := by
  have blockedCounted := count_set call (· = .blocked) here
  have rousedCounted := count_set call Call.rouses here
  simp only [awake, decide_false, Bool.toNat_false, Nat.add_zero] at blockedCounted
  have before := sound.roused (by omega)
  omega

/-- A call moves on, and passes the connection and its place on as it leaves them. -/
theorem Sound.moved {waiting timeouts : Int} (sound : Sound c s) (here : s.calls[n]? = some other)
    (owners : ∀ id, connections.count (some id) + (call.connection = some id : Bool).toNat ≤
      s.connections.count (some id) + (other.connection = some id : Bool).toNat)
    (slots : connections.length + call.holds.toNat = s.connections.length + other.holds.toNat)
    (waits : waiting + other.waits.toNat = s.waiting + call.waits.toNat)
    (times : timeouts + (other = .busy : Bool).toNat = s.timeouts + (call = .busy : Bool).toNat)
    (roused : 0 < (s.set n call).count (· = .blocked) →
      connections.length ≤ (s.set n call).count Call.rouses) :
    Sound c { s.set n call with
      connections := connections, waiting := waiting, timeouts := timeouts } := by
  have counted (p : Call → Bool) := count_set call p here
  have owned (id : Nat) : State.owners { s.set n call with
      connections := connections, waiting := waiting, timeouts := timeouts } id ≤ s.owners id := by
    have counted := counted fun call => call.connection = some id
    have owners := owners id
    change connections.count (some id) + (s.set n call).count _ ≤
      s.connections.count (some id) + s.count _
    omega
  refine ⟨fun id => Nat.le_trans (owned id) (sound.unique id), fun id new => ?_, sound.known, ?_,
    ?_, ?_, roused⟩
  · exact Nat.le_zero.mp (Nat.le_trans (owned id) (Nat.le_of_eq (sound.fresh id new)))
  · have counted := counted Call.holds
    have before := sound.slots
    change connections.length + (s.set n call).count Call.holds = c.size
    omega
  · have counted := counted Call.waits
    have before := sound.waiting
    change waiting = (s.set n call).count Call.waits
    omega
  · have counted := counted (· = .busy)
    have before := sound.timeouts
    change timeouts = (s.set n call).count (· = .busy)
    omega

theorem Sound.init : Sound c c.system.init := by
  have distinct : ((List.range c.size).map some).Nodup :=
    List.nodup_range.map fun _ _ => Option.some.inj
  have none (p : Call → Bool) : State.count c.system.init p = 0 := rfl
  refine ⟨fun id => ?_, fun id new => ?_, fun _ h => absurd h List.not_mem_nil, ?_, rfl, rfl,
    fun h => absurd h (Nat.lt_irrefl 0)⟩
  · rw [State.owners, none]
    exact List.nodup_iff_count_le_one.mp distinct _
  · rw [State.owners, none, Nat.add_zero, List.count_eq_zero]
    intro h
    obtain ⟨k, hk, hid⟩ := List.mem_map.mp h
    rw [Option.some.inj hid] at hk
    exact absurd (List.mem_range.mp hk) (Nat.not_lt.mpr new)
  · rw [none, Nat.add_zero]
    exact (List.length_map _).trans List.length_range

/-- What `look` does with `waiting_`. -/
theorem counted_waits (looks : call = .locking ∨ call = .waking ∨ call = .expiring) :
    s.counted call - 1 + call.waits.toNat = s.waiting := by
  rcases looks with rfl | rfl | rfl <;> simp [State.counted, Call.waits]

theorem Sound.look (sound : Sound c s) (here : s.calls[n]? = some call)
    (looks : call = .locking ∨ call = .waking ∨ call = .expiring) : Sound c (s.look n call) := by
  have waits := counted_waits (s := s) looks
  have idle : call.connection = none ∧ call.holds = false ∧ call ≠ .busy := by
    rcases looks with rfl | rfl | rfl <;> simp [Call.connection, Call.holds]
  obtain ⟨unconnected, empty, unfinished⟩ := idle
  cases hlast : s.connections.getLast? with
  | some connection =>
    simp only [State.look, hlast]
    have whole := List.dropLast_append_getLast? connection hlast
    have length := congrArg List.length whole
    rw [List.length_append, List.length_singleton] at length
    refine sound.moved here (fun id => ?_) ?_ ?_ ?_ (sound.rouse here (by simp) ?_)
    · have counts := congrArg (List.count (some id)) whole
      rw [List.count_append, List.count_singleton] at counts
      rw [unconnected, ← counts]
      by_cases same : connection = some id
      · simp [same, Call.connection]
      · simp [same, Call.connection]
    · rw [empty, ← length]
      rfl
    · exact waits.trans (Int.add_zero _).symm
    · simp [unfinished, State.set]
    · have bound : call.rouses.toNat ≤ 1 := Bool.toNat_le _
      omega
  | none =>
    have none_left : s.connections.length = 0 := by
      rw [List.getLast?_eq_none_iff.mp hlast, List.length_nil]
    simp only [State.look, hlast]
    split
    next expiring =>
      refine sound.moved here (fun id => ?_) ?_ (waits.trans (Int.add_zero _).symm) ?_
        fun _ => none_left ▸ Nat.zero_le _
      · simp [Call.connection, State.set]
      · rw [empty]
        rfl
      · simp [unfinished]
    next waiting =>
      refine sound.moved here (fun id => ?_) ?_ ?_ ?_ fun _ => none_left ▸ Nat.zero_le _
      · simp [Call.connection, State.set]
      · rw [empty]
        rfl
      · rw [← waits]
        change s.counted call + _ = s.counted call - 1 + _ + 1
        omega
      · simp [unfinished, State.set]

/-- A new connection has one place, and the old one has none any more. -/
theorem Sound.connect {connection : Option Nat} (sound : Sound c s)
    (here : s.calls[n]? = some (.taken connection)) :
    Sound c { s.set n (.leased s.next) with next := s.next + 1 } := by
  have counted (p : Call → Bool) := count_set (.leased s.next) p here
  have owned (id : Nat) : State.owners { s.set n (.leased s.next) with next := s.next + 1 } id ≤
      s.owners id + (s.next = id : Bool).toNat := by
    have counted := counted fun call => call.connection = some id
    have same : decide (some s.next = some id) = decide (s.next = id) := by simp
    change _ = _ + (decide (some s.next = some id)).toNat at counted
    change s.connections.count (some id) + (s.set n _).count _ ≤
      s.connections.count (some id) + s.count _ + _
    rw [same] at counted
    omega
  refine ⟨fun id => ?_, fun id new => ?_, fun id h => Nat.lt_succ_of_lt (sound.known id h), ?_, ?_,
    ?_, fun blocked => ?_⟩
  · have bound := owned id
    by_cases fresh : s.next = id
    · rw [sound.fresh id (Nat.le_of_eq fresh)] at bound
      exact Nat.le_trans bound (by simp [fresh])
    · have unique := sound.unique id
      refine Nat.le_trans bound ?_
      rw [decide_eq_false fresh, Bool.toNat_false]
      exact unique
  · have bound := owned id
    have old : s.next ≠ id := Nat.ne_of_lt new
    rw [sound.fresh id (Nat.le_of_succ_le new)] at bound
    simp only [old, decide_false, Bool.toNat_false] at bound
    exact Nat.le_zero.mp bound
  · exact (congrArg (s.connections.length + ·) (Nat.add_right_cancel (counted Call.holds))).trans
      sound.slots
  · exact sound.waiting.trans (congrArg Nat.cast (Nat.add_right_cancel (counted Call.waits)).symm)
  · exact sound.timeouts.trans
      (congrArg Nat.cast (Nat.add_right_cancel (counted (· = .busy))).symm)
  · have blockedCounted := Nat.add_right_cancel (counted (· = .blocked))
    have rousedCounted := Nat.add_right_cancel (counted Call.rouses)
    change 0 < (s.set n _).count _ at blocked
    change s.connections.length ≤ (s.set n _).count _
    rw [rousedCounted]
    exact sound.roused (blockedCounted ▸ blocked)

theorem Sound.check {connection : Option Nat} {connects : Bool} (sound : Sound c s)
    (here : s.calls[n]? = some (.taken connection)) : Sound c (s.check n connection connects) := by
  unfold State.check
  split
  next id hid =>
    obtain ⟨hconnection, _⟩ := Option.filter_eq_some_iff.mp hid
    subst hconnection
    exact sound.moved here (fun id => Nat.le_refl _) rfl rfl rfl
      (sound.rouse here (by simp) (Nat.le_refl _))
  next =>
    split
    next => exact sound.connect here
    next =>
      exact sound.moved here (fun id => by simp [Call.connection]) rfl rfl rfl
        (sound.rouse here (by simp) (Nat.le_refl _))

/-- `notify_one` is done, and what it leaves is as good as before. -/
theorem Sound.ended {failed : Bool} (sound : Sound c s)
    (here : s.calls[n]? = some (.notifying failed))
    (roused : 0 < (s.set n (Call.ended failed)).count (· = .blocked) →
      s.connections.length ≤ (s.set n (Call.ended failed)).count Call.rouses) :
    Sound c (s.set n (Call.ended failed)) := by
  cases failed with
  | false => exact sound.moved here (fun _ => Nat.le_refl _) rfl rfl rfl roused
  | true => exact sound.moved here (fun _ => Nat.le_refl _) rfl rfl rfl roused

theorem Sound.notifyNone {failed : Bool} (sound : Sound c s)
    (here : s.calls[n]? = some (.notifying failed)) (absent : .blocked ∉ s.calls) :
    Sound c (s.set n (Call.ended failed)) := by
  refine sound.ended here fun blocked => ?_
  obtain ⟨call, hcall, hblocked⟩ := List.countP_pos_iff.mp blocked
  have hblocked : call = .blocked := of_decide_eq_true hblocked
  rcases List.mem_or_eq_of_mem_set hcall with old | ended
  · exact absurd (hblocked ▸ old) absent
  · rw [ended] at hblocked
    cases failed <;> cases hblocked

theorem Sound.wake (sound : Sound c s) (here : s.calls[n]? = some .blocked) :
    Sound c (s.set n .waking) :=
  sound.moved here (fun _ => Nat.le_refl _) rfl rfl rfl
    (sound.rouse here (by simp) (Nat.le_add_right _ 1))

/-- The call that is woken takes over for the one that wakes it. -/
theorem Sound.notifyOne {m : Nat} {failed : Bool} (sound : Sound c s)
    (here : s.calls[n]? = some (.notifying failed)) (there : s.calls[m]? = some .blocked) :
    Sound c ((s.set n (Call.ended failed)).set m .waking) := by
  have differ : m ≠ n := by
    rintro rfl
    rw [here] at there
    cases there
  have still : (s.set m .waking).calls[n]? = some (.notifying failed) := by
    rw [← here]
    exact List.getElem?_set_ne differ
  have swap : (s.set n (Call.ended failed)).set m .waking =
      (s.set m .waking).set n (Call.ended failed) :=
    congrArg (fun calls => { s with calls := calls }) (List.set_comm _ _ differ.symm)
  rw [swap]
  refine (sound.wake there).ended still fun blocked => ?_
  have blockedFirst := count_set .waking (· = .blocked) there
  have rousedFirst := count_set .waking Call.rouses there
  have blockedSecond := count_set (.ended failed) (· = .blocked) still
  have rousedSecond := count_set (.ended failed) Call.rouses still
  have quiet : Call.ended failed ≠ .blocked := by
    cases failed <;> decide
  simp only [quiet, decide_false, decide_true, reduceCtorEq, Bool.toNat_false, Bool.toNat_true]
    at blockedFirst blockedSecond
  simp only [Call.rouses, Bool.toNat_false, Bool.toNat_true] at rousedFirst rousedSecond
  have before := sound.roused (by omega)
  change s.connections.length ≤ _
  omega

theorem Sound.step {act : Act} (sound : Sound c s) (h : c.system.step s act = some s') :
    Sound c s' := by
  cases moves h with
  | acquire =>
    have same (p : Call → Bool) (idle : p .locking = false) :
        State.count { s with calls := s.calls ++ [.locking] } p = s.count p := by
      rw [count_snoc, idle]
      rfl
    have owned (id : Nat) : State.owners { s with calls := s.calls ++ [.locking] } id =
        s.owners id :=
      congrArg (s.connections.count (some id) + ·) (same _ rfl)
    refine ⟨fun id => owned id ▸ sound.unique id,
      fun id new => (owned id).trans (sound.fresh id new), sound.known, ?_, ?_, ?_, ?_⟩
    · exact (congrArg (s.connections.length + ·) (same Call.holds rfl)).trans sound.slots
    · exact sound.waiting.trans (congrArg Nat.cast (same Call.waits rfl).symm)
    · exact sound.timeouts.trans (congrArg Nat.cast (same (· = .busy) rfl).symm)
    · rw [same _ rfl, same _ rfl]
      exact sound.roused
  | look here looks => exact sound.look here looks
  | check here => exact sound.check here
  | @release n id here =>
    refine sound.moved here (fun other => ?_) ?_ rfl rfl (sound.rouse here (by simp) ?_)
    · rw [List.count_append, List.count_singleton]
      by_cases same : id = other
      · simp [same, Call.connection]
      · simp [same, Call.connection]
    · simp [Call.holds]
    · simp [Call.rouses]
  | giveUp here =>
    refine sound.moved here (fun other => ?_) ?_ rfl rfl (sound.rouse here (by simp) ?_)
    · simp [List.count_append, Call.connection]
    · simp [Call.holds]
    · simp [Call.rouses]
  | notifyOne here there => exact sound.notifyOne here there
  | notifyNone here absent => exact sound.notifyNone here absent
  | wake here => exact sound.wake here
  | expire here =>
    exact sound.moved here (fun _ => Nat.le_refl _) rfl rfl rfl
      (sound.rouse here (by simp) (Nat.le_refl _))
  | lose known =>
    refine { sound with known := fun id hid => ?_ }
    rcases List.mem_cons.mp hid with rfl | old
    · exact known
    · exact sound.known id old

theorem sound (h : c.system.Reachable s) : Sound c s :=
  h.invariant .init fun _ _ _ sound h => sound.step h

theorem count_pos {p : Call → Bool} (here : s.calls[n]? = some call) (hp : p call) :
    0 < s.count p :=
  List.countP_pos_iff.mpr ⟨call, List.mem_of_getElem? here, hp⟩

theorem Sound.alone {m id : Nat} (sound : Sound c s) (here : s.calls[n]? = some call)
    (holds : call.connection = some id) :
    (∀ other, s.calls[m]? = some other → other.connection = some id → n = m) ∧
      some id ∉ s.connections := by
  have unique := sound.unique id
  rw [State.owners] at unique
  refine ⟨fun other there also => ?_, fun idle => ?_⟩
  · by_contra differ
    have less := count_set .released (fun call => call.connection = some id) here
    have still : (s.set n .released).calls[m]? = some other := by
      rw [← there]
      exact List.getElem?_set_ne differ
    have more : 0 < (s.set n .released).count fun call => call.connection = some id :=
      count_pos still (decide_eq_true also)
    rw [decide_eq_true holds, Bool.toNat_true] at less
    change _ + 1 = _ + 0 at less
    omega
  · have pooled := List.count_pos_iff.mpr idle
    have held : 0 < s.count fun call => call.connection = some id :=
      count_pos here (decide_eq_true holds)
    omega

theorem Sound.opened {connects : Bool} {id : Nat} (sound : Sound c s)
    (h : c.system.step s (.check n connects) = some s')
    (leased : s'.calls[n]? = some (.leased id)) : id ∉ s'.closed := by
  have move : Moves s (.check n connects) s' := moves h
  cases move with
  | @check _ connection _ here =>
    obtain ⟨within, _⟩ := List.getElem?_eq_some_iff.mp here
    have self (call : Call) : (s.set n call).calls[n]? = some call :=
      List.getElem?_set_self within
    unfold State.check at leased ⊢
    split at leased
    next other hfilter =>
      rw [self] at leased
      cases leased
      obtain ⟨_, hopen⟩ := Option.filter_eq_some_iff.mp hfilter
      rw [Bool.not_eq_true', List.contains_eq_mem, decide_eq_false_iff_not] at hopen
      exact hopen
    next hfilter =>
      split at leased
      next connects =>
        change (s.set n _).calls[n]? = _ at leased
        rw [self] at leased
        cases leased
        rw [if_pos connects]
        exact fun closed => Nat.lt_irrefl _ (sound.known _ closed)
      next =>
        rw [self] at leased
        cases leased

/-- No connection is lent twice and no place in the pool is lost, also when connections break and
cannot be made again. While a call is blocked, as many others as there are connections left are
going to wake a call or to look themselves; the statistics are true; and a connection that is lent
was open when it was checked. -/
theorem pool_safe (h : c.system.Reachable s) :
    (∀ (n m : Nat) (a b : Call) (id : Nat), s.calls[n]? = some a → s.calls[m]? = some b →
      a.connection = some id → b.connection = some id → n = m ∧ some id ∉ s.connections) ∧
    (.blocked ∈ s.calls → s.connections.length ≤ s.count Call.rouses) ∧
    c.statistics s = ⟨c.size, s.count Call.holds, s.count Call.waits, s.count (· = .busy)⟩ ∧
    ∀ n connects s' id, c.system.step s (.check n connects) = some s' →
      s'.calls[n]? = some (.leased id) → id ∉ s'.closed := by
  have sound := sound h
  refine ⟨fun n m a b id here there first second => ?_, fun blocked => ?_, ?_,
    fun n connects s' id => sound.opened⟩
  · obtain ⟨alone, apart⟩ := sound.alone (m := m) here first
    exact ⟨alone b there second, apart⟩
  · obtain ⟨n, here⟩ := List.getElem?_of_mem blocked
    exact sound.roused (count_pos here (decide_eq_true rfl))
  · have slots := sound.slots
    simp only [statistics, sound.waiting, sound.timeouts, Statistics.mk.injEq, true_and, and_true]
    omega

/-- Two calls share one connection, which breaks and cannot be made again at first. -/
def sharing : List Act :=
  [.acquire, .acquire, .lock 0, .check 0 true, .lock 1, .lose 0, .push 0, .notify 0 (some 1),
    .lock 1, .check 1 false, .push 1, .acquire, .lock 2, .check 2 true]

theorem pool_safe_sharing : ∃ s, (system ⟨1, Nat.one_pos⟩).Reachable s ∧
    s.calls = [.released, .notifying true, .leased 1] ∧
    statistics ⟨1, Nat.one_pos⟩ s = ⟨1, s.count Call.holds, s.count Call.waits,
      s.count (· = .busy)⟩ := by
  have run : ((system ⟨1, Nat.one_pos⟩).replay (fun _ _ => true) (system ⟨1, Nat.one_pos⟩).init
      sharing).map State.calls = some [.released, .notifying true, .leased 1] := by
    decide
  obtain ⟨s, hs, hcalls⟩ := Option.map_eq_some_iff.mp run
  have reachable := System.replay_reachable hs
  exact ⟨s, reachable, hcalls, (pool_safe reachable).2.2.1⟩

end Steps

end ConnectionPool

end Runyard
