import Runyard.Runner.Delivery
import Mathlib.Data.List.Perm.Basic

/-!
# Overflow accounting

The buffer of `Reporter` against a client that acknowledges whatever was sent. A record that
does not fit is counted, and the count goes into a notice as soon as there is room for one.
-/

namespace Runyard

/-- No larger than the records that `log` and `metric` build. -/
def Telemetry.small (r : Telemetry) : Bool :=
  r.text.length ≤ 16000 && r.name.utf8ByteSize ≤ 200

/-- What the record says, without its number and its time. -/
def Telemetry.body (r : Telemetry) : Telemetry := { r with sequence := 0, timestampMs := 0 }

namespace Overflow

/-- The sender thread. -/
inductive Phase where
  | waiting | sending | backingOff | ended
  deriving DecidableEq

structure State where
  reporter : Reporter := {}
  phase : Phase := .waiting
  /-- The last sequence that was sent. -/
  lastSent : Int := 0
  /-- The highest acknowledgment. -/
  acknowledged : Int := 0
  /-- How many records were offered to `enqueue`, and those that it accepted. -/
  offered : Nat := 0
  accepted : List Telemetry := []
  /-- The counts printed in the overflow notices queued so far. -/
  counts : List Nat := []
  deriving DecidableEq

inductive Act where
  | enqueue (timestamp : Int) (record : Telemetry)
  | send
  | reply (timestamp ack : Int)
  | unavailable
  | refused (failure : Fault)
  | wake
  | stop

def step (s : State) : Act → Option State
  | .enqueue timestamp record =>
    if record.small then
      (s.reporter.enqueue timestamp record).map fun reporter =>
        { s with
          reporter := reporter
          offered := s.offered + 1
          accepted := if reporter.next = s.reporter.next then s.accepted
            else s.accepted ++ [record] }
    else none
  | .send =>
    if s.phase = .waiting && s.reporter.queue ≠ [] then
      let last := (Reporter.fill 0 0 s.reporter.queue).getLast?.map (·.sequence)
      some { s with phase := .sending, lastSent := max s.lastSent (last.getD 0) }
    else none
  | .reply timestamp ack =>
    if s.phase = .sending && ack ≤ s.lastSent then
      let reporter := s.reporter.acknowledge timestamp ack
      some { s with
        reporter := reporter
        phase := .waiting
        acknowledged := max s.acknowledged ack
        counts := if reporter.next = s.reporter.next then s.counts
          else s.counts ++ [s.reporter.dropped] }
    else none
  | .unavailable => if s.phase = .sending then some { s with phase := .backingOff } else none
  | .refused failure =>
    if s.phase = .sending then
      some { s with reporter.failure := some failure, phase := .ended }
    else none
  | .wake => if s.phase = .backingOff then some { s with phase := .waiting } else none
  | .stop => if s.phase = .sending then none else some { s with phase := .ended }

def system : System State Act where
  init := {}
  step := step

/-! ## The invariant -/

/-- The queue holds the last numbered records, and its bytes are counted. -/
structure Buffered (r : Reporter) (acknowledged : Int) : Prop where
  numbers : r.numbered.map (·.sequence) = upTo r.numbered.length
  next : r.next = r.numbered.length + 1
  bytes : r.bytes = (r.queue.map (·.size)).sum
  queue : ∃ popped, r.numbered = popped ++ r.queue ∧ (popped.length : Int) ≤ acknowledged

/-- Every offered record is accepted, counted as dropped, or counted in a notice. -/
structure Accounted (s : State) : Prop where
  buffered : Buffered s.reporter s.acknowledged
  limit : s.reporter.bytes ≤ bufferLimit
  nonnegative : 0 ≤ s.acknowledged
  dropped : s.reporter.dropped < 2 ^ 64
  unreported : 0 < s.reporter.dropped → s.reporter.queue ≠ []
  bodies : (s.reporter.numbered.map (·.body)).Perm
    (s.accepted.map (·.body) ++ s.counts.map Reporter.notice)
  congruent : s.offered % 2 ^ 64 =
    (s.accepted.length + s.reporter.dropped + s.counts.sum) % 2 ^ 64
  bound : s.accepted.length + s.reporter.dropped + s.counts.sum ≤ s.offered

section Buffer

variable {r : Reporter} {acknowledged : Int}

theorem push_size (r : Reporter) (timestamp : Int) (record : Telemetry) :
    (r.push timestamp record).bytes = r.bytes + record.size := by
  simp [Reporter.push, Telemetry.size]

theorem push_body (r : Reporter) (timestamp : Int) (record : Telemetry) :
    (r.push timestamp record).numbered.map (·.body) =
      r.numbered.map (·.body) ++ [record.body] := by
  simp [Reporter.push, Telemetry.body]

theorem push_next (r : Reporter) (timestamp : Int) (record : Telemetry) :
    (r.push timestamp record).next ≠ r.next := by
  simp [Reporter.push]

theorem push_queue (r : Reporter) (timestamp : Int) (record : Telemetry) :
    (r.push timestamp record).queue ≠ [] := by
  simp [Reporter.push]

@[simp] theorem push_dropped (r : Reporter) (timestamp : Int) (record : Telemetry) :
    (r.push timestamp record).dropped = r.dropped := rfl

theorem notice_size {dropped : Nat} (h : dropped < 2 ^ 64) :
    (Reporter.notice dropped).size < 1024 := by
  have hlength := notice_length h
  have hname : (Reporter.notice dropped).name.utf8ByteSize = 0 := rfl
  unfold Telemetry.size
  omega

theorem Buffered.push (buffered : Buffered r acknowledged) (timestamp : Int)
    (record : Telemetry) : Buffered (r.push timestamp record) acknowledged := by
  have hnext := buffered.next
  obtain ⟨popped, split, hpopped⟩ := buffered.queue
  refine ⟨numbers_push buffered.numbers hnext, ?_, ?_, popped, ?_, hpopped⟩
  · simp [Reporter.push, hnext]
  · simp [Reporter.push, buffered.bytes, Telemetry.size]
  · simp [Reporter.push, split]

/-- What popping removes was counted: no subtraction goes below zero. -/
theorem popAcknowledged_removed (queue : List Telemetry) (ack : Int) {bytes : Nat}
    (h : bytes = (queue.map (·.size)).sum) :
    ∃ removed, queue = removed ++ (Reporter.popAcknowledged ack queue bytes).1 ∧
      bytes = (removed.map (·.size)).sum + (Reporter.popAcknowledged ack queue bytes).2 := by
  induction queue generalizing bytes with
  | nil => exact ⟨[], rfl, by simp [Reporter.popAcknowledged]⟩
  | cons r rest ih =>
    rw [Reporter.popAcknowledged]
    split
    · rw [List.map_cons, List.sum_cons] at h
      have hrest : bytes - r.size = (rest.map (·.size)).sum := by omega
      obtain ⟨removed, hqueue, hbytes⟩ := ih hrest
      refine ⟨r :: removed, by rw [List.cons_append, ← hqueue], ?_⟩
      rw [List.map_cons, List.sum_cons]
      omega
    · exact ⟨[], rfl, by simp⟩

/-- The buffer without the acknowledged records. -/
def pop (ack : Int) (r : Reporter) : Reporter :=
  let rest := Reporter.popAcknowledged ack r.queue r.bytes
  { r with queue := rest.1, bytes := rest.2 }

theorem acknowledge_eq (r : Reporter) (timestamp ack : Int) :
    r.acknowledge timestamp ack =
      if 0 < r.dropped && (pop ack r).bytes < bufferLimit - 1024 then
        { (pop ack r).push timestamp (Reporter.notice r.dropped) with dropped := 0 }
      else pop ack r := rfl

theorem Buffered.pop (buffered : Buffered r acknowledged) (nonnegative : 0 ≤ acknowledged)
    (ack : Int) : Buffered (Overflow.pop ack r) (max acknowledged ack) ∧
      (Overflow.pop ack r).bytes ≤ r.bytes := by
  obtain ⟨popped, split, hpopped⟩ := buffered.queue
  obtain ⟨removed, _, hbytes⟩ := popAcknowledged_removed r.queue ack buffered.bytes
  obtain ⟨popped', split', hpopped'⟩ := popAcknowledged_queue ack
    (n := (max acknowledged ack).toNat) r.bytes buffered.numbers split (by omega) (by omega)
  refine ⟨⟨buffered.numbers, buffered.next, popAcknowledged_bytes ack buffered.bytes, popped',
    split', by omega⟩, ?_⟩
  dsimp only [Overflow.pop]
  omega

end Buffer

variable {s s' : State}

/-- A record is dropped only while something is queued. -/
theorem Accounted.full (accounted : Accounted s) {record : Telemetry} (small : record.small)
    (full : bufferLimit < s.reporter.bytes + record.size) : s.reporter.queue ≠ [] := by
  intro hempty
  have hbytes := accounted.buffered.bytes
  rw [hempty, List.map_nil, List.sum_nil] at hbytes
  simp only [Telemetry.small, Bool.and_eq_true, decide_eq_true_eq] at small
  simp only [bufferLimit, Telemetry.size, hbytes] at full
  omega

theorem Accounted.enqueue (accounted : Accounted s) {timestamp : Int} {record : Telemetry}
    (h : system.step s (.enqueue timestamp record) = some s') : Accounted s' := by
  change (if record.small then _ else none) = some s' at h
  by_cases small : record.small
  swap
  · rw [if_neg small] at h
    cases h
  rw [if_pos small] at h
  obtain ⟨reporter, hreporter, rfl⟩ := Option.map_eq_some_iff.mp h
  have hcongruent := accounted.congruent
  have hbound := accounted.bound
  unfold Reporter.enqueue at hreporter
  split at hreporter
  · cases hreporter
  split at hreporter
  · rename_i full
    cases hreporter
    have hmod := Nat.mod_le (s.reporter.dropped + 1) (2 ^ 64)
    refine { accounted with
      buffered := ⟨accounted.buffered.numbers, accounted.buffered.next, accounted.buffered.bytes,
        accounted.buffered.queue⟩
      dropped := Nat.mod_lt _ (by decide)
      unreported := fun _ => accounted.full small full
      bodies := by simpa using accounted.bodies
      congruent := ?_
      bound := ?_ }
    · simp only [if_true]
      omega
    · simp only [if_true]
      omega
  · rename_i room
    cases hreporter
    have grown := push_next s.reporter timestamp record
    refine ⟨accounted.buffered.push timestamp record, ?_, accounted.nonnegative,
      accounted.dropped, fun _ => push_queue _ _ _, ?_, ?_, ?_⟩
    · dsimp only
      rw [push_size]
      omega
    · simp only [if_neg grown, push_body, List.map_append, List.map_cons, List.map_nil]
      refine (accounted.bodies.append_right [record.body]).trans ?_
      rw [List.append_assoc, List.append_assoc]
      exact List.Perm.append_left _ List.perm_append_comm
    · simp only [if_neg grown, List.length_append, List.length_singleton, push_dropped]
      omega
    · simp only [if_neg grown, List.length_append, List.length_singleton, push_dropped]
      omega

theorem Accounted.reply (accounted : Accounted s) {timestamp ack : Int}
    (h : system.step s (.reply timestamp ack) = some s') : Accounted s' := by
  change (if s.phase = .sending && ack ≤ s.lastSent then some _ else none) = some s' at h
  obtain ⟨_, h⟩ := Option.ite_none_right_eq_some.mp h
  cases h
  obtain ⟨buffered, hle⟩ := accounted.buffered.pop accounted.nonnegative ack
  have hlimit := accounted.limit
  have hcongruent := accounted.congruent
  have hbound := accounted.bound
  have hnonnegative : 0 ≤ max s.acknowledged ack := le_max_of_le_left accounted.nonnegative
  rw [acknowledge_eq]
  split
  · -- There is room for a notice, and it takes the count over.
    rename_i room
    simp only [Bool.and_eq_true, decide_eq_true_eq] at room
    have pushed := buffered.push timestamp (Reporter.notice s.reporter.dropped)
    have hnotice := notice_size accounted.dropped
    have grown : ((pop ack s.reporter).push timestamp
        (Reporter.notice s.reporter.dropped)).next ≠ s.reporter.next :=
      push_next (pop ack s.reporter) _ _
    refine ⟨⟨pushed.numbers, pushed.next, pushed.bytes, pushed.queue⟩, ?_, hnonnegative,
      Nat.two_pow_pos 64, fun hdropped => absurd hdropped (by simp), ?_, ?_, ?_⟩
    · dsimp only
      rw [push_size]
      have hroom := room.2
      unfold bufferLimit at hroom ⊢
      omega
    · dsimp only
      rw [if_neg grown, push_body, List.map_append, ← List.append_assoc]
      exact accounted.bodies.append_right _
    · dsimp only
      rw [if_neg grown, List.sum_append, List.sum_singleton]
      omega
    · dsimp only
      rw [if_neg grown, List.sum_append, List.sum_singleton]
      omega
  · rename_i noRoom
    have same : (pop ack s.reporter).next = s.reporter.next := rfl
    have dropped : (pop ack s.reporter).dropped = s.reporter.dropped := rfl
    have numbered : (pop ack s.reporter).numbered = s.reporter.numbered := rfl
    refine ⟨buffered, le_trans hle hlimit, hnonnegative, accounted.dropped, ?_, ?_, ?_, ?_⟩
    · intro hdropped hempty
      dsimp only at hdropped hempty
      have hbytes := buffered.bytes
      rw [hempty, List.map_nil, List.sum_nil] at hbytes
      have hpositive : 0 < s.reporter.dropped := hdropped
      refine noRoom ?_
      rw [hbytes, Bool.and_eq_true, decide_eq_true_eq]
      exact ⟨hpositive, by decide⟩
    · simpa [same, numbered] using accounted.bodies
    · simpa [same, dropped] using hcongruent
    · simpa [same, dropped] using hbound

theorem Accounted.step {act : Act} (accounted : Accounted s)
    (h : system.step s act = some s') : Accounted s' := by
  cases act with
  | enqueue timestamp record => exact accounted.enqueue h
  | reply timestamp ack => exact accounted.reply h
  | send =>
    obtain ⟨_, h⟩ := Option.ite_none_right_eq_some.mp h
    cases h
    exact { accounted with }
  | unavailable | wake =>
    obtain ⟨_, h⟩ := Option.ite_none_right_eq_some.mp h
    cases h
    exact { accounted with }
  | refused failure =>
    obtain ⟨_, h⟩ := Option.ite_none_right_eq_some.mp h
    cases h
    exact { accounted with buffered := { accounted.buffered with } }
  | stop =>
    obtain ⟨_, h⟩ := Option.ite_none_left_eq_some.mp h
    cases h
    exact { accounted with }

theorem accounted_init : Accounted system.init where
  buffered := ⟨rfl, rfl, rfl, [], rfl, le_refl _⟩
  limit := Nat.zero_le _
  nonnegative := le_refl _
  dropped := by decide
  unreported := fun h => absurd h (by decide)
  bodies := .nil
  congruent := rfl
  bound := le_refl _

theorem accounted_reachable (hs : system.Reachable s) : Accounted s :=
  hs.invariant accounted_init fun _ _ _ accounted h => accounted.step h

/-- Overflow loses no record without a trace: what does not fit is counted and reported. -/
theorem overflow_accounting (hs : system.Reachable s) :
    -- The bytes are those of the queue, within the limit, and popping never underflows.
    (s.reporter.bytes = (s.reporter.queue.map (·.size)).sum ∧
      s.reporter.bytes ≤ 4 * 1024 * 1024 ∧
      ∀ ack, ∃ removed,
        s.reporter.queue =
          removed ++ (Reporter.popAcknowledged ack s.reporter.queue s.reporter.bytes).1 ∧
        s.reporter.bytes = (removed.map (·.size)).sum +
          (Reporter.popAcknowledged ack s.reporter.queue s.reporter.bytes).2) ∧
    -- The queued sequences are consecutive and end before the next one.
    s.reporter.queue.map (·.sequence) = (upTo s.reporter.queue.length).map
      (fun i => s.reporter.next - 1 - s.reporter.queue.length + i) ∧
    -- The numbered records are the accepted ones and notices with the counts, ...
    (s.reporter.numbered.map (·.body)).Perm
      (s.accepted.map (·.body) ++ s.counts.map Reporter.notice) ∧
    -- ... which account for all records that were offered (`dropped_` counts modulo 2^64).
    (s.offered % 2 ^ 64 =
        (s.accepted.length + s.reporter.dropped + s.counts.sum) % 2 ^ 64 ∧
      (s.offered < 2 ^ 64 →
        s.offered = s.accepted.length + s.reporter.dropped + s.counts.sum)) ∧
    -- When `flush` returns, nothing is unreported and every number is acknowledged.
    (∀ v, s.reporter.flush = .ok v → s.reporter.dropped = 0 ∧ v = s.reporter.next - 1 ∧
      ∀ r ∈ s.reporter.numbered, r.sequence ≤ s.acknowledged) := by
  have accounted := accounted_reachable hs
  obtain ⟨popped, split, hpopped⟩ := accounted.buffered.queue
  have hnext := accounted.buffered.next
  have hcongruent := accounted.congruent
  have hbound := accounted.bound
  refine ⟨⟨accounted.buffered.bytes, accounted.limit, fun ack =>
    popAcknowledged_removed _ ack accounted.buffered.bytes⟩, ?_, accounted.bodies,
    ⟨hcongruent, fun hsmall => ?_⟩, ?_⟩
  · have hnumbers := accounted.buffered.numbers
    have hlength := congrArg List.length split
    rw [List.length_append] at hlength
    refine List.ext_getElem (by simp [upTo]) fun i hi hi' => ?_
    rw [List.length_map] at hi
    have hget := congrArg (fun l : List Int => l[popped.length + i]?) hnumbers
    rw [split] at hget
    have hat : (popped ++ s.reporter.queue)[popped.length + i]? = some s.reporter.queue[i] := by
      rw [List.getElem?_append_right (Nat.le_add_right _ _), Nat.add_sub_cancel_left,
        List.getElem?_eq_getElem hi]
    simp only [List.getElem?_map, hat, Option.map_some, upTo] at hget
    rw [List.getElem?_range (by rw [← split]; omega)] at hget
    simp only [Option.map_some, Option.some.injEq] at hget
    simp only [List.getElem_map, upTo, List.getElem_range, hget]
    omega
  · rw [Nat.mod_eq_of_lt hsmall, Nat.mod_eq_of_lt (by omega)] at hcongruent
    exact hcongruent
  · intro v hflush
    obtain ⟨hempty, hv⟩ := ReporterSetup.flush_ok hflush
    refine ⟨?_, hv, fun r hr => ?_⟩
    · by_contra hne
      exact accounted.unreported (Nat.pos_of_ne_zero hne) hempty
    · have hmem : r.sequence ∈ upTo s.reporter.numbered.length := by
        rw [← accounted.buffered.numbers]
        exact List.mem_map_of_mem hr
      have hle := upTo_bound hmem
      rw [split, hempty, List.append_nil] at hle
      omega

/-! ## An empty buffer -/

section Drain

variable {r : Reporter} {timestamp ack : Int}

theorem push_fits {record : Telemetry} (fits : ∀ q ∈ r.numbered, q.size ≤ 256 * 1024)
    (hrecord : record.size ≤ 256 * 1024) :
    ∀ q ∈ (r.push timestamp record).numbered, q.size ≤ 256 * 1024 := by
  intro q hq
  rcases List.mem_append.mp hq with hq | hq
  · exact fits q hq
  · rw [List.mem_singleton.mp hq]
    exact hrecord

/-- Every record fits into a batch. -/
theorem numbered_fits (hs : system.Reachable s) :
    ∀ q ∈ s.reporter.numbered, q.size ≤ 256 * 1024 := by
  refine System.Leads.stable System.reachable_init hs
    (P := fun s => ∀ q ∈ s.reporter.numbered, q.size ≤ 256 * 1024) ?_ ?_
  · exact fun q hq => absurd hq List.not_mem_nil
  intro s act s' reached fits _ h
  cases act with
  | enqueue timestamp record =>
    obtain ⟨small, h⟩ := Option.ite_none_right_eq_some.mp h
    obtain ⟨reporter, hreporter, rfl⟩ := Option.map_eq_some_iff.mp h
    simp only [Telemetry.small, Bool.and_eq_true, decide_eq_true_eq] at small
    unfold Reporter.enqueue at hreporter
    split at hreporter
    · cases hreporter
    split at hreporter
    · cases hreporter
      exact fits
    · cases hreporter
      refine push_fits fits ?_
      unfold Telemetry.size
      omega
  | reply timestamp ack =>
    obtain ⟨_, h⟩ := Option.ite_none_right_eq_some.mp h
    cases h
    dsimp only
    rw [acknowledge_eq]
    split
    · have hnotice := notice_size (accounted_reachable reached).dropped
      exact push_fits fits (by omega)
    · exact fits
  | send | unavailable | wake | refused failure =>
    obtain ⟨_, h⟩ := Option.ite_none_right_eq_some.mp h
    cases h
    exact fits
  | stop =>
    obtain ⟨_, h⟩ := Option.ite_none_left_eq_some.mp h
    cases h
    exact fits

theorem popAcknowledged_length (ack : Int) (queue : List Telemetry) (bytes : Nat) :
    (Reporter.popAcknowledged ack queue bytes).1.length ≤ queue.length := by
  induction queue generalizing bytes with
  | nil => exact le_refl _
  | cons first rest ih =>
    rw [Reporter.popAcknowledged]
    split
    · exact (ih _).trans (Nat.le_succ _)
    · exact le_refl _

/-- The record at the front of the queue is sent, and its acknowledgment removes it. -/
theorem front_sent (hs : system.Reachable s) {first : Telemetry} {rest : List Telemetry}
    (queue : s.reporter.queue = first :: rest) :
    ∃ last, (Reporter.fill 0 0 s.reporter.queue).getLast?.map (·.sequence) = some last ∧
      first.sequence ≤ last := by
  obtain ⟨popped, split, _⟩ := (accounted_reachable hs).buffered.queue
  have numbers := (accounted_reachable hs).buffered.numbers
  have fits : first.size ≤ 256 * 1024 := by
    refine numbered_fits hs first ?_
    rw [split, queue]
    exact List.mem_append_right _ List.mem_cons_self
  have filled : Reporter.fill 0 0 s.reporter.queue =
      first :: Reporter.fill (0 + 1) (0 + first.size) rest := by
    rw [queue, Reporter.fill, if_neg]
    simpa using fits
  rw [filled, List.getLast?_cons]
  refine ⟨_, rfl, ?_⟩
  cases hlast : (Reporter.fill (0 + 1) (0 + first.size) rest).getLast? with
  | none => exact le_refl _
  | some last =>
    have hmem := List.mem_of_getLast? hlast
    have sent := fill_prefix (0 + 1) (0 + first.size) (by omega) rest
    have hrest := sent.1.subset hmem
    obtain ⟨before, after, hsplit⟩ := List.append_of_mem hrest
    rw [queue] at split
    have hfirst := sequence_of_split numbers split
    rw [hsplit, ← List.cons_append, ← List.append_assoc] at split
    have hat := sequence_of_split numbers split
    rw [List.length_append, List.length_cons] at hat
    change first.sequence ≤ last.sequence
    omega

/-- One batch and the acknowledgment of its first record. -/
theorem round (hs : system.Reachable s) (waiting : s.phase = .waiting)
    (queued : s.reporter.queue ≠ []) :
    ∃ s', system.Later s s' ∧ s'.phase = .waiting ∧ s'.reporter.failure = s.reporter.failure ∧
      s'.offered = s.offered ∧ s'.accepted = s.accepted ∧
      (s'.reporter.dropped = s.reporter.dropped ∧ s'.counts = s.counts ∧
          s'.reporter.queue.length < s.reporter.queue.length ∨
        0 < s.reporter.dropped ∧ s'.reporter.dropped = 0 ∧
          s'.counts = s.counts ++ [s.reporter.dropped] ∧
          s'.reporter.queue.length ≤ s.reporter.queue.length) := by
  obtain ⟨first, rest, queue⟩ := List.exists_cons_of_ne_nil queued
  obtain ⟨last, sent, hfirst⟩ := front_sent hs queue
  have send : system.step s .send =
      some { s with phase := .sending, lastSent := max s.lastSent last } := by
    change (if s.phase = .waiting && s.reporter.queue ≠ [] then _ else none) = _
    rw [if_pos (by simp [waiting, queued]), sent]
    rfl
  have shorter : (pop first.sequence s.reporter).queue.length < s.reporter.queue.length := by
    dsimp only [pop]
    rw [queue, Reporter.popAcknowledged, if_pos (le_refl _)]
    exact Nat.lt_succ_of_le (popAcknowledged_length _ _ _)
  have allowed : first.sequence ≤ max s.lastSent last := le_max_of_le_right hfirst
  obtain ⟨s', reply, hphase, hoffered, haccepted, hreporter, hcounts⟩ :
      ∃ s', system.step { s with phase := .sending, lastSent := max s.lastSent last }
          (.reply 0 first.sequence) = some s' ∧
        s'.phase = .waiting ∧ s'.offered = s.offered ∧ s'.accepted = s.accepted ∧
        s'.reporter = s.reporter.acknowledge 0 first.sequence ∧
        s'.counts = if s'.reporter.next = s.reporter.next then s.counts
          else s.counts ++ [s.reporter.dropped] := by
    refine ⟨_, if_pos ?_, rfl, rfl, rfl, rfl, rfl⟩
    simpa using allowed
  refine ⟨s', .step (.single trivial send) trivial reply, hphase, ?_, hoffered, haccepted, ?_⟩
  · rw [hreporter, acknowledge_eq]
    split <;> rfl
  rw [acknowledge_eq] at hreporter
  by_cases room : 0 < s.reporter.dropped &&
      (pop first.sequence s.reporter).bytes < bufferLimit - 1024
  · rw [if_pos room] at hreporter
    have numbered : s'.reporter.next ≠ s.reporter.next := by
      rw [hreporter]
      exact push_next (pop first.sequence s.reporter) 0 (Reporter.notice s.reporter.dropped)
    rw [if_neg numbered] at hcounts
    rw [Bool.and_eq_true, decide_eq_true_eq] at room
    refine .inr ⟨room.1, by rw [hreporter], hcounts, ?_⟩
    rw [hreporter]
    dsimp only [Reporter.push]
    rw [List.length_append, List.length_singleton]
    exact shorter
  · rw [if_neg room] at hreporter
    rw [if_pos (by rw [hreporter]; rfl)] at hcounts
    exact .inl ⟨by rw [hreporter]; rfl, hcounts, by rw [hreporter]; exact shorter⟩

/-- What `drained` is an induction on. -/
def left (s : State) : Nat :=
  s.reporter.queue.length + if s.reporter.dropped = 0 then 0 else 1

/-- Acknowledgments empty the buffer, and the dropped records are counted in one notice. -/
theorem drained (hs : system.Reachable s) (waiting : s.phase = .waiting) :
    ∃ s', system.Later s s' ∧ s'.reporter.queue = [] ∧
      s'.reporter.failure = s.reporter.failure ∧ s'.offered = s.offered ∧
      s'.accepted = s.accepted ∧
      s'.counts = s.counts ++ if s.reporter.dropped = 0 then [] else [s.reporter.dropped] := by
  induction hn : left s using Nat.strongRecOn generalizing s with
  | ind n ih =>
    by_cases empty : s.reporter.queue = []
    · have none : s.reporter.dropped = 0 := by
        by_contra hne
        exact (accounted_reachable hs).unreported (Nat.pos_of_ne_zero hne) empty
      rw [if_pos none, List.append_nil]
      exact ⟨s, .refl, empty, rfl, rfl, rfl, rfl⟩
    · obtain ⟨mid, run, hphase, hfailure, hoffered, haccepted, outcome⟩ := round hs waiting empty
      have fewer : left mid < n := by
        rw [← hn, left, left]
        rcases outcome with ⟨hdropped, _, hqueue⟩ | ⟨positive, hdropped, _, hqueue⟩
        · rw [hdropped]
          omega
        · rw [hdropped, if_pos rfl, if_neg (Nat.pos_iff_ne_zero.mp positive)]
          omega
      obtain ⟨s', rest, hempty, hfailure', hoffered', haccepted', hcounts⟩ :=
        ih (left mid) fewer (hs.later run) hphase rfl
      refine ⟨s', run.trans rest, hempty, hfailure'.trans hfailure, hoffered'.trans hoffered,
        haccepted'.trans haccepted, ?_⟩
      rcases outcome with ⟨hdropped, hsame, _⟩ | ⟨positive, hdropped, hsame, _⟩
      · rw [hcounts, hdropped, hsame]
      · rw [hcounts, hdropped, hsame, if_pos rfl, List.append_nil,
          if_neg (Nat.pos_iff_ne_zero.mp positive)]

end Drain

/-- 260 records of this size fit into the buffer. -/
theorem filled {record : Telemetry} (size : record.size = 16128) (small : record.small) {n : Nat}
    (h : n ≤ 260) : ∃ s, system.Reachable s ∧ s.phase = .waiting ∧ s.reporter.failure = none ∧
      s.reporter.bytes = n * 16128 ∧ s.reporter.dropped = 0 ∧ s.offered = n ∧
      s.accepted = List.replicate n record ∧ s.counts = [] := by
  induction n with
  | zero => exact ⟨system.init, System.reachable_init, rfl, rfl, rfl, rfl, rfl, rfl, rfl⟩
  | succ n ih =>
    obtain ⟨s, hs, waiting, healthy, bytes, dropped, offered, accepted, counts⟩ := ih (by omega)
    have room : s.reporter.enqueue 1 record = some (s.reporter.push 1 record) := by
      rw [Reporter.enqueue, if_neg (by simp [healthy]), if_neg]
      rw [bytes, size, bufferLimit]
      omega
    have enqueued : system.step s (.enqueue 1 record) =
        some { s with
          reporter := s.reporter.push 1 record
          offered := s.offered + 1
          accepted := s.accepted ++ [record] } := by
      change (if record.small then _ else none) = _
      rw [if_pos small, room, Option.map_some, if_neg (push_next _ _ _)]
    refine ⟨_, hs.step enqueued, waiting, healthy, ?_, dropped, congrArg (· + 1) offered, ?_,
      counts⟩
    · rw [push_size, bytes, size]
      omega
    · rw [accepted, List.replicate_succ']

/-- A record that does not fit is dropped. -/
theorem overflowed {record : Telemetry} (small : record.small) (healthy : s.reporter.failure = none)
    (full : bufferLimit < s.reporter.bytes + record.size) (dropped : s.reporter.dropped = 0) :
    system.step s (.enqueue 1 record) =
      some { s with
        reporter := { s.reporter with dropped := 1 }
        offered := s.offered + 1 } := by
  have lost : s.reporter.enqueue 1 record = some { s.reporter with dropped := 1 } := by
    rw [Reporter.enqueue, if_neg (by simp [healthy]), if_pos full, dropped]
    rfl
  change (if record.small then _ else none) = _
  rw [if_pos small, lost, Option.map_some, if_pos rfl]

def Sample.line : Telemetry where
  kind := "stdout"
  text := List.replicate 16000 65

theorem Sample.line_size : line.size = 16128 := by
  have name : line.name.utf8ByteSize = 0 := rfl
  rw [Telemetry.size, name, line, List.length_replicate]

theorem Sample.line_small : line.small := by
  have name : line.name.utf8ByteSize = 0 := rfl
  rw [Telemetry.small, name, line, List.length_replicate]
  rfl

/-- One record too many for the buffer, which the server then acknowledges. -/
theorem overflow_accounting_flushed : ∃ s : State, system.Reachable s ∧ s.offered = 261 ∧
    s.accepted = List.replicate 260 Sample.line ∧ s.counts = [1] ∧
    (s.reporter.numbered.map (·.body)).Perm
      (s.accepted.map (·.body) ++ [Reporter.notice 1]) ∧
    s.reporter.flush = .ok 261 ∧ ∀ r ∈ s.reporter.numbered, r.sequence ≤ s.acknowledged := by
  obtain ⟨full, hfull, waiting, healthy, bytes, dropped, offered, accepted, counts⟩ :=
    filled Sample.line_size Sample.line_small (le_refl 260)
  have lost := overflowed Sample.line_small healthy
    (by rw [bytes, Sample.line_size, bufferLimit]; omega) dropped
  obtain ⟨s, run, hqueue, hfailure, hoffered, haccepted, hcounts⟩ :=
    drained (hfull.step lost) waiting
  have hs := (hfull.step lost).later run
  replace haccepted : s.accepted = List.replicate 260 Sample.line := haccepted.trans accepted
  replace hcounts : s.counts = [1] := by
    rw [hcounts, counts]
    rfl
  obtain ⟨_, _, bodies, _, settled⟩ := overflow_accounting hs
  rw [hcounts] at bodies
  have numbered : s.reporter.numbered.length = 261 := by
    have count := bodies.length_eq
    rw [haccepted, List.length_append, List.length_map, List.length_map,
      List.length_replicate] at count
    exact count
  have flushed : s.reporter.flush = .ok 261 := by
    have next := (accounted_reachable hs).buffered.next
    rw [numbered] at next
    rw [Reporter.flush, hqueue, hfailure.trans healthy, next]
    rfl
  exact ⟨s, hs, hoffered.trans (congrArg (· + 1) offered), haccepted, hcounts, bodies, flushed,
    (settled 261 flushed).2.2⟩

end Overflow

end Runyard
