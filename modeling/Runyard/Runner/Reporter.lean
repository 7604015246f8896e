import Runyard.Store.Operations
import Runyard.Utf8

/-!
# The telemetry reporter

`Reporter` in the runner's `telemetry.cpp` with its sender thread, and the store that executes
its reports. A request that was sent may be executed at any later time and more than
once, also after the client gave up on it. The reply to an execution reaches the sender only
while it still waits for that call.
-/

namespace Runyard

def bufferLimit : Nat := 4 * 1024 * 1024

def Telemetry.size (r : Telemetry) : Nat := r.text.length + r.name.utf8ByteSize + 128

def utf8 (text : String) : Bytes := text.toList.flatMap String.utf8EncodeChar

/-! ## Logs -/

/-- The streams that `log` is called with. -/
inductive LogKind where
  | stdout | stderr | notice
  deriving DecidableEq, Repr

def LogKind.text : LogKind → String
  | .stdout => "stdout"
  | .stderr => "stderr"
  | .notice => "notice"

/-- `readable`; `replace` is the JSON library's replacement of invalid UTF-8. -/
def readable (replace : Bytes → Bytes) (text : Bytes) : Bytes :=
  (replace text).flatMap fun ch => if ch = 0 then utf8 "\\0" else [ch]

/-- The loop that moves `end` back to the start of a character. -/
def cut (clean : Bytes) : Nat → Nat
  | 0 => 0
  | last + 1 =>
    if (clean[last + 1]?).any Utf8.continuation then cut clean last else last + 1

/-- The loop of `log` over the text that is left, at most `fuel` times. -/
def pieces : Nat → Bytes → List Bytes
  | 0, _ => []
  | _ + 1, [] => []
  | fuel + 1, clean =>
    let last := cut clean (min clean.length 16000)
    clean.take last :: pieces fuel (clean.drop last)

/-- The records that `log` enqueues one after another. -/
def logRecords (replace : Bytes → Bytes) (kind : LogKind) (text : Bytes) : List Telemetry :=
  let clean := readable replace text
  (pieces clean.length clean).map fun piece => { kind := kind.text, text := piece }

/-! ## The buffer -/

/-- The members that the mutex guards; `numbered` is every record that got a number. -/
structure Reporter where
  queue : List Telemetry := []
  bytes : Nat := 0
  dropped : Nat := 0
  next : Int := 1
  failure : Option Fault := none
  numbered : List Telemetry := []
  deriving DecidableEq

namespace Reporter

/-- Give the record its number and append it to the queue. -/
def push (r : Reporter) (timestamp : Int) (record : Telemetry) : Reporter :=
  let record := { record with sequence := r.next, timestampMs := timestamp }
  { r with
    queue := r.queue ++ [record]
    bytes := r.bytes + record.size
    next := r.next + 1
    numbered := r.numbered ++ [record] }

/-- `enqueue`; `none` is the rethrown failure. -/
def enqueue (r : Reporter) (timestamp : Int) (record : Telemetry) : Option Reporter :=
  if r.failure.isSome then none
  else if bufferLimit < r.bytes + record.size then
    some { r with dropped := (r.dropped + 1) % 2 ^ 64 }
  else some (r.push timestamp record)

/-- The loop that fills a batch, which has `count` records of `bytes` bytes so far. -/
def fill (count bytes : Nat) : List Telemetry → List Telemetry
  | [] => []
  | r :: rest =>
    if 128 ≤ count || 256 * 1024 < bytes + r.size then []
    else r :: fill (count + 1) (bytes + r.size) rest

/-- The loop that removes acknowledged records from the front of the queue. -/
def popAcknowledged (ack : Int) : List Telemetry → Nat → List Telemetry × Nat
  | [], bytes => ([], bytes)
  | r :: rest, bytes =>
    if r.sequence ≤ ack then popAcknowledged ack rest (bytes - r.size) else (r :: rest, bytes)

def notice (dropped : Nat) : Telemetry where
  kind := "notice"
  text := utf8 ("Telemetry buffer overflow: dropped " ++ toString dropped ++ " records")

/-- What the sender does with an acknowledgment. -/
def acknowledge (r : Reporter) (timestamp ack : Int) : Reporter :=
  let rest := popAcknowledged ack r.queue r.bytes
  let r := { r with queue := rest.1, bytes := rest.2 }
  if 0 < r.dropped && r.bytes < bufferLimit - 1024 then
    { r.push timestamp (notice r.dropped) with dropped := 0 }
  else r

/-- `flush`, when its wait is over because the queue is empty, the sender failed or the
deadline passed. -/
def flush (r : Reporter) : Result Int :=
  if r.queue ≠ [] && r.failure.isNone then
    fault .unavailable "telemetry flush deadline exceeded"
  else match r.failure with
    | some failure => .error failure
    | none => .ok (r.next - 1)

end Reporter

/-- The sender thread: waiting for records, inside `client.report`, waiting to send again, or
ended. -/
inductive Sender where
  | waiting | sending (number : Nat) | backingOff | ended
  deriving DecidableEq

/-! ## Reporter and server -/

/-- One runner with the identity that its reports carry. -/
structure ReporterSetup where
  store : PostgresStore
  id : String
  generation : Int
  instanceId : String
  replace : Bytes → Bytes
  /-- The JSON library writes valid UTF-8 in place of any input. -/
  replaced : ∀ text, ∃ chars : List Char, replace text = chars.flatMap String.utf8EncodeChar

namespace ReporterSetup

variable (c : ReporterSetup)

structure State where
  store : PostgresStore.State
  reporter : Reporter := {}
  /-- What the running call of `log` has still to enqueue. -/
  pending : List Telemetry := []
  sender : Sender := .waiting
  /-- The batches sent so far; the number of a call is its position. -/
  sent : List (List Telemetry) := []
  /-- Call numbers with the acknowledgments that executions of them returned. -/
  replies : List (Nat × Int) := []
  deriving DecidableEq

inductive Act where
  /-- A transaction that is not a report on this attempt. -/
  | other (now : Int) (op : Op)
  | log (kind : LogKind) (text : Bytes)
  | enqueue (timestamp : Int)
  | metric (name : String) (step : Int) (value : Double) (timestamp : Int)
  | send
  | execute (now : Int) (number : Nat)
  | reply (timestamp ack : Int)
  | unavailable
  | refused (failure : Fault)
  | wake
  | stop

def reportOp (batch : List Telemetry) : Op := .report c.id c.generation c.instanceId batch

def execute (now : Int) (op : Op) (s : State) : State :=
  { s with store := ⟨c.store.commit now op s.store.db, now⟩ }

/-- The acknowledgment that the execution of a report returns. -/
def acknowledgment (now : Int) (batch : List Telemetry) (db : Db) : Option Int :=
  match report now c.id c.generation c.instanceId batch db with
  | .ok (_, ack) => some ack
  | .error _ => none

def metricRecord (name : String) (step : Int) (value : Double) : Telemetry :=
  { sequence := 1, kind := "metric", name := name, step := step, value := value }

def step (s : State) : Act → Option State
  | .other now op =>
    if op.reports? = some c.id || now < s.store.clock then none else some (c.execute now op s)
  | .log kind text =>
    if s.pending = [] then some { s with pending := logRecords c.replace kind text } else none
  | .enqueue timestamp => match s.pending with
    | [] => none
    | record :: rest => match s.reporter.enqueue timestamp record with
      | some reporter => some { s with reporter := reporter, pending := rest }
      | none => some { s with pending := [] }
  | .metric name step value timestamp =>
    if s.pending = [] then
      let record := metricRecord name step value
      match record.validate with
      | .error _ => some s
      | .ok () => match s.reporter.enqueue timestamp record with
        | some reporter => some { s with reporter := reporter }
        | none => some s
    else none
  | .send =>
    if s.sender = .waiting && s.reporter.queue ≠ [] then
      some { s with
        sender := .sending s.sent.length
        sent := s.sent ++ [Reporter.fill 0 0 s.reporter.queue] }
    else none
  | .execute now number => match s.sent[number]? with
    | none => none
    | some batch =>
      if now < s.store.clock then none
      else
        let replies := match c.acknowledgment now batch s.store.db with
          | some ack => (number, ack) :: s.replies
          | none => s.replies
        some { c.execute now (c.reportOp batch) s with replies := replies }
  | .reply timestamp ack => match s.sender with
    | .sending number =>
      if s.replies.contains (number, ack) then
        some { s with reporter := s.reporter.acknowledge timestamp ack, sender := .waiting }
      else none
    | _ => none
  | .unavailable => match s.sender with
    | .sending _ => some { s with sender := .backingOff }
    | _ => none
  | .refused failure => match s.sender with
    | .sending _ => some { s with reporter.failure := some failure, sender := .ended }
    | _ => none
  | .wake => if s.sender = .backingOff then some { s with sender := .waiting } else none
  | .stop => match s.sender with
    | .sending _ => none
    | _ => some { s with sender := .ended }

def system : System State Act where
  init := { store := c.store.system.init }
  step := c.step

/-- The event is no call of `log` or `metric`. -/
def quiet : Act → Bool
  | .log _ _ | .enqueue _ | .metric _ _ _ _ => false
  | _ => true

end ReporterSetup

end Runyard
