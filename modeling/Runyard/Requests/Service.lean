import Runyard.Requests.Sweeps
import Runyard.Serialization.Storage
import Runyard.Ledger.Aside

/-!
# Requests for runs and sweeps

The handlers of `api.cpp` that create runs, with `RunService` between them and the store. The
fingerprint of a request is the hash of its printed encoding, and for a rerun of the source. The
rows of the model hold the specifications that were written; what a request returns was read
back from their columns.
-/

namespace Runyard

structure Run where
  id : String
  spec : RunSpec
  status : RunStatus
  generation : Int
  activeAttempt : String
  sweepId : String
  parentRunId : String
  createdAt : Int
  updatedAt : Int

def RunRow.read (r : RunRow) (spec : RunSpec) : Run where
  id := r.id
  spec := spec
  status := r.status
  generation := r.generation
  activeAttempt := text r.activeAttempt
  sweepId := text r.sweepId
  parentRunId := text r.parentRunId
  createdAt := r.createdAt
  updatedAt := r.updatedAt

namespace FloatText

variable (t : FloatText)

/-- What decoding a column returned or threw. A document that passed `validate` is stored and
parsed, so the last branch is not reached for it. -/
def decodedRun : Option (Result RunSpec) → Result RunSpec
  | some spec => spec
  | none => .error .outOfRange

/-- No other branch is reached for the document of an accepted sweep. -/
def decodedSweep : Option (Decoding SweepSpec) → Result SweepSpec
  | some (.ok spec) => .ok spec
  | some (.error (.program e)) => .error e
  | _ => .error .outOfRange

def readSpec (s : RunSpec) : Result RunSpec := decodedRun (t.storedRun s)

def readSweepSpec (s : SweepSpec) : Result SweepSpec := decodedSweep (t.storedSweep s)

/-- `pg::run`. -/
def readRun (r : RunRow) : Result Run := (t.readSpec r.spec).map r.read

/-- `load_sweep` decodes the row that it found. -/
def readSweep (sweep : Sweep) : Result Sweep :=
  (t.readSweepSpec sweep.spec).map fun spec => { sweep with spec }

end FloatText

inductive Request where
  | submit (spec : RunSpec)
  | sweep (spec : SweepSpec)
  | rerun (id : String)
  deriving DecidableEq

/-- A request with its key and the identifiers that its transaction draws. -/
structure Call where
  key : String
  request : Request
  randomId : Nat → RandomId

inductive Response where
  | run (run : Run)
  | sweep (sweep : Sweep)

structure RunService where
  store : PostgresStore
  printer : FloatText

namespace RunService

variable (c : RunService)

def checkKey (key : String) : Result Unit :=
  throwIf (key = "" || 200 < key.utf8ByteSize) .invalid
    "Idempotency-Key must contain 1 to 200 characters"

def submit (now : Int) (randomId : RandomId) (spec : RunSpec) (key fingerprint : String)
    (db : Db) : Result (Db × Run) := do
  validateSubmission spec
  checkKey key
  let (db, row) ← Runyard.submit now randomId spec key fingerprint db
  return (db, ← c.printer.readRun row)

def sweep (now : Int) (randomId : Nat → RandomId) (spec : SweepSpec) (key fingerprint : String)
    (db : Db) : Result (Db × Sweep) := do
  checkKey key
  let runs ← expandSweep spec.base spec.grid
  let (db, result) ← submitSweep now randomId spec runs key fingerprint db
  return (db, ← c.printer.readSweep result)

def rerun (now : Int) (randomId : RandomId) (id key : String) (db : Db) : Result (Db × Run) := do
  checkKey key
  let (db, row) ← Runyard.rerun now randomId c.store.sha256 id key db
  return (db, ← c.printer.readRun row)

def fingerprint : Request → String
  | .submit spec => c.printer.runFingerprint c.store.sha256 spec
  | .sweep spec => c.printer.sweepFingerprint c.store.sha256 spec
  | .rerun id => c.store.sha256 ("rerun:" ++ id)

def handle (now : Int) (call : Call) (db : Db) : Result (Db × Response) :=
  match call.request with
  | .submit spec => (c.submit now (call.randomId 0) spec call.key
      (c.fingerprint call.request) db).map fun r => (r.1, .run r.2)
  | .sweep spec => (c.sweep now call.randomId spec call.key
      (c.fingerprint call.request) db).map fun r => (r.1, .sweep r.2)
  | .rerun id => (c.rerun now (call.randomId 0) id call.key db).map fun r => (r.1, .run r.2)

/-- The checks that a request passes before the store looks at its key. -/
def checked (call : Call) : Result Unit :=
  match call.request with
  | .submit spec => do
    validateSubmission spec
    checkKey call.key
  | .sweep spec => do
    checkKey call.key
    let _ ← expandSweep spec.base spec.grid
  | .rerun _ => checkKey call.key

/-! ## Requests among the other transactions -/

/-- What a request found, what it left and what it returned. -/
structure Answer where
  call : Call
  before : Db
  after : Db
  outcome : Result Response

structure State where
  db : Db
  clock : Int
  log : List Answer

/-- A request, or a transaction that has nothing to do with request keys. -/
inductive Act where
  | call (call : Call)
  | other (op : Op)

structure Event where
  now : Int
  act : Act

/-- A request that throws is rolled back. -/
def answer (now : Int) (call : Call) (db : Db) : Answer :=
  match c.handle now call db with
  | .ok (after, response) => ⟨call, db, after, .ok response⟩
  | .error e => ⟨call, db, db, .error e⟩

def system : System State Event where
  init := ⟨{}, c.store.created, []⟩
  step s e :=
    if s.clock ≤ e.now then
      match e.act with
      | .call call =>
        let answer := c.answer e.now call s.db
        some ⟨answer.after, e.now, s.log ++ [answer]⟩
      | .other op =>
        if op.requests then none else some ⟨c.store.commit e.now op s.db, e.now, s.log⟩
    else none

end RunService

end Runyard
