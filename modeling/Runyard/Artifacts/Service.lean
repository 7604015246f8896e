import Runyard.Store.Queries
import Mathlib.Logic.Function.Basic

/-!
# The artifact service

`ArtifactService::publish` and `download` in `artifacts.cpp`, step by step, against the store and a
blob store. `put` stores the whole file or nothing, and may fail after it stored; `get` delivers any
bytes. The calls run concurrently with each other and with all other transactions, and a call
can end with an exception between any two of its steps.
-/

namespace Runyard

inductive PublishStage where
  | checked | owned | stored | returned (row : Artifact) | failed
  deriving DecidableEq

/-- The arguments of a `publish` call with the bytes of its file, and how far it is. -/
structure Publish where
  attempt : String
  generation : Int
  caller : String
  relative : String
  expected : String
  file : Bytes
  stage : PublishStage := .checked
  deriving DecidableEq

inductive DownloadStage where
  | looking | fetching | fetched (bytes : Bytes) | returned | failed
  deriving DecidableEq

/-- A `download` call that found its artifact. -/
structure Download where
  artifact : Artifact
  stage : DownloadStage := .looking
  deriving DecidableEq

/-- The service with `sha256_file`, whose digests are written in hexadecimal. -/
structure ArtifactService where
  store : PostgresStore
  digest : Bytes → String
  injective : Function.Injective digest
  hex : ∀ bytes, ∀ ch ∈ (digest bytes).toList, lowerHex ch

namespace ArtifactService

structure State where
  store : PostgresStore.State
  blobs : String → Option Bytes
  /-- The files `downloads/<id>`. -/
  files : String → Option Bytes
  publishes : List Publish := []
  downloads : List Download := []
  /-- Which call inserted each row. -/
  inserted : List (Nat × Artifact) := []

inductive Act where
  /-- A transaction that publishes no artifact. -/
  | other (now : Int) (op : Op)
  | publish (call : Publish)
  | verify (now : Int) (number : Nat)
  | put (number : Nat)
  | putFails (number : Nat) (stored : Bool)
  | record (now : Int) (number : Nat)
  | interrupt (number : Nat)
  | lookup (id : String)
  | check (number : Nat)
  | get (number : Nat) (bytes : Bytes)
  | install (number : Nat)
  | abort (number : Nat)

def State.publishAt (s : State) (number : Nat) (stage : PublishStage) : Option Publish :=
  s.publishes[number]?.filter fun call => call.stage = stage

def State.advance (s : State) (number : Nat) (stage : PublishStage) : State :=
  { s with publishes := s.publishes.modify number fun call => { call with stage := stage } }

def State.downloadAt (s : State) (number : Nat) (stage : DownloadStage) : Option Download :=
  s.downloads[number]?.filter fun call => call.stage = stage

def State.proceed (s : State) (number : Nat) (stage : DownloadStage) : State :=
  { s with downloads := s.downloads.modify number fun call => { call with stage := stage } }

def State.write (s : State) (key : String) (file : Bytes) : State :=
  { s with blobs := Function.update s.blobs key (some file) }

/-- Write down the row that a call inserted, if the table of artifacts changed. -/
def State.note (s : State) (number : Nat) (row : Artifact) (before : List Artifact) : State :=
  if s.store.db.artifacts = before then s
  else { s with inserted := s.inserted ++ [(number, row)] }

variable (c : ArtifactService)

/-- The checks of `publish` before the store is asked. -/
def inspect (call : Publish) : Result Unit := do
  validateRelativePath call.relative
  throwIf (c.digest call.file ≠ call.expected) .invalid "artifact checksum mismatch"
  throwIf (256 * 1024 * 1024 < call.file.length) .exhausted "artifact exceeds 256 MiB"

def artifact (call : Publish) : Artifact where
  id := c.store.sha256 (call.attempt ++ ":" ++ call.relative)
  attemptId := call.attempt
  path := call.relative
  storageKey := call.attempt ++ "/" ++ c.store.sha256 call.relative ++ "-" ++ c.digest call.file
  sha256 := c.digest call.file
  size := call.file.length

def execute (now : Int) (op : Op) (s : State) : State :=
  { s with store := ⟨c.store.commit now op s.store.db, now⟩ }

/-- The bytes are those that the artifact promises. -/
def verified (artifact : Artifact) (bytes : Bytes) : Bool := c.digest bytes = artifact.sha256

def step (s : State) : Act → Option State
  | .other now op =>
    if op.publishes || now < s.store.clock then none else some (c.execute now op s)
  | .publish call =>
    let stage := if (c.inspect call).isOk then .checked else .failed
    some { s with publishes := s.publishes ++ [{ call with stage := stage }] }
  | .verify now number => do
    let call ← s.publishAt number .checked
    if now < s.store.clock then none
    else
      let stage := if (verifyOwner now call.attempt call.generation call.caller s.store.db).isOk
        then .owned else .failed
      some (c.execute now (.verifyOwner call.attempt call.generation call.caller)
        (s.advance number stage))
  | .put number => do
    let call ← s.publishAt number .owned
    some ((s.advance number .stored).write (c.artifact call).storageKey call.file)
  | .putFails number stored => do
    let call ← s.publishAt number .owned
    some (if stored then (s.advance number .failed).write (c.artifact call).storageKey call.file
      else s.advance number .failed)
  | .record now number => do
    let call ← s.publishAt number .stored
    if now < s.store.clock then none
    else
      let value := c.artifact call
      let stage := match publishArtifact now value call.generation call.caller s.store.db with
        | .ok (_, row) => .returned row
        | .error _ => .failed
      let after := c.execute now (.publishArtifact value call.generation call.caller)
        (s.advance number stage)
      some (after.note number value s.store.db.artifacts)
  | .interrupt number =>
    if [PublishStage.checked, .owned, .stored].any fun stage =>
        (s.publishAt number stage).isSome then
      some (s.advance number .failed)
    else none
  | .lookup id => match getArtifact id s.store.db with
    | .ok row => some { s with downloads := s.downloads ++ [⟨row, .looking⟩] }
    | .error _ => some s
  | .check number => do
    let call ← s.downloadAt number .looking
    let hit := (s.files call.artifact.id).any (c.verified call.artifact)
    some (s.proceed number (if hit then .returned else .fetching))
  | .get number bytes => do
    let _ ← s.downloadAt number .fetching
    some (s.proceed number (.fetched bytes))
  | .install number => match s.downloads[number]? with
    | some ⟨row, .fetched bytes⟩ =>
      if c.verified row bytes then
        some { s.proceed number .returned with
          files := Function.update s.files row.id (some bytes) }
      else some (s.proceed number .failed)
    | _ => none
  | .abort number => match s.downloads[number]? with
    | some call => if call.stage = .returned then none else some (s.proceed number .failed)
    | none => none

/-- The blobs and cached files that are there before are arbitrary. -/
def system (blobs files : String → Option Bytes) : System State Act where
  init := { store := c.store.system.init, blobs := blobs, files := files }
  step := c.step

end ArtifactService

end Runyard
