import Runyard.FileSystem
import Runyard.System
import Runyard.Artifacts.Paths

/-!
# The blob store on a file system

`FilesystemStore::put` and `get` in `filesystem.cpp`, one system call at a time. The calls run
concurrently, any of their system calls may fail, and the machine may stop between any two of
them. `random_id` gives names that no path contains so far.
-/

namespace Runyard

/-- What `copy_file` reads. -/
inductive CopySource where
  | given (bytes : Bytes)
  | stored (directory : List Bytes) (name : Bytes)
  deriving DecidableEq

/-- The arguments of `atomic_copy` with the name of its temporary file. -/
structure CopyJob where
  source : CopySource
  parent : List Bytes
  name : Bytes
  temporary : Bytes
  deriving DecidableEq

inductive CopyStage where
  | searching (directory : List Bytes) (missing : List (List Bytes))
  /-- `create_directories` has come to the prefix of a length. -/
  | creating (missing : List (List Bytes)) (length : Nat)
  | opening (missing : List (List Bytes))
  | copying (missing : List (List Bytes)) (inode : Nat) (content : Bytes)
  | synchronizing (missing : List (List Bytes))
  | moving (missing : List (List Bytes))
  | synchronizingParent (missing : List (List Bytes))
  | synchronizingMissing (rest : List (List Bytes))
  | cleaning
  | returned
  | failed
  deriving DecidableEq

structure Copy extends CopyJob where
  stage : CopyStage
  deriving DecidableEq

/-- The names in the paths that a copy reads and writes. -/
def CopyJob.mentions (job : CopyJob) : List Bytes :=
  job.parent ++ job.name :: match job.source with
    | .given _ => []
    | .stored directory name => directory ++ [name]

/-- Neither copy mentions the temporary name of the other. -/
def CopyJob.apart (a b : CopyJob) : Bool :=
  a.temporary ≠ b.temporary && !b.mentions.contains a.temporary &&
    !a.mentions.contains b.temporary

/-- The stage after an exception: from `copy_file` on, the temporary file is removed. -/
def CopyStage.failing : CopyStage → Option CopyStage
  | .searching .. | .creating .. | .cleaning => some .failed
  | .opening _ | .copying .. | .synchronizing _ | .moving _ | .synchronizingParent _
  | .synchronizingMissing _ => some .cleaning
  | .returned | .failed => none

/-- A call that had not returned is lost. -/
def Copy.lost (call : Copy) : Copy :=
  if call.stage = .returned then call else { call with stage := .failed }

abbrev Disk := FileSystem Bytes Bytes

open FileSystem

def Disk.content (fs : Disk) : Option Entry → Option Bytes
  | some (.file i) => some (fs.files i)
  | _ => none

/-- What a path holds for those who read it. -/
def Disk.read (fs : Disk) (directory : List Bytes) (name : Bytes) : Option Bytes :=
  fs.content (find fs.entries directory name)

/-- `exists`. -/
def Disk.exists (fs : Disk) (path : List Bytes) : Bool :=
  match path.getLast? with
  | none => true
  | some name => (find fs.entries path.dropLast name).isSome

/-- The store below a directory. At the start everything is on the disk. -/
structure FilesystemStore where
  root : List Bytes
  initial : Disk
  tree : initial.Tree
  settled : initial.diskEntries = initial.entries
  kept : ∀ i, initial.diskFiles i = some (initial.files i)
  rooted : ∀ d name e, initial.entries d name = some e →
    walk initial.entries 0 (initial.location d) = some d

namespace FilesystemStore

structure State where
  fs : Disk
  calls : List Copy := []

inductive Act where
  | put (key file random : Bytes)
  | get (key : Bytes) (directory : List Bytes) (name random : Bytes)
  /-- The next system call of a copy. -/
  | advance (number : Nat)
  /-- A part of the file has been copied. -/
  | progress (number : Nat) (bytes : Bytes)
  | fail (number : Nat)
  | writeBack (inode : Nat) (name : Bytes)
  | crash (garbage : Nat → Bytes)

def temporaryName (name random : Bytes) : Bytes := name ++ utf8 ".tmp-" ++ random

/-- The file of a key. -/
def target (c : FilesystemStore) (key : Bytes) : List Bytes × Bytes :=
  let path := c.root ++ RelativePath.components key
  (path.dropLast, path.getLastD [])

def putJob (c : FilesystemStore) (key file random : Bytes) : CopyJob :=
  let (parent, name) := c.target key
  ⟨.given file, parent, name, temporaryName name random⟩

def getJob (c : FilesystemStore) (key : Bytes) (directory : List Bytes) (name random : Bytes) :
    CopyJob :=
  let (parent, stored) := c.target key
  ⟨.stored parent stored, directory, name, temporaryName name random⟩

/-- The temporary name of a call is new. -/
def fresh (s : State) (job : CopyJob) : Bool :=
  !job.mentions.contains job.temporary &&
    (find s.fs.entries job.parent job.temporary).isNone &&
    s.calls.all fun call => job.apart call.toCopyJob

def begin (s : State) (job : CopyJob) : Option State :=
  if fresh s job then some { s with calls := s.calls ++ [⟨job, .searching job.parent []⟩] }
  else none

def State.move (s : State) (number : Nat) (stage : CopyStage) : State :=
  { s with calls := s.calls.modify number fun call => { call with stage := stage } }

/-- The bytes of the source when it is opened. -/
def sourceBytes (fs : Disk) : CopySource → Option Bytes
  | .given bytes => some bytes
  | .stored directory name => fs.read directory name

/-- `create_directory` for the last component of a path. -/
def makeDirectoryAt (fs : Disk) (path : List Bytes) : Option Disk :=
  match path.getLast? with
  | none => some fs
  | some name =>
    match walk fs.entries 0 path.dropLast with
    | none => none
    | some d =>
      match fs.entries d name with
      | some (.directory _) => some fs
      | some (.file _) => none
      | none => some (fs.makeDirectory d name)

/-- The next system call of `atomic_copy`, on the file system and on the call. -/
def copyStep (fs : Disk) (job : CopyJob) : CopyStage → Option (Disk × CopyStage)
  | .searching directory missing =>
    if fs.exists directory then some (fs, .creating missing 0)
    else some (fs, .searching directory.dropLast (missing ++ [directory]))
  | .creating missing length =>
    if job.parent.length < length then some (fs, .opening missing)
    else match makeDirectoryAt fs (job.parent.take length) with
      | some fs' => some (fs', .creating missing (length + 1))
      | none => some (fs, .failed)
  | .opening missing =>
    match sourceBytes fs job.source, walk fs.entries 0 job.parent with
    | some content, some d =>
      if (fs.entries d job.temporary).isNone then
        some (fs.createFile d job.temporary [], .copying missing fs.next content)
      else some (fs, .cleaning)
    | _, _ => some (fs, .cleaning)
  | .copying missing i content => some (fs.write i content, .synchronizing missing)
  | .synchronizing missing =>
    match find fs.entries job.parent job.temporary with
    | some (.file i) => some (fs.syncFile i, .moving missing)
    | _ => some (fs, .cleaning)
  | .moving missing =>
    match walk fs.entries 0 job.parent with
    | none => some (fs, .cleaning)
    | some d =>
      match fs.entries d job.temporary, fs.entries d job.name with
      | some (.file _), some (.directory _) => some (fs, .cleaning)
      | some (.file i), _ =>
        some (fs.rename d job.temporary job.name (.file i), .synchronizingParent missing)
      | _, _ => some (fs, .cleaning)
  | .synchronizingParent missing =>
    match walk fs.entries 0 job.parent with
    | none => some (fs, .cleaning)
    | some d => some (fs.syncDirectory d, .synchronizingMissing missing)
  | .synchronizingMissing [] => some (fs, .returned)
  | .synchronizingMissing (directory :: rest) =>
    match walk fs.entries 0 directory.dropLast with
    | none => some (fs, .cleaning)
    | some d => some (fs.syncDirectory d, .synchronizingMissing rest)
  | .cleaning =>
    match walk fs.entries 0 job.parent with
    | none => some (fs, .failed)
    | some d =>
      match fs.entries d job.temporary with
      | some (.file _) => some (fs.relink d job.temporary none, .failed)
      | _ => some (fs, .failed)
  | .returned => none
  | .failed => none

variable (c : FilesystemStore)

def step (s : State) : Act → Option State
  | .put key file random =>
    if (validateRelativeBytes key).isOk then begin s (c.putJob key file random) else some s
  | .get key directory name random =>
    let job := c.getJob key directory name random
    if (validateRelativeBytes key).isOk && (sourceBytes s.fs job.source).isSome then begin s job
    else some s
  | .advance number => do
    let call ← s.calls[number]?
    let (fs, stage) ← copyStep s.fs call.toCopyJob call.stage
    some { s.move number stage with fs := fs }
  | .progress number bytes => do
    let call ← s.calls[number]?
    match call.stage with
    | .copying _ i _ => some { s with fs := s.fs.write i bytes }
    | _ => none
  | .fail number => do
    let call ← s.calls[number]?
    let stage ← call.stage.failing
    some (s.move number stage)
  | .writeBack inode name => some { s with fs := s.fs.writeBack inode name }
  | .crash garbage => some ⟨s.fs.crash garbage, s.calls.map Copy.lost⟩

def system : System State Act where
  init := ⟨c.initial, []⟩
  step := c.step

end FilesystemStore

end Runyard
