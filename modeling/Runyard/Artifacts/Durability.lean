import Runyard.Artifacts.Atomicity

/-!
# What a crash leaves of the blobs

A call that returns has brought its file and the directories that were missing to the disk. The
directory at which its search for missing ones ended may be in the cache alone, when another call
made it and failed or has not returned. Where that does not happen, a file that was put is there
after every crash.
-/

namespace Runyard

open FileSystem

namespace FilesystemStore

/-! ## Links -/

/-- The prefixes of a path with more than `m` and at most `m + k` components. -/
def above (path : List Bytes) (m : Nat) : Nat → List (List Bytes)
  | 0 => []
  | k + 1 => path.take (m + k + 1) :: above path m k

theorem above_snoc (path : List Bytes) (m k : Nat) :
    above path (m + 1) k ++ [path.take (m + 1)] = above path m (k + 1) := by
  induction k with
  | zero => rfl
  | succ k ih =>
    rw [above, List.cons_append, ih, above]
    congr 2
    omega

/-- The prefix with `m` components is on the disk, or a file stands in its place. -/
def Anchored (fs : Disk) (path : List Bytes) (m : Nat) : Prop :=
  (∃ a, walk fs.diskEntries 0 (path.take m) = some a) ∨
    ∃ l name d i, m = l + 1 ∧ path[l]? = some name ∧ walk fs.entries 0 (path.take l) = some d ∧
      fs.entries d name = some (.file i)

/-- From the prefix with `j` components on, the path to a file is on the disk. -/
def Linked (fs : Disk) (path : List Bytes) (name : Bytes) (j : Nat) : Prop :=
  ∃ a d i, walk fs.entries 0 (path.take j) = some a ∧ walk fs.diskEntries a (path.drop j) = some d ∧
    fs.diskEntries d name = some (.file i)

section Links

variable {fs fs' : Disk} {path : List Bytes} {name : Bytes} {lasting : Bytes → Prop} {m j : Nat}

theorem Anchored.grows (h : Anchored fs path m) (grows : Grows lasting fs fs')
    (lasts : ∀ part ∈ path, lasting part) : Anchored fs' path m := by
  rcases h with ⟨a, h⟩ | ⟨l, part, d, i, hm, hpart, hwalk, hentry⟩
  · exact .inl ⟨a, walk_kept grows.diskDirectories h⟩
  · obtain ⟨j, hj⟩ := grows.files d part i (lasts part (List.mem_of_getElem? hpart)) hentry
    exact .inr ⟨l, part, d, j, hm, hpart, walk_kept grows.directories hwalk, hj⟩

theorem Linked.grows (h : Linked fs path name j) (grows : Grows lasting fs fs')
    (lasts : lasting name) : Linked fs' path name j := by
  obtain ⟨a, d, i, hwalk, hdisk, hentry⟩ := h
  obtain ⟨k, hk⟩ := grows.diskFiles d name i lasts hentry
  exact ⟨a, d, k, walk_kept grows.directories hwalk, walk_kept grows.diskDirectories hdisk, hk⟩

theorem take_part {part : Bytes} {l : Nat} (h : path[l]? = some part) :
    path.take (l + 1) = path.take l ++ [part] := by
  rw [List.take_add_one, h]
  rfl

theorem walk_part {entries : Nat → Bytes → Option Entry} {part : Bytes} {l a b : Nat}
    (hpart : path[l]? = some part) (hwalk : walk entries 0 (path.take l) = some a)
    (h : walk entries 0 (path.take (l + 1)) = some b) : entries a part = some (.directory b) := by
  rw [take_part hpart, walk_snoc hwalk] at h
  split at h
  · next i hentry =>
    cases h
    exact hentry
  · cases h

/-- `fsync` of a directory links what it has on the way. -/
theorem Linked.synchronized {l a : Nat} (h : Linked fs path name (l + 1)) (within : l < path.length)
    (hwalk : walk fs.entries 0 (path.take l) = some a)
    (grows : Grows lasting fs (fs.syncDirectory a)) (lasts : lasting name) :
    Linked (fs.syncDirectory a) path name l := by
  obtain ⟨b, d, i, hb, hdisk, hentry⟩ := h.grows grows lasts
  have hpart : path[l]? = some path[l] := List.getElem?_eq_getElem within
  have hlink : fs.entries a path[l] = some (.directory b) := walk_part hpart hwalk hb
  have here : (fs.syncDirectory a).diskEntries a path[l] = some (.directory b) :=
    (if_pos rfl).trans hlink
  refine ⟨a, d, i, hwalk, ?_, hentry⟩
  rw [List.drop_eq_getElem_cons within, walk, here]
  exact hdisk

/-- All links together lead from the root to the file. -/
theorem Linked.whole (h : Linked fs path name m) (tree : fs.Tree) (anchored : Anchored fs path m) :
    Linked fs path name 0 := by
  obtain ⟨a, d, i, hwalk, hdisk, hentry⟩ := h
  rcases anchored with ⟨b, hb⟩ | ⟨l, part, e, j, rfl, hpart, he, hfile⟩
  · have same := tree.walk_disk hb
    rw [hwalk] at same
    cases same
    refine ⟨0, d, i, rfl, ?_, hentry⟩
    rw [List.drop_zero, ← List.take_append_drop m path, walk_append, hb]
    exact hdisk
  · have hlink := walk_part hpart he hwalk
    rw [hfile] at hlink
    cases hlink

end Links

/-! ## One call -/

/-- How far a call has come with the directories above its file. -/
def Placed (fs : Disk) (job : CopyJob) : CopyStage → Prop
  | .searching directory missing => ∃ m k, m + k = job.parent.length ∧
      directory = job.parent.take m ∧ missing = above job.parent m k
  | .creating missing _ | .opening missing | .copying missing _ _ | .synchronizing missing
  | .moving missing => ∃ m k, m + k = job.parent.length ∧ missing = above job.parent m k ∧
      Anchored fs job.parent m
  | .synchronizingParent missing => ∃ m k d i, m + k = job.parent.length ∧
      missing = above job.parent m k ∧ Anchored fs job.parent m ∧
      walk fs.entries 0 job.parent = some d ∧ fs.entries d job.name = some (.file i)
  | .synchronizingMissing rest => ∃ m k, m + k ≤ job.parent.length ∧
      rest = above job.parent m k ∧ Anchored fs job.parent m ∧
      Linked fs job.parent job.name (m + k)
  | .returned => Linked fs job.parent job.name 0
  | .cleaning | .failed => True

/-- A search that ends at a directory ends at one that is on the disk. -/
def anchored (fs : Disk) : CopyStage → Bool
  | .searching directory _ => !fs.exists directory || (walk fs.entries 0 directory).isNone ||
      (walk fs.diskEntries 0 directory).isSome
  | _ => true

section Call

variable {initial fs fs' : Disk} {jobs : List CopyJob} {job : CopyJob} {stage stage' : CopyStage}
  {lasting : Bytes → Prop}

theorem Placed.grows (h : Placed fs job stage) (grows : Grows lasting fs fs')
    (lasts : ∀ part ∈ job.mentions, lasting part) : Placed fs' job stage := by
  have parts : ∀ part ∈ job.parent, lasting part := fun part hpart =>
    lasts part (parent_mentioned hpart)
  have name := lasts job.name (name_mentioned job)
  cases stage with
  | searching directory missing => exact h
  | synchronizingParent missing =>
    obtain ⟨m, k, d, i, hlength, hmissing, hanchored, hwalk, hentry⟩ := h
    obtain ⟨j, hj⟩ := grows.files d job.name i name hentry
    exact ⟨m, k, d, j, hlength, hmissing, hanchored.grows grows parts,
      walk_kept grows.directories hwalk, hj⟩
  | synchronizingMissing rest =>
    obtain ⟨m, k, hlength, hrest, hanchored, hlinked⟩ := h
    exact ⟨m, k, hlength, hrest, hanchored.grows grows parts, hlinked.grows grows name⟩
  | returned => exact Linked.grows h grows name
  | cleaning => trivial
  | failed => trivial
  | _ =>
    obtain ⟨m, k, hlength, hmissing, hanchored⟩ := h
    exact ⟨m, k, hlength, hmissing, hanchored.grows grows parts⟩

theorem CopyMoves.grows (move : CopyMoves fs job stage fs' stage') (tree : fs.Tree)
    (backed : Backed lasting fs) (other : ∀ name, lasting name → name ≠ job.temporary) :
    Grows lasting fs fs' := by
  have passing : ¬lasting job.temporary := fun lasts => other _ lasts rfl
  cases move with
  | made _ _ _ free => exact .point (.inl free) rfl rfl
  | opened _ _ free => exact .point (.inl free) rfl rfl
  | copied => exact .same rfl rfl
  | synchronized => exact .same rfl rfl
  | @renamed missing d i _ hentry free =>
    have first : Grows lasting fs (fs.relink d job.name (some (.file i))) :=
      .point (.inr ⟨free, .inl ⟨i, rfl⟩⟩) rfl rfl
    refine first.trans (.point (.inr ⟨fun j hj => ?_, .inr passing⟩) rfl rfl)
    rcases point_eq hj with ⟨_, _, hnew⟩ | hj
    · cases hnew
    · rw [hentry] at hj
      cases hj
  | synchronizedParent => exact .disk tree backed rfl (syncDirectory_either fs _)
  | synchronizedMissing => exact .disk tree backed rfl (syncDirectory_either fs _)
  | removed _ hentry =>
    refine .point (.inr ⟨fun j hj => ?_, .inr passing⟩) rfl rfl
    rw [hentry] at hj
    cases hj
  | _ => exact .same rfl rfl

theorem part_within {path : List Bytes} {l k : Nat} (h : l + 1 + k = path.length) :
    ∃ part, path[l]? = some part :=
  ⟨path[l], List.getElem?_eq_getElem (by omega)⟩

theorem exists_part {path : List Bytes} {part : Bytes} {l : Nat} (h : path[l]? = some part) :
    fs.exists (path.take (l + 1)) = (find fs.entries (path.take l) part).isSome := by
  rw [Disk.exists, take_part h, List.getLast?_append_of_ne_nil _ (List.cons_ne_nil _ _),
    List.getLast?_singleton, List.dropLast_concat]

/-- Where a search ends there is a directory of the disk, or a file. -/
theorem anchored_found {directory : List Bytes} {missing : List (List Bytes)} {m k : Nat}
    (ok : anchored fs (.searching directory missing)) (found : fs.exists directory)
    (hlength : m + k = job.parent.length) (hdirectory : directory = job.parent.take m) :
    Anchored fs job.parent m := by
  rw [anchored, found, hdirectory, Bool.not_true, Bool.false_or, Bool.or_eq_true] at ok
  rcases ok with file | disk
  · cases m with
    | zero => cases file
    | succ l =>
      obtain ⟨part, hpart⟩ := part_within hlength
      rw [hdirectory, exists_part hpart] at found
      obtain ⟨e, he⟩ := Option.isSome_iff_exists.mp found
      obtain ⟨d, hwalk, hentry⟩ := find_file he
      rw [take_part hpart, walk_snoc hwalk, hentry] at file
      cases e with
      | directory i => cases file
      | file i => exact .inr ⟨l, part, d, i, rfl, hpart, hwalk, hentry⟩
  · exact .inl (Option.isSome_iff_exists.mp disk)

theorem CopyMoves.placed (move : CopyMoves fs job stage fs' stage') (tree : fs.Tree)
    (grows : Grows lasting fs fs') (placed : Placed fs job stage) (ok : anchored fs stage)
    (lasts : ∀ part ∈ job.mentions, lasting part) (own : job.name ≠ job.temporary) :
    Placed fs' job stage' := by
  have later := placed.grows grows lasts
  have name := lasts job.name (name_mentioned job)
  cases move with
  | found found =>
    obtain ⟨m, k, hlength, hdirectory, hmissing⟩ := placed
    exact ⟨m, k, hlength, hmissing, anchored_found ok found hlength hdirectory⟩
  | climbed absent =>
    obtain ⟨m, k, hlength, rfl, rfl⟩ := placed
    cases m with
    | zero => exact absurd rfl absent
    | succ l =>
      obtain ⟨part, hpart⟩ := part_within hlength
      refine ⟨l, k + 1, by omega, ?_, above_snoc ..⟩
      rw [take_part hpart, List.dropLast_concat]
  | complete => exact later
  | root => exact later
  | there => exact later
  | made => exact later
  | opened => exact later
  | copied => exact later
  | synchronized => exact later
  | @renamed missing d i hwalk hentry free =>
    obtain ⟨m, k, hlength, hmissing, hanchored⟩ := later
    exact ⟨m, k, d, i, hlength, hmissing, hanchored,
      walk_kept (rename_directories hentry free) hwalk, rename_target own⟩
  | @synchronizedParent missing d hwalk =>
    obtain ⟨m, k, e, i, hlength, hmissing, hanchored, he, hentry⟩ := later
    have same : d = e := Option.some.inj (hwalk.symm.trans he)
    refine ⟨m, k, Nat.le_of_eq hlength, hmissing, hanchored, d, d, i, ?_, ?_, ?_⟩
    · rw [hlength, List.take_length]
      exact hwalk
    · rw [hlength, List.drop_length]
      rfl
    · rw [← same] at hentry
      exact (if_pos rfl).trans hentry
  | @synchronizedMissing directory rest d hwalk =>
    obtain ⟨m, k, hlength, hrest, hanchored, hlinked⟩ := placed
    cases k with
    | zero => cases hrest
    | succ k =>
      cases hrest
      obtain ⟨part, hpart⟩ := part_within (k := job.parent.length - (m + k + 1))
        (Nat.add_sub_cancel' hlength)
      rw [take_part hpart, List.dropLast_concat] at hwalk
      refine ⟨m, k, Nat.le_of_succ_le hlength, rfl, hanchored.grows grows fun part hpart =>
        lasts part (parent_mentioned hpart), ?_⟩
      exact hlinked.synchronized hlength hwalk grows name
  | returned =>
    obtain ⟨m, k, _, hrest, hanchored, hlinked⟩ := placed
    cases k with
    | zero => exact hlinked.whole tree hanchored
    | succ k => cases hrest
  | thrown => trivial
  | blocked => trivial
  | removed => trivial
  | gone => trivial

end Call

/-! ## Runs -/

/-- The searches of a run end at directories that the disk has. -/
def settles (s : State) : Act → Bool
  | .advance number => match s.calls[number]? with
    | some call => anchored s.fs call.stage
    | none => true
  | _ => true

structure Durable (s : State) : Prop where
  backed : Backed (Plain s.jobs) s.fs
  placed : ∀ call ∈ s.calls, Placed s.fs call.toCopyJob call.stage

section Runs

variable {c : FilesystemStore} {s s' : State} {number : Nat} {call : Copy} {stage : CopyStage}

theorem Durable.moved {fs : Disk} (h : Durable s) (apart : Apart s.jobs)
    (hcall : s.calls[number]? = some call) (grows : Grows (Plain s.jobs) s.fs fs)
    (source : ∀ d name, fs.diskEntries d name = s.fs.diskEntries d name ∨
      fs.diskEntries d name = s.fs.entries d name)
    (placed : Placed fs call.toCopyJob stage) :
    Durable { s.move number stage with fs := fs } := by
  have jobs : State.jobs { s.move number stage with fs := fs } = s.jobs := move_jobs
  refine ⟨?_, fun moved hmoved => ?_⟩
  · rw [jobs]
    exact h.backed.grows grows source
  · obtain ⟨m, hm⟩ := List.getElem?_of_mem hmoved
    rcases move_get hm with ⟨_, hother⟩ | ⟨_, before, hbefore, rfl⟩
    · have hmem := List.mem_of_getElem? hother
      exact (h.placed moved hmem).grows grows fun part hpart =>
        apart.plain (List.mem_map_of_mem hmem) hpart
    · rw [hcall] at hbefore
      cases hbefore
      exact placed

theorem CopyMoves.source {fs fs' : Disk} {job : CopyJob} {stage stage' : CopyStage}
    (move : CopyMoves fs job stage fs' stage') (d : Nat) (name : Bytes) :
    fs'.diskEntries d name = fs.diskEntries d name ∨
      fs'.diskEntries d name = fs.entries d name := by
  cases move with
  | synchronizedParent => exact syncDirectory_either fs _ d name
  | synchronizedMissing => exact syncDirectory_either fs _ d name
  | _ => exact .inl rfl

theorem Durable.begin {job : CopyJob} (h : Durable s) (hs : begin s job = some s') :
    Durable s' := by
  rw [FilesystemStore.begin] at hs
  split at hs
  case isFalse => cases hs
  cases hs
  refine ⟨fun d name i plain hentry => h.backed d name i (fun j hj => plain j ?_) hentry,
    fun call hcall => ?_⟩
  · obtain ⟨call, hcall, rfl⟩ := List.mem_map.mp hj
    exact List.mem_map_of_mem (List.mem_append_left _ hcall)
  · rcases List.mem_append.mp hcall with old | new
    · exact h.placed call old
    · cases List.mem_singleton.mp new
      exact ⟨job.parent.length, 0, rfl, (List.take_length ..).symm, rfl⟩

theorem Placed.failing {fs : Disk} {job : CopyJob} {stage' : CopyStage}
    (h : stage.failing = some stage') : Placed fs job stage' := by
  cases stage <;> cases h <;> trivial

theorem Durable.step {act : Act} (h : Durable s) (sound : Sound c s) (ok : settles s act)
    (hs : c.step s act = some s') : Durable s' := by
  cases act with
  | put key file random =>
    rw [FilesystemStore.step] at hs
    split at hs
    · exact h.begin hs
    · cases hs
      exact h
  | get key directory name random =>
    rw [FilesystemStore.step] at hs
    split at hs
    · exact h.begin hs
    · cases hs
      exact h
  | advance number =>
    obtain ⟨call, hcall, hs⟩ := Option.bind_eq_some_iff.mp hs
    obtain ⟨⟨fs, stage⟩, hstep, hs⟩ := Option.bind_eq_some_iff.mp hs
    cases hs
    rw [settles, hcall] at ok
    have move := copyStep_moves hstep
    have hjob := job_mem hcall
    have grows : Grows (Plain s.jobs) s.fs fs :=
      move.grows sound.shelved.tree h.backed fun name plain => plain _ hjob
    refine h.moved sound.apart hcall grows move.source (move.placed sound.shelved.tree grows
      (h.placed call (List.mem_of_getElem? hcall)) ok
      (fun part hpart => sound.apart.plain hjob hpart) ?_)
    exact sound.apart.plain hjob (name_mentioned call.toCopyJob) _ hjob
  | progress number bytes =>
    obtain ⟨call, _, hs⟩ := Option.bind_eq_some_iff.mp hs
    split at hs
    case h_2 => cases hs
    next missing i content _ =>
      cases hs
      have grows : Grows (Plain s.jobs) s.fs (FileSystem.write i bytes s.fs) := .same rfl rfl
      exact ⟨h.backed, fun other hother => (h.placed other hother).grows grows
        fun part hpart => sound.apart.plain (List.mem_map_of_mem hother) hpart⟩
  | fail number =>
    obtain ⟨call, hcall, hs⟩ := Option.bind_eq_some_iff.mp hs
    obtain ⟨stage, hstage, hs⟩ := Option.bind_eq_some_iff.mp hs
    cases hs
    exact h.moved sound.apart hcall (.same rfl rfl) (fun _ _ => .inl rfl) (.failing hstage)
  | writeBack inode name =>
    cases hs
    have source := writeBack_either s.fs inode name
    have grows : Grows (Plain s.jobs) s.fs (s.fs.writeBack inode name) :=
      .disk sound.shelved.tree h.backed rfl source
    exact ⟨h.backed.grows grows source, fun other hother => (h.placed other hother).grows grows
      fun part hpart => sound.apart.plain (List.mem_map_of_mem hother) hpart⟩
  | crash garbage =>
    cases hs
    refine ⟨fun d name i _ hentry => ⟨i, hentry⟩, fun call hcall => ?_⟩
    obtain ⟨before, hbefore, rfl⟩ := List.mem_map.mp hcall
    rw [Copy.lost]
    split
    · next returned =>
      have placed := h.placed before hbefore
      rw [returned] at placed ⊢
      obtain ⟨a, d, i, hroot, hwalk, hentry⟩ := placed
      exact ⟨a, d, i, hroot, hwalk, hentry⟩
    · trivial

theorem durable (run : c.system.Leads (fun s act => settles s act) c.system.init s) :
    Durable s := by
  refine run.stable .refl ⟨fun d name i _ h => ⟨i, ?_⟩, fun _ h => absurd h List.not_mem_nil⟩
    fun s act s' hs durable ok h => durable.step (sound hs) ok h
  change c.initial.diskEntries d name = some (.file i) at h
  rw [c.settled] at h
  exact h

/-- What calls for one file only can have brought to its path. -/
theorem Written.same {initial : Disk} {jobs : List CopyJob} {path : List Bytes}
    {name bytes file : Bytes} (h : Written initial jobs path name bytes)
    (new : initial.read path name = none)
    (same : ∀ job ∈ jobs, job.parent = path → job.name = name → job.source = .given file) :
    bytes = file := by
  cases h with
  | initial h =>
    rw [new] at h
    cases h
  | given hjob hsource =>
    rw [same _ hjob rfl rfl] at hsource
    exact (CopySource.given.inj hsource).symm
  | copied hjob hsource _ =>
    rw [same _ hjob rfl rfl] at hsource
    cases hsource

/-- A put that has returned is there for good: its path holds the whole file from then on, after
crashes as well, when all calls for the path put this file. -/
theorem put_durable {file : Bytes}
    (run : c.system.Leads (fun s act => settles s act) c.system.init s) (hcall : call ∈ s.calls)
    (returned : call.stage = .returned) (new : c.initial.read call.parent call.name = none)
    (same : ∀ job ∈ s.jobs, job.parent = call.parent → job.name = call.name →
      job.source = .given file) :
    s.fs.read call.parent call.name = some file ∧
      ∀ garbage, Disk.read (s.fs.crash garbage) call.parent call.name = some file := by
  have sound := sound run.later
  have hjob : call.toCopyJob ∈ s.jobs := List.mem_map_of_mem hcall
  have plain := sound.apart.plain hjob (name_mentioned _)
  have placed := (durable run).placed call hcall
  rw [returned] at placed
  obtain ⟨a, d, i, hroot, hdisk, hentry⟩ := placed
  cases hroot
  rw [List.drop_zero] at hdisk
  have hwalk := sound.shelved.tree.walk_disk hdisk
  obtain ⟨j, hj⟩ := (durable run).backed d call.name i plain hentry
  have now : s.fs.read call.parent call.name = some (s.fs.files j) := by
    rw [Disk.read, find_of_walk hwalk, hj]
    rfl
  refine ⟨?_, fun garbage => ?_⟩
  · rw [now, (sound.shelved.read plain now).same new same]
  · have after : Disk.read (s.fs.crash garbage) call.parent call.name =
        some ((s.fs.crash garbage).files i) := by
      change Disk.content _ (find s.fs.diskEntries _ _) = _
      rw [find_of_walk hdisk, hentry]
      rfl
    rw [after, ((sound.shelved.crash garbage).read plain after).same new same]

theorem put_durable_twoPuts : ∃ s,
    emptyStore.system.Leads (fun s act => settles s act) emptyStore.system.init s ∧
    s.fs.read [utf8 "a"] (utf8 "b") = some [1, 2] ∧
    ∀ garbage, Disk.read (s.fs.crash garbage) [utf8 "a"] (utf8 "b") = some [1, 2] := by
  have run : (emptyStore.system.replay settles emptyStore.system.init twoPuts).map State.calls =
      some [⟨emptyStore.putJob (utf8 "a/b") [1, 2] (utf8 "x"), .returned⟩,
        ⟨emptyStore.putJob (utf8 "a/c") [3] (utf8 "y"), .failed⟩] := by
    decide +kernel
  obtain ⟨s, hs, hcalls⟩ := Option.map_eq_some_iff.mp run
  have target : (emptyStore.putJob (utf8 "a/b") [1, 2] (utf8 "x")).parent = [utf8 "a"] ∧
      (emptyStore.putJob (utf8 "a/b") [1, 2] (utf8 "x")).name = utf8 "b" ∧
      (emptyStore.putJob (utf8 "a/c") [3] (utf8 "y")).name ≠ utf8 "b" := by
    decide +kernel
  have hcall : ⟨emptyStore.putJob (utf8 "a/b") [1, 2] (utf8 "x"), .returned⟩ ∈ s.calls := by
    rw [hcalls]
    exact List.mem_cons_self
  have same : ∀ job ∈ s.jobs,
      job.parent = (emptyStore.putJob (utf8 "a/b") [1, 2] (utf8 "x")).parent →
      job.name = (emptyStore.putJob (utf8 "a/b") [1, 2] (utf8 "x")).name →
      job.source = .given [1, 2] := by
    intro job hjob _ hname
    rw [State.jobs, hcalls] at hjob
    rcases List.mem_pair.mp hjob with rfl | rfl
    · rfl
    · exact absurd (hname.trans target.2.1) target.2.2
  have kept := put_durable (System.replay_leads hs) hcall rfl rfl same
  rw [target.1, target.2.1] at kept
  exact ⟨s, System.replay_leads hs, kept⟩

/-- A put that failed has made a directory and not brought it to the disk. The next put below it
finds it there and returns, and its file is gone after a crash. -/
def lostPut : List Act :=
  .put (utf8 "a/b") [1] (utf8 "x") :: List.replicate 4 (.advance 0) ++ .fail 0 ::
    .put (utf8 "a/c") [2] (utf8 "y") :: List.replicate 10 (.advance 1) ++ [.crash fun _ => []]

theorem put_lost : ∃ s, emptyStore.system.Reachable s ∧
    s.calls[1]? = some ⟨emptyStore.putJob (utf8 "a/c") [2] (utf8 "y"), .returned⟩ ∧
    s.fs.read [utf8 "a"] (utf8 "c") = none := by
  have run : (emptyStore.system.replay (fun _ _ => true) emptyStore.system.init lostPut).map
      (fun s => (s.calls[1]?, s.fs.read [utf8 "a"] (utf8 "c"))) =
      some (some ⟨emptyStore.putJob (utf8 "a/c") [2] (utf8 "y"), .returned⟩, none) := by
    decide +kernel
  obtain ⟨s, hs, hread⟩ := Option.map_eq_some_iff.mp run
  exact ⟨s, System.replay_reachable hs, (Prod.mk.inj hread).1, (Prod.mk.inj hread).2⟩

end Runs

end FilesystemStore

end Runyard
