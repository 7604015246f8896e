import Runyard.Artifacts.Filesystem

/-!
# Blobs appear whole

A call fills a file under its temporary name, which no other call uses, and brings it to the disk
before it renames it. So a plain name means a whole file in the cache and on the disk.
-/

namespace Runyard

open FileSystem

namespace FilesystemStore

/-! ## What one system call does -/

/-- The moves of a copy: the file system and the stage after the next system call. -/
inductive CopyMoves (fs : Disk) (job : CopyJob) : CopyStage → Disk → CopyStage → Prop where
  | found {directory missing} : fs.exists directory →
    CopyMoves fs job (.searching directory missing) fs (.creating missing 0)
  | climbed {directory missing} : ¬fs.exists directory →
    CopyMoves fs job (.searching directory missing) fs
      (.searching directory.dropLast (missing ++ [directory]))
  | complete {missing length} : job.parent.length < length →
    CopyMoves fs job (.creating missing length) fs (.opening missing)
  | root {missing} : CopyMoves fs job (.creating missing 0) fs (.creating missing 1)
  | there {missing length path name d e} : job.parent.take length = path ++ [name] →
    length ≤ job.parent.length → walk fs.entries 0 path = some d →
    fs.entries d name = some (.directory e) →
    CopyMoves fs job (.creating missing length) fs (.creating missing (length + 1))
  | made {missing length path name d} : job.parent.take length = path ++ [name] →
    length ≤ job.parent.length → walk fs.entries 0 path = some d → fs.entries d name = none →
    CopyMoves fs job (.creating missing length) (fs.makeDirectory d name)
      (.creating missing (length + 1))
  | blocked {missing length} : CopyMoves fs job (.creating missing length) fs .failed
  | opened {missing content d} : sourceBytes fs job.source = some content →
    walk fs.entries 0 job.parent = some d → fs.entries d job.temporary = none →
    CopyMoves fs job (.opening missing) (fs.createFile d job.temporary [])
      (.copying missing fs.next content)
  | copied {missing i content} : CopyMoves fs job (.copying missing i content)
      (fs.write i content) (.synchronizing missing)
  | synchronized {missing d i} : walk fs.entries 0 job.parent = some d →
    fs.entries d job.temporary = some (.file i) →
    CopyMoves fs job (.synchronizing missing) (fs.syncFile i) (.moving missing)
  | renamed {missing d i} : walk fs.entries 0 job.parent = some d →
    fs.entries d job.temporary = some (.file i) →
    (∀ j, fs.entries d job.name ≠ some (.directory j)) →
    CopyMoves fs job (.moving missing) (fs.rename d job.temporary job.name (.file i))
      (.synchronizingParent missing)
  | synchronizedParent {missing d} : walk fs.entries 0 job.parent = some d →
    CopyMoves fs job (.synchronizingParent missing) (fs.syncDirectory d)
      (.synchronizingMissing missing)
  | synchronizedMissing {directory rest d} : walk fs.entries 0 directory.dropLast = some d →
    CopyMoves fs job (.synchronizingMissing (directory :: rest)) (fs.syncDirectory d)
      (.synchronizingMissing rest)
  | returned : CopyMoves fs job (.synchronizingMissing []) fs .returned
  | thrown {stage} : stage ≠ .returned → stage ≠ .failed → CopyMoves fs job stage fs .cleaning
  | removed {d i} : walk fs.entries 0 job.parent = some d →
    fs.entries d job.temporary = some (.file i) →
    CopyMoves fs job .cleaning (fs.relink d job.temporary none) .failed
  | gone : CopyMoves fs job .cleaning fs .failed

section Moves

variable {fs fs' : Disk} {job : CopyJob} {stage stage' : CopyStage}

theorem find_file {path : List Bytes} {name : Bytes} {e : Entry}
    (h : find fs.entries path name = some e) :
    ∃ d, walk fs.entries 0 path = some d ∧ fs.entries d name = some e :=
  Option.bind_eq_some_iff.mp h

theorem makeDirectoryAt_moves {missing : List (List Bytes)} {length : Nat}
    (within : length ≤ job.parent.length)
    (h : makeDirectoryAt fs (job.parent.take length) = some fs') :
    CopyMoves fs job (.creating missing length) fs' (.creating missing (length + 1)) := by
  rw [makeDirectoryAt] at h
  rcases List.eq_nil_or_concat' (job.parent.take length) with hroot | ⟨path, name, hpath⟩
  · rw [hroot] at h
    cases h
    have zero : length = 0 := by
      have hlength := congrArg List.length hroot
      rw [List.length_take, List.length_nil] at hlength
      omega
    rw [zero]
    exact .root
  · rw [hpath, List.getLast?_append_of_ne_nil _ (List.cons_ne_nil _ _)] at h
    simp only [List.getLast?_singleton, List.dropLast_concat] at h
    cases hwalk : walk fs.entries 0 path with
    | none =>
      rw [hwalk] at h
      cases h
    | some d =>
      simp only [hwalk] at h
      cases hentry : fs.entries d name with
      | none =>
        simp only [hentry, Option.some.injEq] at h
        rw [← h]
        exact .made hpath within hwalk hentry
      | some e =>
        cases e with
        | directory e =>
          simp only [hentry, Option.some.injEq] at h
          rw [← h]
          exact .there hpath within hwalk hentry
        | file i =>
          simp only [hentry] at h
          cases h

theorem copyStep_moves (h : copyStep fs job stage = some (fs', stage')) :
    CopyMoves fs job stage fs' stage' := by
  cases stage with
  | searching directory missing =>
    rw [copyStep] at h
    split at h
    · next found =>
      cases h
      exact .found found
    · next absent =>
      cases h
      exact .climbed absent
  | creating missing length =>
    rw [copyStep] at h
    split at h
    · next beyond =>
      cases h
      exact .complete beyond
    · next within =>
      split at h
      · next made =>
        cases h
        exact makeDirectoryAt_moves (not_lt.mp within) made
      · cases h
        exact .blocked
  | opening missing =>
    rw [copyStep] at h
    split at h
    · next hsource hwalk =>
      split at h
      · next free =>
        cases h
        exact .opened hsource hwalk (Option.isNone_iff_eq_none.mp free)
      · cases h
        exact .thrown (by simp) (by simp)
    · cases h
      exact .thrown (by simp) (by simp)
  | copying missing i content =>
    cases h
    exact .copied
  | synchronizing missing =>
    rw [copyStep] at h
    split at h
    · next i hfind =>
      cases h
      obtain ⟨d, hwalk, hentry⟩ := find_file hfind
      exact .synchronized hwalk hentry
    · cases h
      exact .thrown (by simp) (by simp)
  | moving missing =>
    rw [copyStep] at h
    split at h
    · cases h
      exact .thrown (by simp) (by simp)
    next d hwalk =>
    split at h
    · cases h
      exact .thrown (by simp) (by simp)
    · next i hentry free =>
      cases h
      exact .renamed hwalk hentry free
    · cases h
      exact .thrown (by simp) (by simp)
  | synchronizingParent missing =>
    rw [copyStep] at h
    split at h
    · cases h
      exact .thrown (by simp) (by simp)
    · next hwalk =>
      cases h
      exact .synchronizedParent hwalk
  | synchronizingMissing rest =>
    cases rest with
    | nil =>
      cases h
      exact .returned
    | cons directory rest =>
      rw [copyStep] at h
      split at h
      · cases h
        exact .thrown (by simp) (by simp)
      · next hwalk =>
        cases h
        exact .synchronizedMissing hwalk
  | cleaning =>
    rw [copyStep] at h
    split at h
    · cases h
      exact .gone
    next d hwalk =>
    split at h
    · next i hentry =>
      cases h
      exact .removed hwalk hentry
    · cases h
      exact .gone
  | returned => cases h
  | failed => cases h

end Moves

/-! ## What the names mean -/

/-- The bytes that the calls can have brought to a path. -/
inductive Written (initial : Disk) (jobs : List CopyJob) : List Bytes → Bytes → Bytes → Prop where
  | initial {path name bytes} : initial.read path name = some bytes →
    Written initial jobs path name bytes
  | given {job : CopyJob} {bytes} : job ∈ jobs → job.source = .given bytes →
    Written initial jobs job.parent job.name bytes
  | copied {job : CopyJob} {path name bytes} : job ∈ jobs → job.source = .stored path name →
    Written initial jobs path name bytes → Written initial jobs job.parent job.name bytes

/-- What a call has to copy. -/
def Delivers (initial : Disk) (jobs : List CopyJob) (job : CopyJob) (bytes : Bytes) : Prop :=
  match job.source with
  | .given file => file = bytes
  | .stored path name => Written initial jobs path name bytes

/-- No call uses the name for its temporary file. -/
def Plain (jobs : List CopyJob) (name : Bytes) : Prop := ∀ job ∈ jobs, name ≠ job.temporary

/-- The temporary file of a call. -/
def Holds (fs : Disk) (job : CopyJob) (i : Nat) : Prop :=
  ∃ d, walk fs.entries 0 job.parent = some d ∧ fs.entries d job.temporary = some (.file i)

/-- A file has no name except the temporary one of a call. -/
def Owns (fs : Disk) (job : CopyJob) (i : Nat) : Prop :=
  ∀ d name, fs.entries d name = some (.file i) ∨ fs.diskEntries d name = some (.file i) →
    name = job.temporary

/-- The files under plain names are whole, and on the disk. -/
structure Shelved (initial : Disk) (jobs : List CopyJob) (fs : Disk) : Prop where
  tree : fs.Tree
  whole : ∀ d name i, fs.entries d name = some (.file i) ∨
    fs.diskEntries d name = some (.file i) → Plain jobs name →
    fs.diskFiles i = some (fs.files i) ∧ Written initial jobs (fs.location d) name (fs.files i)

/-- How far a call has come with its temporary file. -/
def Staged (initial : Disk) (jobs : List CopyJob) (fs : Disk) (job : CopyJob) :
    CopyStage → Prop
  | .copying _ i content => Holds fs job i ∧ Owns fs job i ∧ Delivers initial jobs job content
  | .synchronizing _ => ∃ i, Holds fs job i ∧ Delivers initial jobs job (fs.files i)
  | .moving _ => ∃ i, Holds fs job i ∧ Delivers initial jobs job (fs.files i) ∧
      fs.diskFiles i = some (fs.files i)
  | _ => True

theorem Written.mono {initial : Disk} {jobs more : List CopyJob} {path : List Bytes}
    {name bytes : Bytes} (within : ∀ job ∈ jobs, job ∈ more)
    (h : Written initial jobs path name bytes) : Written initial more path name bytes := by
  induction h with
  | initial h => exact .initial h
  | given hjob hsource => exact .given (within _ hjob) hsource
  | copied hjob hsource _ ih => exact .copied (within _ hjob) hsource ih

theorem Delivers.written {initial : Disk} {jobs : List CopyJob} {job : CopyJob} {bytes : Bytes}
    (h : Delivers initial jobs job bytes) (hjob : job ∈ jobs) :
    Written initial jobs job.parent job.name bytes := by
  rw [Delivers] at h
  split at h
  · next hsource =>
    rw [← h]
    exact .given hjob hsource
  · next hsource => exact .copied hjob hsource h

theorem Delivers.mono {initial : Disk} {jobs more : List CopyJob} {job : CopyJob} {bytes : Bytes}
    (within : ∀ job ∈ jobs, job ∈ more) (h : Delivers initial jobs job bytes) :
    Delivers initial more job bytes := by
  rw [Delivers] at h ⊢
  split at h
  · exact h
  · exact h.mono within

theorem apart_iff {a b : CopyJob} : a.apart b ↔ a.temporary ≠ b.temporary ∧
    a.temporary ∉ b.mentions ∧ b.temporary ∉ a.mentions := by
  simp [CopyJob.apart, and_assoc]

theorem name_mentioned (job : CopyJob) : job.name ∈ job.mentions :=
  List.mem_append_right _ (List.mem_cons_self ..)

theorem parent_mentioned {job : CopyJob} {part : Bytes} (h : part ∈ job.parent) :
    part ∈ job.mentions :=
  List.mem_append_left _ h

section Shelf

variable {initial fs : Disk} {jobs : List CopyJob} {job : CopyJob} {d i : Nat}
  {name : Bytes}

theorem Shelved.write (h : Shelved initial jobs fs) (hjob : job ∈ jobs) (owned : Owns fs job i)
    (content : Bytes) : Shelved initial jobs (fs.write i content) where
  tree := h.tree.write content
  whole d name j hentry plain := by
    have other : j ≠ i := by
      rintro rfl
      exact plain job hjob (owned d name hentry)
    have old := h.whole d name j hentry plain
    change set i none fs.diskFiles j = some (set i content fs.files j) ∧
      Written initial jobs (fs.location d) name (set i content fs.files j)
    rw [set_other other, set_other other]
    exact old

theorem Shelved.syncFile (h : Shelved initial jobs fs) : Shelved initial jobs (fs.syncFile i) where
  tree := h.tree.syncFile
  whole d name j hentry plain := by
    have old := h.whole d name j hentry plain
    refine ⟨?_, old.2⟩
    change set i (some (fs.files i)) fs.diskFiles j = some (fs.files j)
    by_cases same : j = i
    · rw [same, set_self]
    · rw [set_other same]
      exact old.1

theorem source_entry {disk : Nat → Bytes → Option Entry} {e : Entry}
    (source : ∀ d name, disk d name = fs.diskEntries d name ∨ disk d name = fs.entries d name)
    (h : fs.entries d name = some e ∨ disk d name = some e) :
    fs.entries d name = some e ∨ fs.diskEntries d name = some e := by
  rcases h with h | h
  · exact .inl h
  · rcases source d name with old | new
    · exact .inr (old.symm.trans h)
    · exact .inl (new.symm.trans h)

/-- Entries are written back in any order. -/
theorem Shelved.disk {disk : Nat → Bytes → Option Entry} (h : Shelved initial jobs fs)
    (tree : FileSystem.Tree { fs with diskEntries := disk })
    (source : ∀ d name, disk d name = fs.diskEntries d name ∨ disk d name = fs.entries d name) :
    Shelved initial jobs { fs with diskEntries := disk } where
  tree := tree
  whole d name j hentry plain := h.whole d name j (source_entry source hentry) plain

theorem Shelved.makeDirectory (h : Shelved initial jobs fs) (hd : d < fs.next)
    (free : fs.entries d name = none) : Shelved initial jobs (fs.makeDirectory d name) where
  tree := h.tree.makeDirectory hd free
  whole d' name' j hentry plain := by
    have before : fs.entries d' name' = some (.file j) ∨
        fs.diskEntries d' name' = some (.file j) := by
      rcases hentry with hentry | hentry
      · rcases point_eq hentry with ⟨_, _, hnew⟩ | hentry
        · cases hnew
        · exact .inl hentry
      · exact .inr hentry
    have known : d' < fs.next := by
      rcases before with hentry | hentry
      · exact (h.tree.known _ _ _ hentry).1
      · exact (h.tree.diskKnown _ _ _ hentry).1
    have old := h.whole d' name' j before plain
    change _ ∧ Written initial jobs
      (if d' = fs.next then fs.location d ++ [name] else fs.location d') name' _
    rw [if_neg (Nat.ne_of_lt known)]
    exact old

theorem Shelved.createFile (h : Shelved initial jobs fs) (hjob : job ∈ jobs) (hd : d < fs.next)
    (content : Bytes) (free : fs.entries d job.temporary = none) :
    Shelved initial jobs (fs.createFile d job.temporary content) where
  tree := h.tree.createFile hd content free
  whole d' name' j hentry plain := by
    have before : fs.entries d' name' = some (.file j) ∨
        fs.diskEntries d' name' = some (.file j) := by
      rcases hentry with hentry | hentry
      · rcases point_eq hentry with ⟨_, htemporary, _⟩ | hentry
        · exact absurd htemporary (plain job hjob)
        · exact .inl hentry
      · exact .inr hentry
    have known : j < fs.next := by
      rcases before with hentry | hentry
      · exact (h.tree.known _ _ _ hentry).2
      · exact (h.tree.diskKnown _ _ _ hentry).2
    have old := h.whole d' name' j before plain
    change set fs.next none fs.diskFiles j = some (set fs.next content fs.files j) ∧
      Written initial jobs (fs.location d') name' (set fs.next content fs.files j)
    rw [set_other (Nat.ne_of_lt known), set_other (Nat.ne_of_lt known)]
    exact old

theorem Shelved.unlink (h : Shelved initial jobs fs) (hentry : fs.entries d name = some (.file i)) :
    Shelved initial jobs (fs.relink d name none) where
  tree := h.tree.relink (fun j hj => by rw [hentry] at hj; cases hj) (fun _ hj => by cases hj)
    fun _ hx => by cases hx
  whole d' name' j hj plain := by
    refine h.whole d' name' j ?_ plain
    rcases hj with hj | hj
    · rcases point_eq hj with ⟨_, _, hnew⟩ | hj
      · cases hnew
      · exact .inl hj
    · exact .inr hj

/-- A synchronized file is whole under its new name. -/
theorem Shelved.rename (h : Shelved initial jobs fs) (hjob : job ∈ jobs)
    (hwalk : walk fs.entries 0 job.parent = some d)
    (hentry : fs.entries d job.temporary = some (.file i))
    (free : ∀ j, fs.entries d job.name ≠ some (.directory j))
    (saved : fs.diskFiles i = some (fs.files i))
    (delivers : Delivers initial jobs job (fs.files i)) :
    Shelved initial jobs (fs.rename d job.temporary job.name (.file i)) where
  tree := h.tree.rename hentry free
  whole d' name' j hj plain := by
    rcases hj with hj | hj
    · rcases rename_eq hj with ⟨rfl, rfl, hx⟩ | ⟨_, hj⟩
      · cases hx
        have written := delivers.written hjob
        rw [← h.tree.location_root hwalk] at written
        exact ⟨saved, written⟩
      · exact h.whole d' name' j (.inl hj) plain
    · exact h.whole d' name' j (.inr hj) plain

theorem Shelved.crash (h : Shelved initial jobs fs) (garbage : Nat → Bytes) :
    Shelved initial jobs (fs.crash garbage) where
  tree := h.tree.crash garbage
  whole d name j hentry plain := by
    have before : fs.diskEntries d name = some (.file j) := hentry.elim id id
    obtain ⟨saved, written⟩ := h.whole d name j (.inr before) plain
    have same : (fs.diskFiles j).getD (garbage j) = fs.files j := by
      rw [saved, Option.getD_some]
    refine ⟨rfl, ?_⟩
    change Written initial jobs (fs.location d) name ((fs.diskFiles j).getD (garbage j))
    rw [same]
    exact written

end Shelf

/-! ## Calls leave each other's temporary files alone -/

/-- What a step of another call does to the temporary file of a call: nothing. -/
structure Spares (job : CopyJob) (fs fs' : Disk) : Prop where
  holds : ∀ i, Holds fs job i → Holds fs' job i
  owns : ∀ i, Holds fs job i → Owns fs job i → Owns fs' job i
  content : ∀ i, Holds fs job i → fs'.files i = fs.files i ∧
    (fs.diskFiles i = some (fs.files i) → fs'.diskFiles i = some (fs.files i))

section Other

variable {initial fs fs' : Disk} {jobs : List CopyJob} {job other : CopyJob} {d i : Nat}
  {name : Bytes} {stage stage' : CopyStage}

theorem Spares.refl : Spares job fs fs where
  holds _ h := h
  owns _ _ h := h
  content _ _ := ⟨rfl, id⟩

theorem Staged.spared (spares : Spares job fs fs') (h : Staged initial jobs fs job stage) :
    Staged initial jobs fs' job stage := by
  cases stage with
  | copying missing i content =>
    obtain ⟨holds, owns, delivers⟩ := h
    exact ⟨spares.holds i holds, spares.owns i holds owns, delivers⟩
  | synchronizing missing =>
    obtain ⟨i, holds, delivers⟩ := h
    refine ⟨i, spares.holds i holds, ?_⟩
    rw [(spares.content i holds).1]
    exact delivers
  | moving missing =>
    obtain ⟨i, holds, delivers, saved⟩ := h
    refine ⟨i, spares.holds i holds, ?_⟩
    rw [(spares.content i holds).1]
    exact ⟨delivers, (spares.content i holds).2 saved⟩
  | _ => trivial

theorem Staged.mono {more : List CopyJob} (within : ∀ job ∈ jobs, job ∈ more)
    (h : Staged initial jobs fs job stage) : Staged initial more fs job stage := by
  cases stage with
  | copying missing i content => exact ⟨h.1, h.2.1, h.2.2.mono within⟩
  | synchronizing missing =>
    obtain ⟨i, holds, delivers⟩ := h
    exact ⟨i, holds, delivers.mono within⟩
  | moving missing =>
    obtain ⟨i, holds, delivers, saved⟩ := h
    exact ⟨i, holds, delivers.mono within, saved⟩
  | _ => trivial

theorem Holds.kept (h : Holds fs job i)
    (directories : ∀ d name e, fs.entries d name = some (.directory e) →
      fs'.entries d name = some (.directory e))
    (file : ∀ d, fs.entries d job.temporary = some (.file i) →
      fs'.entries d job.temporary = some (.file i)) : Holds fs' job i := by
  obtain ⟨d, hwalk, hentry⟩ := h
  exact ⟨d, walk_kept directories hwalk, file d hentry⟩

/-- Two names of one file under construction are the same. -/
theorem Owns.same (h : Owns fs job i) (holds : Holds fs other i) :
    other.temporary = job.temporary := by
  obtain ⟨d, _, hentry⟩ := holds
  exact h d _ (.inl hentry)

theorem Spares.write (owned : Owns fs job i) (apart : job.apart other) (content : Bytes) :
    Spares other fs (fs.write i content) where
  holds _ h := h
  owns _ _ h := h
  content j holds := by
    have differ : j ≠ i := by
      rintro rfl
      exact (apart_iff.mp apart).1 (owned.same holds).symm
    change set i content fs.files j = _ ∧ (_ → set i none fs.diskFiles j = _)
    rw [set_other differ, set_other differ]
    exact ⟨rfl, id⟩

theorem Spares.syncFile : Spares other fs (fs.syncFile i) where
  holds _ h := h
  owns _ _ h := h
  content j _ := by
    refine ⟨rfl, fun saved => ?_⟩
    change set i (some (fs.files i)) fs.diskFiles j = _
    by_cases same : j = i
    · rw [same, set_self]
    · rw [set_other same]
      exact saved

theorem Spares.disk {disk : Nat → Bytes → Option Entry}
    (source : ∀ d name, disk d name = fs.diskEntries d name ∨ disk d name = fs.entries d name) :
    Spares other fs { fs with diskEntries := disk } where
  holds _ h := h
  owns _ _ owned d name hentry := owned d name (source_entry source hentry)
  content _ _ := ⟨rfl, id⟩

theorem Spares.makeDirectory (free : fs.entries d name = none) :
    Spares other fs (fs.makeDirectory d name) where
  holds i h := by
    refine h.kept (fun d' name' e he => point_kept (fun j hj => ?_) he) fun d' hd' => ?_
    · rw [free] at hj
      cases hj
    · change point d name _ fs.entries d' other.temporary = _
      rw [point_other]
      · exact hd'
      · rintro ⟨rfl, rfl⟩
        rw [free] at hd'
        cases hd'
  owns i _ owned d' name' hentry := by
    refine owned d' name' (hentry.imp_left fun hentry => ?_)
    rcases point_eq hentry with ⟨_, _, hnew⟩ | hentry
    · cases hnew
    · exact hentry
  content _ _ := ⟨rfl, id⟩

theorem Spares.createFile (tree : fs.Tree) (apart : job.apart other)
    (free : fs.entries d job.temporary = none) (content : Bytes) :
    Spares other fs (fs.createFile d job.temporary content) where
  holds i h := by
    refine h.kept (fun d' name' e he => point_kept (fun j hj => ?_) he) fun d' hd' => ?_
    · rw [free] at hj
      cases hj
    · change point d job.temporary _ fs.entries d' other.temporary = _
      rw [point_other fun same => (apart_iff.mp apart).1 same.2.symm]
      exact hd'
  owns i holds owned d' name' hentry := by
    obtain ⟨d₀, _, held⟩ := holds
    have known := (tree.known _ _ _ held).2
    refine owned d' name' (hentry.imp_left fun hentry => ?_)
    rcases point_eq hentry with ⟨_, _, hnew⟩ | hentry
    · cases hnew
      exact absurd known (lt_irrefl _)
    · exact hentry
  content i holds := by
    obtain ⟨d₀, _, held⟩ := holds
    have known : i ≠ fs.next := Nat.ne_of_lt (tree.known _ _ _ held).2
    change set fs.next content fs.files i = _ ∧ (_ → set fs.next none fs.diskFiles i = _)
    rw [set_other known, set_other known]
    exact ⟨rfl, id⟩

theorem Spares.unlink (apart : job.apart other)
    (hentry : fs.entries d job.temporary = some (.file i)) :
    Spares other fs (fs.relink d job.temporary none) where
  holds j h := by
    refine h.kept (fun d' name' e he => point_kept (fun k hk => ?_) he) fun d' hd' => ?_
    · rw [hentry] at hk
      cases hk
    · change point d job.temporary none fs.entries d' other.temporary = _
      rw [point_other fun same => (apart_iff.mp apart).1 same.2.symm]
      exact hd'
  owns j _ owned d' name' hold := by
    refine owned d' name' (hold.imp_left fun hold => ?_)
    rcases point_eq hold with ⟨_, _, hnew⟩ | hold
    · cases hnew
    · exact hold
  content _ _ := ⟨rfl, id⟩

theorem rename_directories (hentry : fs.entries d job.temporary = some (.file i))
    (free : ∀ j, fs.entries d job.name ≠ some (.directory j)) (d' : Nat) (name' : Bytes) (e : Nat)
    (h : fs.entries d' name' = some (.directory e)) :
    (fs.rename d job.temporary job.name (.file i)).entries d' name' = some (.directory e) := by
  refine point_kept (fun j hj => ?_) (point_kept free h)
  rcases point_eq hj with ⟨_, _, hnew⟩ | hj
  · cases hnew
  · rw [hentry] at hj
    cases hj

theorem Spares.rename (apart : job.apart other)
    (hentry : fs.entries d job.temporary = some (.file i))
    (free : ∀ j, fs.entries d job.name ≠ some (.directory j)) :
    Spares other fs (fs.rename d job.temporary job.name (.file i)) where
  holds j h := by
    refine h.kept (rename_directories hentry free) fun d' hd' => ?_
    obtain ⟨differ, _, unmentioned⟩ := apart_iff.mp apart
    change point d job.temporary none (point d job.name (some (.file i)) fs.entries) d'
      other.temporary = _
    rw [point_other fun same => differ same.2.symm, point_other]
    · exact hd'
    · rintro ⟨_, same⟩
      rw [same] at unmentioned
      exact unmentioned (name_mentioned job)
  owns j _ owned d' name' hold := by
    rcases hold with hold | hold
    · rcases rename_eq hold with ⟨_, _, hx⟩ | ⟨_, hold⟩
      · cases hx
        exact absurd (owned d job.temporary (.inl hentry)) (apart_iff.mp apart).1
      · exact owned d' name' (.inl hold)
    · exact owned d' name' (.inr hold)
  content _ _ := ⟨rfl, id⟩

end Other

/-! ## Steps -/

section Steps

variable {initial fs fs' : Disk} {jobs : List CopyJob} {job other : CopyJob}
  {stage stage' : CopyStage}

theorem CopyMoves.shelved (move : CopyMoves fs job stage fs' stage')
    (shelved : Shelved initial jobs fs) (hjob : job ∈ jobs)
    (staged : Staged initial jobs fs job stage) : Shelved initial jobs fs' := by
  cases move with
  | made _ _ hwalk free => exact shelved.makeDirectory (shelved.tree.walk_lt hwalk) free
  | opened _ hwalk free => exact shelved.createFile hjob (shelved.tree.walk_lt hwalk) [] free
  | copied => exact shelved.write hjob staged.2.1 _
  | synchronized => exact shelved.syncFile
  | @renamed missing d i hwalk hentry free =>
    obtain ⟨j, ⟨d', hwalk', hentry'⟩, delivers, saved⟩ := staged
    rw [hwalk] at hwalk'
    cases hwalk'
    rw [hentry] at hentry'
    cases hentry'
    exact shelved.rename hjob hwalk hentry free saved delivers
  | synchronizedParent => exact shelved.disk shelved.tree.syncDirectory (syncDirectory_either fs _)
  | synchronizedMissing => exact shelved.disk shelved.tree.syncDirectory (syncDirectory_either fs _)
  | removed _ hentry => exact shelved.unlink hentry
  | _ => exact shelved

theorem CopyMoves.spares (move : CopyMoves fs job stage fs' stage') (tree : fs.Tree)
    (staged : Staged initial jobs fs job stage) (apart : job.apart other) :
    Spares other fs fs' := by
  cases move with
  | made _ _ _ free => exact .makeDirectory free
  | opened _ _ free => exact .createFile tree apart free []
  | copied => exact .write staged.2.1 apart _
  | synchronized => exact .syncFile
  | renamed _ hentry free => exact .rename apart hentry free
  | synchronizedParent => exact .disk (syncDirectory_either fs _)
  | synchronizedMissing => exact .disk (syncDirectory_either fs _)
  | removed _ hentry => exact .unlink apart hentry
  | _ => exact .refl

/-- Every call knows its own temporary name alone. -/
structure Apart (jobs : List CopyJob) : Prop where
  own : ∀ job ∈ jobs, job.temporary ∉ job.mentions
  others : ∀ (n m : Nat) (a b : CopyJob), n ≠ m → jobs[n]? = some a → jobs[m]? = some b →
    a.apart b

theorem apart_symm {a b : CopyJob} (h : a.apart b) : b.apart a := by
  obtain ⟨differ, first, second⟩ := apart_iff.mp h
  exact apart_iff.mpr ⟨differ.symm, second, first⟩

theorem Apart.snoc (apart : Apart jobs) (own : job.temporary ∉ job.mentions)
    (new : ∀ a ∈ jobs, job.apart a) : Apart (jobs ++ [job]) where
  own a ha := by
    rcases List.mem_append.mp ha with old | last
    · exact apart.own a old
    · rw [List.mem_singleton.mp last]
      exact own
  others n m a b differ hn hm := by
    rw [List.getElem?_append] at hn hm
    split at hn
    · split at hm
      · exact apart.others n m a b differ hn hm
      · rw [List.getElem?_singleton] at hm
        split at hm
        · cases hm
          exact apart_symm (new a (List.mem_of_getElem? hn))
        · cases hm
    · rw [List.getElem?_singleton] at hn
      split at hn
      case isFalse => cases hn
      cases hn
      split at hm
      · exact new b (List.mem_of_getElem? hm)
      · rw [List.getElem?_singleton] at hm
        split at hm
        · omega
        · cases hm

theorem Apart.plain (apart : Apart jobs) (hjob : job ∈ jobs) {name : Bytes}
    (mentioned : name ∈ job.mentions) : Plain jobs name := by
  rintro other hother rfl
  obtain ⟨n, hn⟩ := List.getElem?_of_mem hother
  obtain ⟨m, hm⟩ := List.getElem?_of_mem hjob
  by_cases same : n = m
  · rw [same, hm] at hn
    cases hn
    exact apart.own job hjob mentioned
  · exact (apart_iff.mp (apart.others n m _ _ same hn hm)).2.1 mentioned

theorem Shelved.read (shelved : Shelved initial jobs fs) {path : List Bytes} {name bytes : Bytes}
    (plain : Plain jobs name) (h : Disk.read fs path name = some bytes) :
    Written initial jobs path name bytes := by
  rw [Disk.read, Disk.content.eq_def] at h
  split at h
  · next i hfind =>
    cases h
    obtain ⟨d, hwalk, hentry⟩ := find_file hfind
    have written := (shelved.whole d name i (.inl hentry) plain).2
    rw [shelved.tree.location_root hwalk] at written
    exact written
  · cases h

/-- What a call reads from its source is what it has to copy. -/
theorem Shelved.delivers (shelved : Shelved initial jobs fs) (apart : Apart jobs)
    (hjob : job ∈ jobs) {bytes : Bytes} (h : sourceBytes fs job.source = some bytes) :
    Delivers initial jobs job bytes := by
  rw [Delivers]
  cases hsource : job.source with
  | given file =>
    rw [hsource] at h
    exact Option.some.inj h
  | stored directory name =>
    rw [hsource] at h
    refine shelved.read (apart.plain hjob ?_) h
    rw [CopyJob.mentions, hsource]
    simp

theorem CopyMoves.staged (move : CopyMoves fs job stage fs' stage')
    (shelved : Shelved initial jobs fs) (apart : Apart jobs) (hjob : job ∈ jobs)
    (staged : Staged initial jobs fs job stage) : Staged initial jobs fs' job stage' := by
  cases move with
  | @opened missing content d hsource hwalk free =>
    have kept := shelved.tree
    refine ⟨⟨d, walk_kept (fun d' name e he => point_kept (fun j hj => ?_) he) hwalk, point_self⟩,
      fun d' name hentry => ?_, shelved.delivers apart hjob hsource⟩
    · rw [free] at hj
      cases hj
    · rcases hentry with hentry | hentry
      · rcases point_eq hentry with ⟨_, hname, _⟩ | hentry
        · exact hname
        · exact absurd (kept.known _ _ _ hentry).2 (lt_irrefl _)
      · exact absurd (kept.diskKnown _ _ _ hentry).2 (lt_irrefl _)
  | @copied missing i content =>
    refine ⟨i, staged.1, ?_⟩
    change Delivers initial jobs job (set i content fs.files i)
    rw [set_self]
    exact staged.2.2
  | @synchronized missing d i hwalk hentry =>
    obtain ⟨j, ⟨d', hwalk', hentry'⟩, delivers⟩ := staged
    rw [hwalk] at hwalk'
    cases hwalk'
    rw [hentry] at hentry'
    cases hentry'
    exact ⟨i, ⟨d, hwalk, hentry⟩, delivers, set_self⟩
  | _ => trivial

end Steps

/-! ## Runs -/

def State.jobs (s : State) : List CopyJob := s.calls.map Copy.toCopyJob

structure Sound (c : FilesystemStore) (s : State) : Prop where
  shelved : Shelved c.initial s.jobs s.fs
  apart : Apart s.jobs
  staged : ∀ call ∈ s.calls, Staged c.initial s.jobs s.fs call.toCopyJob call.stage

section Runs

variable {c : FilesystemStore} {s s' : State} {number : Nat} {call : Copy} {stage : CopyStage}

theorem move_get {m : Nat} {moved : Copy} (h : (s.move number stage).calls[m]? = some moved) :
    m ≠ number ∧ s.calls[m]? = some moved ∨
      m = number ∧ ∃ call, s.calls[number]? = some call ∧ moved = { call with stage := stage } := by
  change (s.calls.modify number _)[m]? = some moved at h
  rw [List.getElem?_modify] at h
  obtain ⟨call, hcall, hmoved⟩ := Option.map_eq_some_iff.mp h
  by_cases here : number = m
  · rw [if_pos here] at hmoved
    rw [here]
    exact .inr ⟨rfl, call, hcall, hmoved.symm⟩
  · rw [if_neg here] at hmoved
    rw [← hmoved]
    exact .inl ⟨fun same => here same.symm, hcall⟩

theorem move_jobs : (s.move number stage).jobs = s.jobs := by
  apply List.ext_getElem?
  intro m
  rw [State.jobs, State.jobs, List.getElem?_map, List.getElem?_map]
  change ((s.calls.modify number _)[m]?).map _ = _
  rw [List.getElem?_modify]
  cases s.calls[m]? with
  | none => rfl
  | some call =>
    rw [Option.map_eq_map, Option.map_some, Option.map_some, Option.map_some]
    split <;> rfl

theorem lost_jobs (calls : List Copy) :
    (calls.map Copy.lost).map Copy.toCopyJob = calls.map Copy.toCopyJob := by
  rw [List.map_map]
  refine List.map_congr_left fun call _ => ?_
  change call.lost.toCopyJob = call.toCopyJob
  rw [Copy.lost]
  split <;> rfl

theorem job_mem (h : s.calls[number]? = some call) : call.toCopyJob ∈ s.jobs :=
  List.mem_map_of_mem (List.mem_of_getElem? h)

theorem jobs_get (h : s.calls[number]? = some call) : s.jobs[number]? = some call.toCopyJob := by
  rw [State.jobs, List.getElem?_map, h, Option.map_some]

theorem sound_init (c : FilesystemStore) : Sound c c.system.init where
  apart := by
    change Apart []
    exact ⟨fun _ h => absurd h List.not_mem_nil, fun n _ a _ _ h => by
      rw [List.getElem?_nil] at h
      cases h⟩
  staged _ h := absurd h List.not_mem_nil
  shelved := by
    refine ⟨c.tree, fun d name i hentry _ => ⟨c.kept i, .initial ?_⟩⟩
    have here : c.initial.entries d name = some (.file i) := by
      rcases hentry with h | h
      · exact h
      · rw [← c.settled]
        exact h
    change Disk.read c.initial (c.initial.location d) name = some (c.initial.files i)
    rw [Disk.read, find_of_walk (c.rooted d name _ here), here]
    rfl

theorem Sound.begin {job : CopyJob} (h : Sound c s) (hs : begin s job = some s') :
    Sound c s' := by
  rw [FilesystemStore.begin] at hs
  split at hs
  case isFalse => cases hs
  next new =>
  cases hs
  obtain ⟨⟨own, _⟩, others⟩ := by
    simpa only [fresh, Bool.and_eq_true, Bool.not_eq_true', List.all_eq_true,
      List.contains_eq_mem, decide_eq_false_iff_not] using new
  have jobs : State.jobs { s with calls := s.calls ++ [⟨job, .searching job.parent []⟩] } =
      s.jobs ++ [job] := by
    rw [State.jobs, List.map_append]
    rfl
  have within : ∀ j ∈ s.jobs, j ∈ s.jobs ++ [job] := fun j hj => List.mem_append_left _ hj
  refine ⟨?_, ?_, ?_⟩
  · rw [jobs]
    exact ⟨h.shelved.tree, fun d name i hentry plain =>
      (h.shelved.whole d name i hentry fun j hj => plain j (within j hj)).imp_right
        fun written => written.mono within⟩
  · rw [jobs]
    refine h.apart.snoc own fun a ha => ?_
    obtain ⟨call, hcall, rfl⟩ := List.mem_map.mp ha
    exact others call hcall
  · rw [jobs]
    intro call hcall
    rcases List.mem_append.mp hcall with old | new
    · exact (h.staged call old).mono within
    · cases List.mem_singleton.mp new
      trivial

/-- A call changes the file system and goes on. -/
theorem Sound.moved {fs : Disk} (h : Sound c s) (hcall : s.calls[number]? = some call)
    (shelved : Shelved c.initial s.jobs fs)
    (spares : ∀ other : CopyJob, call.apart other → Spares other s.fs fs)
    (staged : Staged c.initial s.jobs fs call.toCopyJob stage) :
    Sound c { s.move number stage with fs := fs } := by
  have jobs : State.jobs { s.move number stage with fs := fs } = s.jobs := move_jobs
  refine ⟨?_, ?_, ?_⟩
  · rw [jobs]
    exact shelved
  · rw [jobs]
    exact h.apart
  · rw [jobs]
    intro moved hmoved
    obtain ⟨m, hm⟩ := List.getElem?_of_mem hmoved
    rcases move_get hm with ⟨differ, hother⟩ | ⟨_, before, hbefore, rfl⟩
    · have apart := h.apart.others number m _ _ differ.symm (jobs_get hcall) (jobs_get hother)
      exact (h.staged moved (List.mem_of_getElem? hother)).spared (spares _ apart)
    · rw [hcall] at hbefore
      cases hbefore
      exact staged

theorem CopyStage.failing_staged {stage' : CopyStage} {fs initial : Disk} {jobs : List CopyJob}
    {job : CopyJob} (h : stage.failing = some stage') : Staged initial jobs fs job stage' := by
  cases stage <;> cases h <;> trivial

theorem Sound.step {act : Act} (h : Sound c s) (hs : c.step s act = some s') : Sound c s' := by
  cases act with
  | put key file random =>
    rw [FilesystemStore.step] at hs
    split at hs
    · exact h.begin hs
    · cases hs
      exact h
  | get key directory name random =>
    rw [FilesystemStore.step] at hs
    split at hs
    · exact h.begin hs
    · cases hs
      exact h
  | advance number =>
    obtain ⟨call, hcall, hs⟩ := Option.bind_eq_some_iff.mp hs
    obtain ⟨⟨fs, stage⟩, hstep, hs⟩ := Option.bind_eq_some_iff.mp hs
    cases hs
    have move := copyStep_moves hstep
    have staged := h.staged call (List.mem_of_getElem? hcall)
    exact h.moved hcall (move.shelved h.shelved (job_mem hcall) staged)
      (fun other apart => move.spares h.shelved.tree staged apart)
      (move.staged h.shelved h.apart (job_mem hcall) staged)
  | progress number bytes =>
    obtain ⟨call, hcall, hs⟩ := Option.bind_eq_some_iff.mp hs
    split at hs
    case h_2 => cases hs
    next missing i content hstage =>
    cases hs
    have staged := h.staged call (List.mem_of_getElem? hcall)
    rw [hstage] at staged
    refine ⟨h.shelved.write (job_mem hcall) staged.2.1 bytes, h.apart, fun other hother => ?_⟩
    obtain ⟨m, hm⟩ := List.getElem?_of_mem hother
    by_cases same : m = number
    · rw [same, hcall] at hm
      cases hm
      rw [hstage]
      exact staged
    · have apart := h.apart.others number m _ _ (Ne.symm same) (jobs_get hcall) (jobs_get hm)
      exact (h.staged other hother).spared (.write staged.2.1 apart bytes)
  | fail number =>
    obtain ⟨call, hcall, hs⟩ := Option.bind_eq_some_iff.mp hs
    obtain ⟨stage, hstage, hs⟩ := Option.bind_eq_some_iff.mp hs
    cases hs
    exact h.moved hcall h.shelved (fun _ _ => .refl) (CopyStage.failing_staged hstage)
  | writeBack inode name =>
    cases hs
    exact ⟨h.shelved.disk h.shelved.tree.writeBack (writeBack_either s.fs _ _), h.apart,
      fun call hcall => (h.staged call hcall).spared (.disk (writeBack_either s.fs _ _))⟩
  | crash garbage =>
    cases hs
    have jobs : State.jobs ⟨s.fs.crash garbage, s.calls.map Copy.lost⟩ = s.jobs :=
      lost_jobs s.calls
    refine ⟨?_, ?_, ?_⟩
    · rw [jobs]
      exact h.shelved.crash garbage
    · rw [jobs]
      exact h.apart
    · intro call hcall
      obtain ⟨before, _, rfl⟩ := List.mem_map.mp hcall
      rw [Copy.lost]
      split
      · next returned =>
        rw [returned]
        trivial
      · trivial

theorem sound (h : c.system.Reachable s) : Sound c s :=
  h.invariant (sound_init c) fun _ _ _ h hs => h.step hs

end Runs

/-! ## What the paths hold -/

section Reads

variable {c : FilesystemStore} {s s' : State} {fs fs' : Disk} {jobs : List CopyJob}
  {job : CopyJob} {stage stage' : CopyStage} {path : List Bytes} {name : Bytes} {d i : Nat}

theorem read_congr (directories : ∀ d name e, fs.entries d name = some (.directory e) ↔
      fs'.entries d name = some (.directory e))
    (entry : ∀ d, fs'.entries d name = fs.entries d name)
    (content : ∀ d i, fs.entries d name = some (.file i) → fs'.files i = fs.files i) :
    Disk.read fs' path name = Disk.read fs path name := by
  rw [Disk.read, Disk.read, find, find, ← walk_congr directories path]
  cases walk fs.entries 0 path with
  | none => rfl
  | some d =>
    rw [Option.bind_some, Option.bind_some, entry d]
    cases hentry : fs.entries d name with
    | none => rfl
    | some e =>
      cases e with
      | directory j => rfl
      | file j =>
        change some (fs'.files j) = some (fs.files j)
        rw [content d j hentry]

theorem read_write (owned : Owns fs job i) (other : name ≠ job.temporary) (content : Bytes) :
    Disk.read (fs.write i content) path name = Disk.read fs path name := by
  refine read_congr (fun _ _ _ => Iff.rfl) (fun _ => rfl) fun d j hentry => set_other ?_
  rintro rfl
  exact other (owned d name (.inl hentry))

/-- The directories stay when a file comes or goes. -/
theorem point_directories {entry : Option Entry} {part : Bytes}
    (before : ∀ j, fs.entries d part ≠ some (.directory j))
    (after : ∀ j, entry ≠ some (.directory j)) (d' : Nat) (name' : Bytes) (e : Nat) :
    fs.entries d' name' = some (.directory e) ↔
      (fs.relink d part entry).entries d' name' = some (.directory e) := by
  refine ⟨point_kept before, fun h => ?_⟩
  rcases point_eq h with ⟨_, _, hnew⟩ | h
  · exact absurd hnew (after e)
  · exact h

theorem read_createFile (tree : fs.Tree) (free : fs.entries d job.temporary = none)
    (other : name ≠ job.temporary) (content : Bytes) :
    Disk.read (fs.createFile d job.temporary content) path name = Disk.read fs path name := by
  refine read_congr (point_directories (fun j hj => ?_) fun j hj => ?_) (fun d' => ?_)
    fun d' j hentry => set_other ?_
  · rw [free] at hj
    cases hj
  · cases hj
  · exact point_other fun same => other same.2
  · exact Nat.ne_of_lt (tree.known _ _ _ hentry).2

theorem read_unlink (hentry : fs.entries d job.temporary = some (.file i))
    (other : name ≠ job.temporary) :
    Disk.read (fs.relink d job.temporary none) path name = Disk.read fs path name := by
  refine read_congr (point_directories (fun j hj => ?_) fun j hj => by cases hj) (fun d' => ?_)
    fun _ _ _ => rfl
  · rw [hentry] at hj
    cases hj
  · exact point_other fun same => other same.2

theorem read_makeDirectory (tree : fs.Tree) (hd : d < fs.next) {part : Bytes}
    (free : fs.entries d part = none) :
    Disk.read (fs.makeDirectory d part) path name = Disk.read fs path name := by
  have directories : ∀ d' name' e, fs.entries d' name' = some (.directory e) →
      (fs.makeDirectory d part).entries d' name' = some (.directory e) := by
    intro d' name' e h
    refine point_kept (fun j hj => ?_) h
    rw [free] at hj
    cases hj
  rw [Disk.read, Disk.read, find, find]
  cases hwalk : walk fs.entries 0 path with
  | some d' =>
    rw [walk_kept directories hwalk, Option.bind_some, Option.bind_some]
    change Disk.content _ (point d part (some (.directory fs.next)) fs.entries d' name) = _
    by_cases here : d' = d ∧ name = part
    · obtain ⟨rfl, rfl⟩ := here
      rw [point_self, free]
      rfl
    · rw [point_other here]
      rfl
  | none =>
    cases hmade : walk (fs.makeDirectory d part).entries 0 path with
    | none => rfl
    | some e =>
      have new : e = fs.next := by
        by_contra old
        rw [tree.walk_made hd tree.begun hmade old] at hwalk
        cases hwalk
      rw [Option.bind_some, Option.bind_none, new]
      change Disk.content _ (point d part (some (.directory fs.next)) fs.entries fs.next name) = _
      rw [point_other fun same => Nat.ne_of_gt hd same.1]
      cases hentry : fs.entries fs.next name with
      | none => rfl
      | some x => exact absurd (tree.known _ _ _ hentry).1 (lt_irrefl _)

/-- A path changes at a renaming only, to the whole file of the call. -/
theorem CopyMoves.read {initial : Disk} (move : CopyMoves fs job stage fs' stage')
    (shelved : Shelved initial jobs fs) (staged : Staged initial jobs fs job stage)
    (other : name ≠ job.temporary) :
    Disk.read fs' path name = Disk.read fs path name ∨
      (∃ missing, stage = .moving missing) ∧ path = job.parent ∧ name = job.name ∧
        ∃ bytes, Delivers initial jobs job bytes ∧ Disk.read fs' path name = some bytes := by
  cases move with
  | made _ _ hwalk free =>
    exact .inl (read_makeDirectory shelved.tree (shelved.tree.walk_lt hwalk) free)
  | opened _ _ free => exact .inl (read_createFile shelved.tree free other [])
  | copied => exact .inl (read_write staged.2.1 other _)
  | removed _ hentry => exact .inl (read_unlink hentry other)
  | @renamed missing d i hwalk hentry free =>
    obtain ⟨j, ⟨d', hwalk', hentry'⟩, delivers, _⟩ := staged
    rw [hwalk] at hwalk'
    cases hwalk'
    rw [hentry] at hentry'
    cases hentry'
    have directories : ∀ d' name' e, fs.entries d' name' = some (.directory e) ↔
        (fs.rename d job.temporary job.name (.file i)).entries d' name' = some (.directory e) := by
      intro d' name' e
      refine ⟨rename_directories hentry free d' name' e, fun h => ?_⟩
      rcases rename_eq h with ⟨_, _, hx⟩ | ⟨_, h⟩
      · cases hx
      · exact h
    have hwalk' := (walk_congr directories job.parent).symm.trans hwalk
    have tree := shelved.tree.rename hentry free
    by_cases here : path = job.parent ∧ name = job.name
    · obtain ⟨rfl, rfl⟩ := here
      refine .inr ⟨⟨missing, rfl⟩, rfl, rfl, fs.files i, delivers, ?_⟩
      rw [Disk.read, find_of_walk hwalk', rename_target other]
      rfl
    · refine .inl ?_
      rw [Disk.read, Disk.read, find, find, ← walk_congr directories path]
      cases hpath : walk fs.entries 0 path with
      | none => rfl
      | some d' =>
        have elsewhere : ¬(d' = d ∧ name = job.name) := by
          rintro ⟨rfl, rfl⟩
          have same := shelved.tree.location_root hpath
          rw [shelved.tree.location_root hwalk] at same
          exact here ⟨same.symm, rfl⟩
        rw [Option.bind_some, Option.bind_some]
        change Disk.content _ (point d job.temporary none (point d job.name _ fs.entries) d' name) =
          _
        rw [point_other fun same => other same.2, point_other elsewhere]
        rfl
  | _ => exact .inl rfl

/-- At every moment a path holds all the bytes that some call had for it, also after calls failed
and the machine stopped at any point. But for these stops it changes only when a call for the path
renames its file. -/
theorem blob_whole (h : c.system.Reachable s) (plain : Plain s.jobs name) :
    (∀ bytes, s.fs.read path name = some bytes → Written c.initial s.jobs path name bytes) ∧
    ∀ act s', c.step s act = some s' → (∀ garbage, act ≠ .crash garbage) →
      s'.fs.read path name = s.fs.read path name ∨
      ∃ number call missing bytes, act = .advance number ∧ s.calls[number]? = some call ∧
        call.stage = .moving missing ∧ call.parent = path ∧ call.name = name ∧
        Delivers c.initial s.jobs call.toCopyJob bytes ∧
        s'.fs.read path name = some bytes := by
  have sound := sound h
  refine ⟨fun bytes hread => sound.shelved.read plain hread, fun act s' hs running => ?_⟩
  cases act with
  | put key file random =>
    rw [FilesystemStore.step] at hs
    split at hs
    · rw [begin] at hs
      split at hs
      · cases hs
        exact .inl rfl
      · cases hs
    · cases hs
      exact .inl rfl
  | get key directory stored random =>
    rw [FilesystemStore.step] at hs
    split at hs
    · rw [begin] at hs
      split at hs
      · cases hs
        exact .inl rfl
      · cases hs
    · cases hs
      exact .inl rfl
  | advance number =>
    obtain ⟨call, hcall, hs⟩ := Option.bind_eq_some_iff.mp hs
    obtain ⟨⟨fs, stage⟩, hstep, hs⟩ := Option.bind_eq_some_iff.mp hs
    cases hs
    have staged := sound.staged call (List.mem_of_getElem? hcall)
    have move := copyStep_moves hstep
    rcases move.read sound.shelved staged (plain _ (job_mem hcall)) with
      same | ⟨⟨missing, hstage⟩, hpath, hname, bytes, written⟩
    · exact .inl same
    · exact .inr ⟨number, call, missing, bytes, rfl, hcall, hstage, hpath.symm, hname.symm,
        written⟩
  | progress number bytes =>
    obtain ⟨call, hcall, hs⟩ := Option.bind_eq_some_iff.mp hs
    split at hs
    case h_2 => cases hs
    next missing i content hstage =>
    cases hs
    have staged := sound.staged call (List.mem_of_getElem? hcall)
    rw [hstage] at staged
    exact .inl (read_write staged.2.1 (plain _ (job_mem hcall)) bytes)
  | fail number =>
    obtain ⟨call, _, hs⟩ := Option.bind_eq_some_iff.mp hs
    obtain ⟨stage, _, hs⟩ := Option.bind_eq_some_iff.mp hs
    cases hs
    exact .inl rfl
  | writeBack inode part =>
    cases hs
    exact .inl rfl
  | crash garbage => exact absurd rfl (running garbage)

/-- An empty store whose root is that of the file system. -/
def emptyStore : FilesystemStore where
  root := []
  initial := ⟨fun _ _ => none, fun _ => [], fun _ _ => none, fun _ => some [], fun _ => [], 1⟩
  tree :=
    { root := rfl
      known := by rintro _ _ _ ⟨⟩
      diskKnown := by rintro _ _ _ ⟨⟩
      located := by rintro _ _ _ ⟨⟩
      kept := by rintro _ _ _ ⟨⟩
      begun := Nat.one_pos }
  settled := rfl
  kept _ := rfl
  rooted := by rintro _ _ _ ⟨⟩

/-- A blob is put below a new directory, and the machine stops in the middle of another put. -/
def twoPuts : List Act :=
  .put (utf8 "a/b") [1, 2] (utf8 "x") :: List.replicate 12 (.advance 0) ++
    .put (utf8 "a/c") [3] (utf8 "y") :: List.replicate 6 (.advance 1) ++ [.crash fun _ => [9]]

theorem blob_whole_twoPuts : ∃ s, emptyStore.system.Reachable s ∧
    s.fs.read [utf8 "a"] (utf8 "b") = some [1, 2] ∧
    Written emptyStore.initial s.jobs [utf8 "a"] (utf8 "b") [1, 2] := by
  have run : (emptyStore.system.replay (fun _ _ => true) emptyStore.system.init twoPuts).map
      (fun s => (s.fs.read [utf8 "a"] (utf8 "b"), s.jobs.map CopyJob.temporary)) =
      some (some [1, 2], [utf8 "b.tmp-x", utf8 "c.tmp-y"]) := by
    decide +kernel
  obtain ⟨s, hs, hread⟩ := Option.map_eq_some_iff.mp run
  obtain ⟨hread, htemporary⟩ := Prod.mk.injEq .. ▸ hread
  have reachable := System.replay_reachable hs
  refine ⟨s, reachable, hread, (blob_whole reachable fun job hjob => ?_).1 _ hread⟩
  have hname := List.mem_map_of_mem (f := CopyJob.temporary) hjob
  rw [htemporary] at hname
  rintro same
  rw [← same] at hname
  revert hname
  decide +kernel

end Reads

end FilesystemStore

end Runyard
