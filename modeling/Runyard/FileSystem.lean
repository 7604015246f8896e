import Mathlib.Data.List.Basic

/-!
# File systems that crash

What processes see is the cache, what a crash leaves is the disk. A directory is on the disk as it
is in the cache once it is synchronized, and so is a file. Besides, the system writes single
entries back whenever it likes. A file that was not synchronized since it was written holds
anything after a crash. Directories are neither moved nor removed.
-/

universe u v

inductive Entry where
  | directory (inode : Nat)
  | file (inode : Nat)
  deriving DecidableEq, Repr

def Entry.inode : Entry → Nat
  | .directory i => i
  | .file i => i

/-- Directories map names to entries. The inode 0 is the root. -/
structure FileSystem (ν : Type u) (β : Type v) where
  entries : Nat → ν → Option Entry
  files : Nat → β
  diskEntries : Nat → ν → Option Entry
  /-- What a file holds after a crash, when that is known. -/
  diskFiles : Nat → Option β
  /-- The path at which a directory was made. -/
  location : Nat → List ν
  next : Nat

namespace FileSystem

variable {ν : Type u} {β : Type v}

/-- The directory at a path below another one. -/
def walk (entries : Nat → ν → Option Entry) : Nat → List ν → Option Nat
  | d, [] => some d
  | d, name :: rest =>
    match entries d name with
    | some (.directory e) => walk entries e rest
    | _ => none

/-- The entry with a name in the directory at a path. -/
def find (entries : Nat → ν → Option Entry) (path : List ν) (name : ν) : Option Entry :=
  (walk entries 0 path).bind fun d => entries d name

def set {α : Type v} (i : Nat) (a : α) (f : Nat → α) : Nat → α := fun j => if j = i then a else f j

def write (i : Nat) (content : β) (fs : FileSystem ν β) : FileSystem ν β :=
  { fs with files := set i content fs.files, diskFiles := set i none fs.diskFiles }

/-- `fsync` of a file. -/
def syncFile (i : Nat) (fs : FileSystem ν β) : FileSystem ν β :=
  { fs with diskFiles := set i (some (fs.files i)) fs.diskFiles }

/-- `fsync` of a directory. -/
def syncDirectory (d : Nat) (fs : FileSystem ν β) : FileSystem ν β :=
  { fs with diskEntries := fun d' name => if d' = d then fs.entries d name
      else fs.diskEntries d' name }

/-- The machine stops and starts again; `garbage` is what the files hold that were not
synchronized. -/
def crash (garbage : Nat → β) (fs : FileSystem ν β) : FileSystem ν β :=
  let files := fun i => (fs.diskFiles i).getD (garbage i)
  { fs with entries := fs.diskEntries, files := files, diskFiles := fun i => some (files i) }

/-! ## Paths -/

section Walk

variable {entries entries' : Nat → ν → Option Entry} {d e : Nat} {path rest : List ν} {name : ν}

theorem walk_append (path rest : List ν) :
    walk entries d (path ++ rest) = (walk entries d path).bind fun e => walk entries e rest := by
  induction path generalizing d with
  | nil => rfl
  | cons name path ih =>
    rw [List.cons_append, walk, walk]
    cases entries d name with
    | none => rfl
    | some entry =>
      cases entry with
      | directory e => exact ih
      | file i => rfl

theorem walk_snoc (h : walk entries d path = some e) :
    walk entries d (path ++ [name]) = match entries e name with
      | some (.directory i) => some i
      | _ => none := by
  rw [walk_append, h, Option.bind_some, walk]
  cases entries e name with
  | none => rfl
  | some entry => cases entry <;> rfl

/-- Directories that stay keep their paths. -/
theorem walk_kept (kept : ∀ d name e, entries d name = some (.directory e) →
    entries' d name = some (.directory e)) (h : walk entries d path = some e) :
    walk entries' d path = some e := by
  induction path generalizing d with
  | nil => exact h
  | cons name path ih =>
    rw [walk] at h ⊢
    cases hentry : entries d name with
    | none =>
      rw [hentry] at h
      cases h
    | some entry =>
      rw [hentry] at h
      cases entry with
      | directory i =>
        rw [kept d name i hentry]
        exact ih h
      | file i => cases h

theorem walk_congr (same : ∀ d name e, entries d name = some (.directory e) ↔
    entries' d name = some (.directory e)) (path : List ν) :
    walk entries d path = walk entries' d path := by
  apply Option.ext
  intro e
  constructor
  · exact walk_kept fun d name e => (same d name e).mp
  · exact walk_kept fun d name e => (same d name e).mpr

theorem find_of_walk (h : walk entries 0 path = some d) : find entries path name =
    entries d name := by
  rw [find, h, Option.bind_some]

end Walk

/-! ## Trees -/

/-- The directories form a tree, and the disk never has one that the cache lacks. -/
structure Tree (fs : FileSystem ν β) : Prop where
  root : fs.location 0 = []
  known : ∀ d name e, fs.entries d name = some e → d < fs.next ∧ e.inode < fs.next
  diskKnown : ∀ d name e, fs.diskEntries d name = some e → d < fs.next ∧ e.inode < fs.next
  located : ∀ d name e, fs.entries d name = some (.directory e) →
    fs.location e = fs.location d ++ [name]
  kept : ∀ d name e, fs.diskEntries d name = some (.directory e) →
    fs.entries d name = some (.directory e)
  begun : 0 < fs.next

section Operations

variable {fs : FileSystem ν β} {d e i : Nat} {name : ν} {path : List ν}

theorem Tree.location_walk (tree : fs.Tree) (h : walk fs.entries d path = some e) :
    fs.location e = fs.location d ++ path := by
  induction path generalizing d with
  | nil =>
    cases h
    rw [List.append_nil]
  | cons name path ih =>
    rw [walk] at h
    cases hentry : fs.entries d name with
    | none =>
      rw [hentry] at h
      cases h
    | some entry =>
      rw [hentry] at h
      cases entry with
      | directory j =>
        rw [ih h, tree.located d name j hentry, List.append_assoc, List.singleton_append]
      | file j => cases h

theorem Tree.location_root (tree : fs.Tree) (h : walk fs.entries 0 path = some e) :
    fs.location e = path := by
  rw [tree.location_walk h, tree.root, List.nil_append]

theorem Tree.walk_lt (tree : fs.Tree) (h : walk fs.entries 0 path = some e) : e < fs.next := by
  rcases List.eq_nil_or_concat path with rfl | ⟨before, name, rfl⟩
  · cases h
    exact tree.begun
  · rw [List.concat_eq_append, walk_append] at h
    obtain ⟨d, _, hname⟩ := Option.bind_eq_some_iff.mp h
    rw [walk] at hname
    cases hentry : fs.entries d name with
    | none =>
      rw [hentry] at hname
      cases hname
    | some entry =>
      rw [hentry] at hname
      cases entry with
      | directory j =>
        cases hname
        exact (tree.known d name (.directory e) hentry).2
      | file j => cases hname

/-- What the disk has of the directories, the cache has. -/
theorem Tree.walk_disk (tree : fs.Tree) (h : walk fs.diskEntries 0 path = some e) :
    walk fs.entries 0 path = some e :=
  walk_kept tree.kept h

theorem Tree.write (tree : fs.Tree) (content : β) : (fs.write i content).Tree := { tree with }

theorem Tree.syncFile (tree : fs.Tree) : (fs.syncFile i).Tree := { tree with }

theorem Tree.syncDirectory (tree : fs.Tree) : (fs.syncDirectory d).Tree where
  root := tree.root
  begun := tree.begun
  known := tree.known
  located := tree.located
  diskKnown d' name' x h := by
    change (if d' = d then fs.entries d name' else fs.diskEntries d' name') = some x at h
    split at h
    · next here =>
      rw [here]
      exact tree.known d name' x h
    · exact tree.diskKnown d' name' x h
  kept d' name' x h := by
    change (if d' = d then fs.entries d name' else fs.diskEntries d' name') = _ at h
    split at h
    · next here =>
      rw [here]
      exact h
    · exact tree.kept d' name' x h

theorem Tree.crash (tree : fs.Tree) (garbage : Nat → β) : (fs.crash garbage).Tree where
  root := tree.root
  begun := tree.begun
  known := tree.diskKnown
  diskKnown := tree.diskKnown
  located d' name' x h := tree.located d' name' x (tree.kept d' name' x h)
  kept _ _ _ h := h

end Operations

/-! ## Changing directories -/

variable [DecidableEq ν]

/-- Let a name in a directory mean something else. -/
def point (d : Nat) (name : ν) (e : Option Entry) (entries : Nat → ν → Option Entry) :
    Nat → ν → Option Entry :=
  fun d' name' => if d' = d ∧ name' = name then e else entries d' name'

def relink (d : Nat) (name : ν) (e : Option Entry) (fs : FileSystem ν β) : FileSystem ν β :=
  { fs with entries := point d name e fs.entries }

def makeDirectory (d : Nat) (name : ν) (fs : FileSystem ν β) : FileSystem ν β :=
  { fs with
    entries := point d name (some (.directory fs.next)) fs.entries
    location := fun i => if i = fs.next then fs.location d ++ [name] else fs.location i
    next := fs.next + 1 }

def createFile (d : Nat) (name : ν) (content : β) (fs : FileSystem ν β) : FileSystem ν β :=
  { fs with
    entries := point d name (some (.file fs.next)) fs.entries
    files := set fs.next content fs.files
    diskFiles := set fs.next none fs.diskFiles
    next := fs.next + 1 }

/-- `rename` of a file within a directory. -/
def rename (d : Nat) (source target : ν) (e : Entry) (fs : FileSystem ν β) : FileSystem ν β :=
  (fs.relink d target (some e)).relink d source none

/-- The system writes one entry back. -/
def writeBack (d : Nat) (name : ν) (fs : FileSystem ν β) : FileSystem ν β :=
  { fs with diskEntries := point d name (fs.entries d name) fs.diskEntries }

section Point

variable {entries : Nat → ν → Option Entry} {d d' : Nat} {name name' : ν} {e : Option Entry}

@[simp] theorem point_self : point d name e entries d name = e := if_pos ⟨rfl, rfl⟩

theorem point_other (h : ¬(d' = d ∧ name' = name)) :
    point d name e entries d' name' = entries d' name' := if_neg h

/-- An entry of the changed directory is the new one or an old one. -/
theorem point_eq {x : Entry} (h : point d name e entries d' name' = some x) :
    d' = d ∧ name' = name ∧ e = some x ∨ entries d' name' = some x := by
  by_cases here : d' = d ∧ name' = name
  · obtain ⟨rfl, rfl⟩ := here
    rw [point_self] at h
    exact .inl ⟨rfl, rfl, h⟩
  · rw [point_other here] at h
    exact .inr h

theorem point_kept {i : Nat} (free : ∀ i, entries d name ≠ some (.directory i))
    (h : entries d' name' = some (.directory i)) :
    point d name e entries d' name' = some (.directory i) := by
  rw [point_other]
  · exact h
  · rintro ⟨rfl, rfl⟩
    exact free i h

end Point

section Set

variable {α : Type v} {i j : Nat} {a : α} {f : Nat → α}

@[simp] theorem set_self : set i a f i = a := if_pos rfl

theorem set_other (h : j ≠ i) : set i a f j = f j := if_neg h

end Set

section Changes

variable {fs : FileSystem ν β} {d e i : Nat} {name : ν}

/-- A name that means no directory can be given to a file or to nothing. -/
theorem Tree.relink (tree : fs.Tree) {entry : Option Entry}
    (free : ∀ i, fs.entries d name ≠ some (.directory i))
    (plain : ∀ i, entry ≠ some (.directory i))
    (known : ∀ x, entry = some x → d < fs.next ∧ x.inode < fs.next) :
    (fs.relink d name entry).Tree where
  root := tree.root
  begun := tree.begun
  diskKnown := tree.diskKnown
  known d' name' x h := by
    rcases point_eq h with ⟨rfl, rfl, hx⟩ | h
    · exact known x hx
    · exact tree.known d' name' x h
  located d' name' x h := by
    rcases point_eq h with ⟨_, _, hx⟩ | h
    · exact absurd hx (plain x)
    · exact tree.located d' name' x h
  kept d' name' x h := point_kept free (tree.kept d' name' x h)

theorem Tree.makeDirectory (tree : fs.Tree) (hd : d < fs.next) (free : fs.entries d name = none) :
    (fs.makeDirectory d name).Tree where
  root := (if_neg (Nat.ne_of_lt tree.begun)).trans tree.root
  begun := Nat.succ_pos _
  diskKnown d' name' x h := by
    obtain ⟨hdir, hinode⟩ := tree.diskKnown d' name' x h
    exact ⟨Nat.lt_succ_of_lt hdir, Nat.lt_succ_of_lt hinode⟩
  known d' name' x h := by
    rcases point_eq h with ⟨rfl, _, hx⟩ | h
    · cases hx
      exact ⟨Nat.lt_succ_of_lt hd, Nat.lt_succ_self _⟩
    · obtain ⟨hdir, hinode⟩ := tree.known d' name' x h
      exact ⟨Nat.lt_succ_of_lt hdir, Nat.lt_succ_of_lt hinode⟩
  located d' name' x h := by
    change (if x = fs.next then fs.location d ++ [name] else fs.location x) =
      (if d' = fs.next then fs.location d ++ [name] else fs.location d') ++ [name']
    rcases point_eq h with ⟨rfl, rfl, hx⟩ | h
    · cases hx
      rw [if_pos rfl, if_neg (Nat.ne_of_lt hd)]
    · obtain ⟨hdir, hinode⟩ := tree.known d' name' (.directory x) h
      have hx : x ≠ fs.next := Nat.ne_of_lt hinode
      rw [if_neg hx, if_neg (Nat.ne_of_lt hdir), tree.located d' name' x h]
  kept d' name' x h := by
    refine point_kept (fun i hi => ?_) (tree.kept d' name' x h)
    rw [free] at hi
    cases hi

/-- Only the new directory itself is found that was not found before. -/
theorem Tree.walk_made (tree : fs.Tree) (hd : d < fs.next) {start : Nat} {path : List ν}
    (known : start < fs.next) (h : walk (fs.makeDirectory d name).entries start path = some e)
    (old : e ≠ fs.next) : walk fs.entries start path = some e := by
  induction path generalizing start with
  | nil => exact h
  | cons part rest ih =>
    rw [walk] at h ⊢
    by_cases here : start = d ∧ part = name
    · obtain ⟨rfl, rfl⟩ := here
      change (match point start part _ fs.entries start part with
        | some (.directory e) => walk (fs.makeDirectory start part).entries e rest
        | _ => none) = _ at h
      rw [point_self] at h
      cases rest with
      | nil =>
        cases h
        exact absurd rfl old
      | cons next rest =>
        change walk (fs.makeDirectory start part).entries fs.next (next :: rest) = _ at h
        have empty : (fs.makeDirectory start part).entries fs.next next = none := by
          change point start part _ fs.entries fs.next next = none
          rw [point_other fun same => Nat.ne_of_gt hd same.1]
          cases hentry : fs.entries fs.next next with
          | none => rfl
          | some x => exact absurd (tree.known _ _ _ hentry).1 (Nat.lt_irrefl _)
        rw [walk, empty] at h
        cases h
    · have same : (fs.makeDirectory d name).entries start part = fs.entries start part :=
        point_other here
      rw [same] at h
      cases hentry : fs.entries start part with
      | none =>
        rw [hentry] at h
        cases h
      | some x =>
        rw [hentry] at h
        cases x with
        | directory j => exact ih (tree.known _ _ _ hentry).2 h
        | file j => cases h

theorem Tree.createFile (tree : fs.Tree) (hd : d < fs.next) (content : β)
    (free : fs.entries d name = none) : (fs.createFile d name content).Tree where
  root := tree.root
  begun := Nat.succ_pos _
  diskKnown d' name' x h := by
    obtain ⟨hdir, hinode⟩ := tree.diskKnown d' name' x h
    exact ⟨Nat.lt_succ_of_lt hdir, Nat.lt_succ_of_lt hinode⟩
  known d' name' x h := by
    rcases point_eq h with ⟨rfl, _, hx⟩ | h
    · cases hx
      exact ⟨Nat.lt_succ_of_lt hd, Nat.lt_succ_self _⟩
    · obtain ⟨hdir, hinode⟩ := tree.known d' name' x h
      exact ⟨Nat.lt_succ_of_lt hdir, Nat.lt_succ_of_lt hinode⟩
  located d' name' x h := by
    rcases point_eq h with ⟨_, _, hx⟩ | h
    · cases hx
    · exact tree.located d' name' x h
  kept d' name' x h := by
    refine point_kept (fun i hi => ?_) (tree.kept d' name' x h)
    rw [free] at hi
    cases hi

theorem Tree.writeBack (tree : fs.Tree) : (fs.writeBack d name).Tree where
  root := tree.root
  begun := tree.begun
  known := tree.known
  located := tree.located
  diskKnown d' name' x h := by
    rcases point_eq h with ⟨rfl, rfl, hx⟩ | h
    · exact tree.known d' name' x hx
    · exact tree.diskKnown d' name' x h
  kept d' name' x h := by
    rcases point_eq h with ⟨rfl, rfl, hx⟩ | h
    · exact hx
    · exact tree.kept d' name' x h

theorem rename_target {source target : ν} {x : Entry} (differ : target ≠ source) :
    (fs.rename d source target x).entries d target = some x := by
  change point d source none (point d target (some x) fs.entries) d target = some x
  rw [point_other fun h => differ h.2, point_self]

/-- An entry after a renaming is the renamed file or was there before. -/
theorem rename_eq {source target name' : ν} {d' : Nat} {x y : Entry}
    (h : (fs.rename d source target x).entries d' name' = some y) :
    d' = d ∧ name' = target ∧ x = y ∨
      ¬(d' = d ∧ name' = source) ∧ fs.entries d' name' = some y := by
  change point d source none (point d target (some x) fs.entries) d' name' = some y at h
  by_cases removed : d' = d ∧ name' = source
  · obtain ⟨rfl, rfl⟩ := removed
    rw [point_self] at h
    cases h
  · rw [point_other removed] at h
    rcases point_eq h with ⟨hd, hname, hx⟩ | h
    · exact .inl ⟨hd, hname, Option.some.inj hx⟩
    · exact .inr ⟨removed, h⟩

theorem Tree.rename (tree : fs.Tree) {source target : ν} (hi : fs.entries d source = some (.file i))
    (free : ∀ j, fs.entries d target ≠ some (.directory j)) :
    (fs.rename d source target (.file i)).Tree := by
  have known := tree.known d source (.file i) hi
  have moved : (fs.relink d target (some (.file i))).Tree :=
    tree.relink free (fun j hj => by cases hj) fun x hx => by
      cases hx
      exact known
  refine moved.relink (fun j hj => ?_) (fun j hj => by cases hj) fun x hx => by cases hx
  rcases point_eq hj with ⟨_, _, hx⟩ | hj
  · cases hx
  · rw [hi] at hj
    cases hj

end Changes

/-! ## What stays -/

/-- The directories stay, in the cache and on the disk, and where there is a file under one of the
lasting names there is one later. -/
structure Grows (lasting : ν → Prop) (fs fs' : FileSystem ν β) : Prop where
  directories : ∀ d name e, fs.entries d name = some (.directory e) →
    fs'.entries d name = some (.directory e)
  diskDirectories : ∀ d name e, fs.diskEntries d name = some (.directory e) →
    fs'.diskEntries d name = some (.directory e)
  files : ∀ d name i, lasting name → fs.entries d name = some (.file i) →
    ∃ j, fs'.entries d name = some (.file j)
  diskFiles : ∀ d name i, lasting name → fs.diskEntries d name = some (.file i) →
    ∃ j, fs'.diskEntries d name = some (.file j)

/-- Where the disk has a file under a lasting name, the cache has one. -/
def Backed (lasting : ν → Prop) (fs : FileSystem ν β) : Prop :=
  ∀ d name i, lasting name → fs.diskEntries d name = some (.file i) →
    ∃ j, fs.entries d name = some (.file j)

section Stay

variable {fs fs' : FileSystem ν β} {lasting : ν → Prop} {d i : Nat} {name : ν}

omit [DecidableEq ν] in
theorem syncDirectory_either (fs : FileSystem ν β) (d d' : Nat) (name : ν) :
    (fs.syncDirectory d).diskEntries d' name = fs.diskEntries d' name ∨
      (fs.syncDirectory d).diskEntries d' name = fs.entries d' name := by
  by_cases here : d' = d
  · rw [here]
    exact .inr (if_pos rfl)
  · exact .inl (if_neg here)

theorem writeBack_either (fs : FileSystem ν β) (d : Nat) (name : ν) (d' : Nat) (name' : ν) :
    (fs.writeBack d name).diskEntries d' name' = fs.diskEntries d' name' ∨
      (fs.writeBack d name).diskEntries d' name' = fs.entries d' name' := by
  by_cases here : d' = d ∧ name' = name
  · obtain ⟨rfl, rfl⟩ := here
    exact .inr point_self
  · exact .inl (point_other here)

omit [DecidableEq ν] in
/-- The content of files does not matter. -/
theorem Grows.same (entries : fs'.entries = fs.entries) (disk : fs'.diskEntries = fs.diskEntries) :
    Grows lasting fs fs' where
  directories _ _ _ h := by rw [entries, h]
  diskDirectories _ _ _ h := by rw [disk, h]
  files _ _ i _ h := ⟨i, by rw [entries, h]⟩
  diskFiles _ _ i _ h := ⟨i, by rw [disk, h]⟩

/-- The cache may change under the names that do not last, and where there is nothing. -/
theorem Grows.point {entry : Option Entry}
    (free : fs.entries d name = none ∨
      (∀ j, fs.entries d name ≠ some (.directory j)) ∧ ((∃ j, entry = some (.file j)) ∨
        ¬lasting name))
    (cache : fs'.entries = point d name entry fs.entries)
    (disk : fs'.diskEntries = fs.diskEntries) : Grows lasting fs fs' where
  directories d' name' e h := by
    rw [cache]
    refine point_kept (fun j hj => ?_) h
    rcases free with none | ⟨plain, _⟩
    · rw [none] at hj
      cases hj
    · exact plain j hj
  diskDirectories _ _ _ h := by rw [disk, h]
  files d' name' i lasts h := by
    rw [cache]
    by_cases here : d' = d ∧ name' = name
    · obtain ⟨rfl, rfl⟩ := here
      rw [point_self]
      rcases free with none | ⟨_, ⟨j, new⟩ | passing⟩
      · rw [none] at h
        cases h
      · exact ⟨j, new⟩
      · exact absurd lasts passing
    · rw [point_other here]
      exact ⟨i, h⟩
  diskFiles _ _ i _ h := ⟨i, by rw [disk, h]⟩

omit [DecidableEq ν] in
theorem Grows.trans {fs'' : FileSystem ν β} (first : Grows lasting fs fs')
    (second : Grows lasting fs' fs'') : Grows lasting fs fs'' where
  directories d name e h := second.directories d name e (first.directories d name e h)
  diskDirectories d name e h := second.diskDirectories d name e (first.diskDirectories d name e h)
  files d name i lasts h := by
    obtain ⟨j, hj⟩ := first.files d name i lasts h
    exact second.files d name j lasts hj
  diskFiles d name i lasts h := by
    obtain ⟨j, hj⟩ := first.diskFiles d name i lasts h
    exact second.diskFiles d name j lasts hj

omit [DecidableEq ν] in
/-- Writing back what the cache has loses nothing. -/
theorem Grows.disk (tree : fs.Tree) (backed : Backed lasting fs)
    (cache : fs'.entries = fs.entries)
    (source : ∀ d name, fs'.diskEntries d name = fs.diskEntries d name ∨
      fs'.diskEntries d name = fs.entries d name) : Grows lasting fs fs' where
  directories _ _ _ h := by rw [cache, h]
  diskDirectories d name e h := by
    rcases source d name with old | new
    · rw [old, h]
    · rw [new]
      exact tree.kept d name e h
  files _ _ i _ h := ⟨i, by rw [cache, h]⟩
  diskFiles d name i lasts h := by
    rcases source d name with old | new
    · exact ⟨i, by rw [old, h]⟩
    · obtain ⟨j, hj⟩ := backed d name i lasts h
      exact ⟨j, by rw [new, hj]⟩

omit [DecidableEq ν] in
theorem Backed.grows (grows : Grows lasting fs fs') (backed : Backed lasting fs)
    (source : ∀ d name, fs'.diskEntries d name = fs.diskEntries d name ∨
      fs'.diskEntries d name = fs.entries d name) : Backed lasting fs' := by
  intro d name i lasts h
  rcases source d name with old | new
  · rw [old] at h
    obtain ⟨j, hj⟩ := backed d name i lasts h
    exact grows.files d name j lasts hj
  · rw [new] at h
    exact grows.files d name i lasts h

end Stay

end FileSystem
