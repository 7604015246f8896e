import Runyard.System
import Runyard.Table
import Runyard.Domain
import Mathlib.Data.List.Sort
import Mathlib.Data.String.Basic

/-!
# Migrations

`migrate` of `pool.cpp`: the scripts of a directory that were not applied before, in the order of
their names, in one transaction under an advisory lock. What a script does to the database is a
parameter. The names are those of a directory, and so distinct.
-/

universe u

namespace Runyard

structure MigrationFile where
  name : String
  sql : String
  deriving DecidableEq

/-- A row of `schema_migrations`. -/
structure AppliedMigration where
  name : String
  checksum : String
  deriving DecidableEq

/-- What `migrate` throws: an `Error`, or what the database throws. -/
inductive MigrationError where
  | error (code : ErrorCode) (message : String)
  | sql (what : String)
  deriving DecidableEq

/-- `path::extension` of a file name. -/
def extension (name : String) : List Char :=
  match name.toList.reverse.span (· ≠ '.') with
  | (tail, dot :: _ :: _) => if name = ".." then [] else dot :: tail.reverse
  | _ => []

structure Schema (δ : Type u) where
  db : δ
  applied : List AppliedMigration := []
  deriving DecidableEq

/-- `exec` is what PostgreSQL does with a script. -/
structure Migrations (δ : Type u) where
  sha256 : String → String
  exec : String → δ → Except MigrationError δ
  empty : δ

namespace Migrations

variable {δ : Type u} (m : Migrations δ)

def record (file : MigrationFile) : AppliedMigration := ⟨file.name, m.sha256 file.sql⟩

/-- The files with the extension `.sql`, sorted. -/
def scripts (files : List MigrationFile) : List MigrationFile :=
  (files.filter fun f => extension f.name = ".sql".toList).insertionSort fun f g => f.name ≤ g.name

def applyScripts : List MigrationFile → Schema δ → Except MigrationError (Schema δ)
  | [], s => .ok s
  | file :: rest, s =>
    match Table.lookup (·.name) file.name s.applied with
    | some existing =>
      if existing.checksum ≠ m.sha256 file.sql then
        .error (.error .conflict ("applied migration changed: " ++ file.name))
      else applyScripts rest s
    | none => do
      let db ← m.exec file.sql s.db
      applyScripts rest ⟨db, s.applied ++ [m.record file]⟩

/-- The scripts, one after the other. -/
def execute : List MigrationFile → δ → Except MigrationError δ
  | [], db => .ok db
  | file :: rest, db => m.exec file.sql db >>= execute rest

def migrate (files : List MigrationFile) (s : Schema δ) : Except MigrationError (Schema δ) :=
  m.applyScripts (scripts files) s

/-- The database with a log of the texts that were executed on it. -/
def logged : Migrations (δ × List String) where
  sha256 := m.sha256
  exec sql x := (m.exec sql x.1).map fun db => (db, x.2 ++ [sql])
  empty := (m.empty, [])

/-! ## One call -/

section Scripts

variable {m} {files rest : List MigrationFile} {s s' : Schema δ}

theorem lookup_record {rows : List AppliedMigration} {file : MigrationFile} {name : String}
    (absent : Table.lookup (·.name) file.name rows = none) :
    Table.lookup (·.name) name (rows ++ [m.record file]) =
      if file.name = name then some (m.record file) else Table.lookup (·.name) name rows := by
  rw [Table.lookup_append]
  by_cases here : file.name = name
  · rw [if_pos here, ← here, absent]
    simp [Table.lookup, record]
  · rw [if_neg here]
    simp [Table.lookup, record, here]

theorem applyScripts_append (files rest : List MigrationFile) (s : Schema δ) :
    m.applyScripts (files ++ rest) s = m.applyScripts files s >>= m.applyScripts rest := by
  induction files generalizing s with
  | nil => rfl
  | cons file files ih =>
    rw [List.cons_append, applyScripts, applyScripts]
    cases Table.lookup (·.name) file.name s.applied with
    | some existing =>
      dsimp only
      split
      · rfl
      · exact ih s
    | none =>
      dsimp only
      cases m.exec file.sql s.db with
      | error e => rfl
      | ok db => exact ih _

/-- A script is new, and is recorded after it was executed, or it is recorded as it is. -/
theorem applyScripts_cons {file : MigrationFile} (h : m.applyScripts (file :: rest) s = .ok s') :
    (Table.lookup (·.name) file.name s.applied = none ∧ ∃ db, m.exec file.sql s.db = .ok db ∧
      m.applyScripts rest ⟨db, s.applied ++ [m.record file]⟩ = .ok s') ∨
    Table.lookup (·.name) file.name s.applied = some (m.record file) ∧
      m.applyScripts rest s = .ok s' := by
  rw [applyScripts] at h
  cases hlookup : Table.lookup (·.name) file.name s.applied with
  | some existing =>
    simp only [hlookup] at h
    split at h
    · cases h
    · next same =>
      have checksum : existing.checksum = m.sha256 file.sql := not_not.mp same
      have name : existing.name = file.name := (Table.lookup_mem hlookup).2
      refine .inr ⟨?_, h⟩
      rw [record, ← checksum, ← name]
  | none =>
    simp only [hlookup] at h
    cases hexec : m.exec file.sql s.db with
    | error e =>
      rw [hexec] at h
      cases h
    | ok db =>
      rw [hexec] at h
      exact .inl ⟨rfl, db, rfl, h⟩

/-- The scripts that are not recorded yet. -/
def pending (files : List MigrationFile) (s : Schema δ) : List MigrationFile :=
  files.filter fun f => (Table.lookup (·.name) f.name s.applied).isNone

theorem pending_cons_new {file : MigrationFile}
    (new : Table.lookup (·.name) file.name s.applied = none) :
    pending (file :: rest) s = file :: pending rest s := by
  rw [pending, List.filter_cons_of_pos (by rw [new]; rfl)]
  rfl

theorem pending_cons_old {file : MigrationFile} {row : AppliedMigration}
    (old : Table.lookup (·.name) file.name s.applied = some row) :
    pending (file :: rest) s = pending rest s := by
  rw [pending, List.filter_cons_of_neg (by rw [old]; simp)]
  rfl

/-- The record of a script says nothing about scripts with other names. -/
theorem lookup_others {file : MigrationFile} (distinct : file.name ∉ rest.map (·.name))
    (new : Table.lookup (·.name) file.name s.applied = none) {f : MigrationFile} (hf : f ∈ rest) :
    Table.lookup (·.name) f.name (s.applied ++ [m.record file]) =
      Table.lookup (·.name) f.name s.applied := by
  rw [lookup_record new, if_neg]
  intro same
  exact distinct (List.mem_map.mpr ⟨f, hf, same.symm⟩)

theorem pending_others {file : MigrationFile} (distinct : file.name ∉ rest.map (·.name))
    (new : Table.lookup (·.name) file.name s.applied = none) (db : δ) :
    pending rest ⟨db, s.applied ++ [m.record file]⟩ = pending rest s :=
  List.filter_congr fun f hf => by rw [lookup_others distinct new hf]

/-- A call that returns has executed what was pending, one script after the other, and recorded
it, and finds the rest as it was recorded. -/
theorem applyScripts_ok (distinct : (files.map (·.name)).Nodup)
    (h : m.applyScripts files s = .ok s') :
    m.execute (pending files s) s.db = .ok s'.db ∧
      s'.applied = s.applied ++ (pending files s).map m.record ∧
      ∀ f ∈ files, Table.lookup (·.name) f.name s'.applied = some (m.record f) := by
  induction files generalizing s with
  | nil =>
    cases h
    exact ⟨rfl, (List.append_nil _).symm, fun f hf => absurd hf List.not_mem_nil⟩
  | cons file rest ih =>
    rw [List.map_cons, List.nodup_cons] at distinct
    rcases applyScripts_cons h with ⟨new, db, hexec, hrest⟩ | ⟨old, hrest⟩
    · obtain ⟨executed, applied, recorded⟩ := ih distinct.2 hrest
      rw [pending_others distinct.1 new] at executed applied
      refine ⟨?_, ?_, ?_⟩
      · rw [pending_cons_new new, execute, hexec]
        exact executed
      · rw [applied, pending_cons_new new, List.map_cons, List.append_assoc,
          List.singleton_append]
      · intro f hf
        rcases List.mem_cons.mp hf with rfl | hf
        · rw [applied, Table.lookup_append, lookup_record new, if_pos rfl]
          rfl
        · exact recorded f hf
    · obtain ⟨executed, applied, recorded⟩ := ih distinct.2 hrest
      rw [pending_cons_old old]
      refine ⟨executed, applied, ?_⟩
      intro f hf
      rcases List.mem_cons.mp hf with rfl | hf
      · rw [applied, Table.lookup_append, old]
        rfl
      · exact recorded f hf

/-- A call returns when no script was changed since it was applied and the others execute. -/
theorem applyScripts_returns (distinct : (files.map (·.name)).Nodup)
    (unchanged : ∀ f ∈ files, ∀ row,
      Table.lookup (·.name) f.name s.applied = some row → row.checksum = m.sha256 f.sql)
    {db : δ} (h : m.execute (pending files s) s.db = .ok db) :
    ∃ s', m.applyScripts files s = .ok s' := by
  induction files generalizing s with
  | nil => exact ⟨s, rfl⟩
  | cons file rest ih =>
    rw [List.map_cons, List.nodup_cons] at distinct
    have behind : ∀ f ∈ rest, ∀ row,
        Table.lookup (·.name) f.name s.applied = some row → row.checksum = m.sha256 f.sql :=
      fun f hf => unchanged f (List.mem_cons_of_mem _ hf)
    rw [applyScripts]
    cases found : Table.lookup (·.name) file.name s.applied with
    | some existing =>
      rw [pending_cons_old found] at h
      dsimp only
      rw [if_neg (not_not.mpr (unchanged file List.mem_cons_self existing found))]
      exact ih distinct.2 behind h
    | none =>
      rw [pending_cons_new found, execute] at h
      dsimp only
      cases hexec : m.exec file.sql s.db with
      | error e =>
        rw [hexec] at h
        cases h
      | ok db' =>
        rw [hexec] at h
        refine ih distinct.2 (s := ⟨db', s.applied ++ [m.record file]⟩) ?_ ?_
        · intro f hf
          rw [lookup_others distinct.1 found hf]
          exact behind f hf
        · rw [pending_others distinct.1 found]
          exact h

/-- Scripts that are recorded as they are do nothing. -/
theorem applyScripts_recorded
    (recorded : ∀ f ∈ files, Table.lookup (·.name) f.name s.applied = some (m.record f)) :
    m.applyScripts files s = .ok s := by
  induction files with
  | nil => rfl
  | cons file rest ih =>
    rw [applyScripts, recorded file List.mem_cons_self]
    refine (if_neg (not_not.mpr rfl)).trans ?_
    exact ih fun f hf => recorded f (List.mem_cons_of_mem _ hf)

/-- A script that was changed since it was applied stops the call. -/
theorem applyScripts_changed {file : MigrationFile} {old : AppliedMigration}
    (distinct : (files.map (·.name)).Nodup) (hfile : file ∈ files)
    (applied : Table.lookup (·.name) file.name s.applied = some old)
    (changed : old.checksum ≠ m.sha256 file.sql) (s' : Schema δ) :
    m.applyScripts files s ≠ .ok s' := by
  intro h
  obtain ⟨_, grown, recorded⟩ := applyScripts_ok distinct h
  have now := recorded file hfile
  rw [grown, Table.lookup_append, applied] at now
  exact changed (congrArg AppliedMigration.checksum (Option.some.inj now))

/-- Scripts that are all new are executed one after the other. -/
theorem applyScripts_new (distinct : (files.map (·.name)).Nodup)
    (new : ∀ f ∈ files, Table.lookup (·.name) f.name s.applied = none)
    (h : m.applyScripts files s = .ok s') :
    m.execute files s.db = .ok s'.db ∧ s'.applied = s.applied ++ files.map m.record := by
  have all : pending files s = files :=
    List.filter_eq_self.mpr fun f hf => by rw [new f hf]; rfl
  obtain ⟨executed, applied, _⟩ := applyScripts_ok distinct h
  rw [all] at executed applied
  exact ⟨executed, applied⟩

theorem logged_sha256 : m.logged.sha256 = m.sha256 := rfl

theorem logged_exec (sql : String) (db : δ) (log : List String) :
    m.logged.exec sql (db, log) = (m.exec sql db).map fun db' => (db', log ++ [sql]) := rfl

/-- The log does not change what a call does. -/
theorem logged_applyScripts (files : List MigrationFile) (db : δ) (log : List String)
    (applied : List AppliedMigration) :
    (m.logged.applyScripts files ⟨(db, log), applied⟩).map (fun done =>
        (⟨done.db.1, done.applied⟩ : Schema δ)) =
      m.applyScripts files ⟨db, applied⟩ := by
  induction files generalizing db log applied with
  | nil => rfl
  | cons file rest ih =>
    rw [applyScripts, applyScripts]
    cases Table.lookup (·.name) file.name applied with
    | some existing =>
      dsimp only
      rw [logged_sha256]
      by_cases changed : existing.checksum ≠ m.sha256 file.sql
      · rw [if_pos changed, if_pos changed]
        rfl
      · rw [if_neg changed, if_neg changed]
        exact ih db log applied
    | none =>
      dsimp only
      rw [logged_exec]
      cases m.exec file.sql db with
      | error e => rfl
      | ok db' => exact ih db' (log ++ [file.sql]) (applied ++ [m.record file])

/-- The log gets the texts that are executed. -/
theorem logged_execute {db : δ} {log : List String} {done : δ × List String}
    (h : m.logged.execute files (db, log) = .ok done) :
    m.execute files db = .ok done.1 ∧ done.2 = log ++ files.map (·.sql) := by
  induction files generalizing db log with
  | nil =>
    cases h
    exact ⟨rfl, (List.append_nil _).symm⟩
  | cons file rest ih =>
    rw [execute, logged_exec] at h
    rw [execute]
    cases hexec : m.exec file.sql db with
    | error e =>
      rw [hexec] at h
      cases h
    | ok db' =>
      rw [hexec] at h
      obtain ⟨executed, grown⟩ := ih h
      refine ⟨executed, ?_⟩
      rw [grown, List.map_cons, List.append_assoc, List.singleton_append]

end Scripts

section Directory

variable {files listed : List MigrationFile}

instance : Std.Total fun f g : MigrationFile => f.name ≤ g.name :=
  ⟨fun f g => le_total f.name g.name⟩

instance : IsTrans MigrationFile fun f g => f.name ≤ g.name :=
  ⟨fun _ _ _ => le_trans⟩

theorem mem_scripts {f : MigrationFile} :
    f ∈ scripts files ↔ f ∈ files ∧ extension f.name = ".sql".toList := by
  rw [scripts, List.mem_insertionSort, List.mem_filter, decide_eq_true_iff]

theorem scripts_distinct (distinct : (files.map (·.name)).Nodup) :
    ((scripts files).map (·.name)).Nodup := by
  have kept : ((files.filter fun f => extension f.name = ".sql".toList).map (·.name)).Nodup :=
    distinct.sublist (List.filter_sublist.map _)
  exact ((List.perm_insertionSort _ _).map _).nodup_iff.mpr kept

theorem scripts_sorted (distinct : (files.map (·.name)).Nodup) :
    (scripts files).Pairwise fun f g => f.name < g.name := by
  have sorted : (scripts files).Pairwise fun f g => f.name ≤ g.name :=
    List.pairwise_insertionSort _ _
  have different : (scripts files).Pairwise fun f g => f.name ≠ g.name :=
    List.pairwise_map.mp (scripts_distinct distinct)
  exact (sorted.and different).imp fun h => lt_of_le_of_ne h.1 h.2

/-- The order in which the directory is listed does not matter. -/
theorem scripts_perm (distinct : (files.map (·.name)).Nodup) (perm : listed.Perm files) :
    scripts listed = scripts files := by
  have distinct' : (listed.map (·.name)).Nodup := (perm.map _).nodup_iff.mpr distinct
  refine List.Pairwise.eq_of_mem_iff (scripts_sorted distinct') (scripts_sorted distinct) ?_
  intro f
  rw [mem_scripts, mem_scripts, perm.mem_iff]

/-- `files` has every script of `release`, and its other ones come after them. -/
structure Extends (release files : List MigrationFile) : Prop where
  kept : ∀ f ∈ scripts release, f ∈ scripts files
  later : ∀ old ∈ scripts release, ∀ f ∈ scripts files, f ∉ scripts release → old.name < f.name

theorem Extends.scripts {release : List MigrationFile} (grown : Extends release files)
    (distinct : (files.map (·.name)).Nodup) (before : (release.map (·.name)).Nodup) :
    scripts files = scripts release ++ (scripts files).filter (· ∉ scripts release) := by
  have sorted : (Migrations.scripts release ++
      (Migrations.scripts files).filter (· ∉ Migrations.scripts release)).Pairwise
        fun f g => f.name < g.name := by
    refine List.pairwise_append.mpr ⟨scripts_sorted before, (scripts_sorted distinct).filter _, ?_⟩
    intro old hold f hf
    obtain ⟨mem, new⟩ := List.mem_filter.mp hf
    exact grown.later old hold f mem (of_decide_eq_true new)
  refine List.Pairwise.eq_of_mem_iff (scripts_sorted distinct) sorted ?_
  intro f
  rw [List.mem_append, List.mem_filter, decide_eq_true_iff]
  constructor
  · intro hf
    by_cases old : f ∈ Migrations.scripts release
    · exact .inl old
    · exact .inr ⟨hf, old⟩
  · rintro (old | ⟨mem, _⟩)
    · exact grown.kept f old
    · exact mem

end Directory

/-! ## A database over many releases -/

/-- `log` and `release` are kept for the proofs: the texts that were executed and committed, and
the directory of the last call that returned. -/
structure State (δ : Type u) where
  schema : Schema δ
  log : List String := []
  release : List MigrationFile := []
  deriving DecidableEq

inductive Act (δ : Type u) where
  | migrate (files : List MigrationFile)
  /-- What the servers write between two releases. -/
  | write (db : δ)

/-- A call that throws is rolled back, and its log with it. -/
def step (s : State δ) : Act δ → Option (State δ)
  | .migrate files =>
    if (files.map (·.name)).Nodup then
      match m.logged.migrate files ⟨(s.schema.db, s.log), s.schema.applied⟩ with
      | .ok done => some ⟨⟨done.db.1, done.applied⟩, done.db.2, files⟩
      | .error _ => some s
    else none
  | .write db => some { s with schema := { s.schema with db } }

def system : System (State δ) (Act δ) := ⟨{ schema := ⟨m.empty, []⟩ }, m.step⟩

/-- A database of tables and a number of rows. -/
def tables : Migrations (List String × Nat) where
  sha256 sql := sql
  exec sql db := if sql = "" then .error (.sql "syntax error") else .ok (db.1 ++ [sql], db.2)
  empty := ([], 0)

def firstRelease : List MigrationFile :=
  [⟨"002.sql", "workers"⟩, ⟨"NOTES", ""⟩, ⟨"001.sql", "runs"⟩]

def secondRelease : List MigrationFile := ⟨"003.sql", "events"⟩ :: firstRelease

def changedRelease : List MigrationFile := [⟨"000.sql", "quotas"⟩, ⟨"001.sql", "jobs"⟩]

def afterFirst : State (List String × Nat) where
  schema := ⟨(["runs", "workers"], 0), [⟨"001.sql", "runs"⟩, ⟨"002.sql", "workers"⟩]⟩
  log := ["runs", "workers"]
  release := firstRelease

/-- The second release, after rows were written. -/
def afterSecond : State (List String × Nat) where
  schema := ⟨(["runs", "workers", "events"], 7),
    [⟨"001.sql", "runs"⟩, ⟨"002.sql", "workers"⟩, ⟨"003.sql", "events"⟩]⟩
  log := ["runs", "workers", "events"]
  release := secondRelease

section Runs

variable {m} {s s' : State δ} {act : Act δ}

theorem logged_migrate {files : List MigrationFile} {log : List String} {schema : Schema δ}
    {done : Schema (δ × List String)} (distinct : (files.map (·.name)).Nodup)
    (h : m.logged.migrate files ⟨(schema.db, log), schema.applied⟩ = .ok done) :
    m.migrate files schema = .ok ⟨done.db.1, done.applied⟩ ∧
      done.db.2 = log ++ (pending (scripts files) schema).map (·.sql) := by
  rw [migrate] at h
  have plain := logged_applyScripts (m := m) (scripts files) schema.db log schema.applied
  rw [h] at plain
  obtain ⟨executed, _, _⟩ := applyScripts_ok (scripts_distinct distinct) h
  exact ⟨plain.symm, (logged_execute executed).2⟩

theorem step_cases (h : m.step s act = some s') :
    (∃ files schema, act = .migrate files ∧ (files.map (·.name)).Nodup ∧
      m.migrate files s.schema = .ok schema ∧
      s' = ⟨schema, s.log ++ (pending (scripts files) s.schema).map (·.sql), files⟩) ∨
    (∃ db, act = .write db ∧ s' = { s with schema := { s.schema with db } }) ∨ s' = s := by
  cases act with
  | migrate files =>
    rw [step] at h
    split at h
    · next distinct =>
      cases hm : m.logged.migrate files ⟨(s.schema.db, s.log), s.schema.applied⟩ with
      | error e =>
        rw [hm] at h
        exact .inr (.inr (Option.some.inj h).symm)
      | ok done =>
        rw [hm] at h
        obtain ⟨plain, grown⟩ := logged_migrate distinct hm
        refine .inl ⟨files, ⟨done.db.1, done.applied⟩, rfl, distinct, plain, ?_⟩
        rw [← Option.some.inj h, grown]
    · cases h
  | write db => exact .inr (.inl ⟨db, rfl, (Option.some.inj h).symm⟩)

/-- The table says what was executed, and nothing was executed twice. -/
structure Sound (m : Migrations δ) (s : State δ) : Prop where
  executed : s.schema.applied.map (·.checksum) = s.log.map m.sha256
  once : (s.schema.applied.map (·.name)).Nodup
  distinct : (s.release.map (·.name)).Nodup

theorem pending_fresh {files : List MigrationFile} {s : Schema δ} {f : MigrationFile}
    (hf : f ∈ pending files s) : f.name ∉ s.applied.map (·.name) := by
  obtain ⟨_, absent⟩ := List.mem_filter.mp hf
  rw [Option.isNone_iff_eq_none] at absent
  intro old
  obtain ⟨row, hrow, same⟩ := List.mem_map.mp old
  exact Table.lookup_none absent row hrow same

theorem Sound.step (inv : Sound m s) (h : m.step s act = some s') : Sound m s' := by
  rcases step_cases h with ⟨files, schema, rfl, distinct, hm, rfl⟩ | ⟨db, rfl, rfl⟩ | rfl
  · obtain ⟨_, applied, _⟩ := applyScripts_ok (scripts_distinct distinct) hm
    have names : ((pending (scripts files) s.schema).map m.record).map (·.name) =
        (pending (scripts files) s.schema).map (·.name) := by
      rw [List.map_map]
      rfl
    refine ⟨?_, ?_, distinct⟩
    · rw [applied, List.map_append, List.map_append, inv.executed, List.map_map, List.map_map]
      rfl
    · rw [applied, List.map_append, names, List.nodup_append']
      refine ⟨inv.once, (scripts_distinct distinct).sublist (List.filter_sublist.map _), ?_⟩
      intro name old fresh
      obtain ⟨f, hf, rfl⟩ := List.mem_map.mp fresh
      exact pending_fresh hf old
  · exact ⟨inv.executed, inv.once, inv.distinct⟩
  · exact inv

theorem Sound.keyed (inv : Sound m s) : Table.Keyed (·.name) s.schema.applied :=
  inv.once

theorem sound (hs : m.system.Reachable s) : Sound m s := by
  refine hs.invariant (P := Sound m) ?_ ?_
  · exact ⟨rfl, List.nodup_nil, List.nodup_nil⟩
  · exact fun _ _ _ inv h => inv.step h

/-- A row is never changed or removed. -/
theorem applied_kept (run : m.system.Later s s') {name : String} {row : AppliedMigration}
    (start : Table.lookup (·.name) name s.schema.applied = some row) :
    Table.lookup (·.name) name s'.schema.applied = some row := by
  refine run.invariant (P := fun s => Table.lookup (·.name) name s.schema.applied = some row)
    start ?_
  intro s act s' held _ h
  rcases step_cases h with ⟨files, schema, rfl, distinct, hm, rfl⟩ | ⟨db, rfl, rfl⟩ | rfl
  · obtain ⟨_, applied, _⟩ := applyScripts_ok (scripts_distinct distinct) hm
    rw [applied, Table.lookup_append, held]
    rfl
  · exact held
  · exact held

/-- The call on `files` from `s` to `t` executed and recorded what was pending, and only that. -/
structure Committed (m : Migrations δ) (files : List MigrationFile) (s t : State δ) : Prop where
  executed : m.execute (pending (scripts files) s.schema) s.schema.db = .ok t.schema.db
  logged : t.log = s.log ++ (pending (scripts files) s.schema).map (·.sql)
  applied : t.schema.applied =
    s.schema.applied ++ (pending (scripts files) s.schema).map m.record

/-- The scripts of `files` are applied: the directory in any order changes nothing, and no call
returns on a directory with a changed script. -/
structure Settled (m : Migrations δ) (files : List MigrationFile) (s : State δ) : Prop where
  recorded : ∀ f ∈ scripts files, m.record f ∈ s.schema.applied
  again : ∀ listed : List MigrationFile, listed.Perm files →
    m.migrate listed s.schema = .ok s.schema ∧
      m.system.step s (.migrate listed) = some { s with release := listed }
  refused : ∀ other : List MigrationFile, (other.map (·.name)).Nodup →
    (∃ f ∈ scripts files, ∃ g ∈ scripts other,
      g.name = f.name ∧ m.sha256 g.sql ≠ m.sha256 f.sql) →
    ∀ schema, m.migrate other s.schema ≠ .ok schema

theorem step_migrate {files : List MigrationFile} {schema : Schema δ}
    (distinct : (files.map (·.name)).Nodup) (h : m.migrate files s.schema = .ok schema) :
    ∃ t, m.step s (.migrate files) = some t ∧ t.schema = schema ∧ t.release = files ∧
      Committed m files s t := by
  obtain ⟨executed, applied, _⟩ := applyScripts_ok (scripts_distinct distinct) h
  cases hm : m.logged.migrate files ⟨(s.schema.db, s.log), s.schema.applied⟩ with
  | error e =>
    have plain := logged_applyScripts (m := m) (scripts files) s.schema.db s.log s.schema.applied
    rw [migrate] at h hm
    rw [hm] at plain
    cases plain.trans h
  | ok done =>
    obtain ⟨plain, grown⟩ := logged_migrate distinct hm
    obtain rfl : schema = ⟨done.db.1, done.applied⟩ := Except.ok.inj (h.symm.trans plain)
    refine ⟨⟨⟨done.db.1, done.applied⟩, done.db.2, files⟩, ?_, rfl, rfl, ?_⟩
    · rw [step, if_pos distinct, hm]
    · exact ⟨executed, grown, applied⟩

theorem Settled.of_recorded {files : List MigrationFile} (distinct : (files.map (·.name)).Nodup)
    (recorded : ∀ f ∈ scripts files,
      Table.lookup (·.name) f.name s.schema.applied = some (m.record f)) :
    Settled m files s := by
  refine ⟨fun f hf => (Table.lookup_mem (recorded f hf)).1, ?_, ?_⟩
  · intro listed perm
    have found : m.migrate listed s.schema = .ok s.schema := by
      rw [migrate, scripts_perm distinct perm]
      exact applyScripts_recorded recorded
    have none : pending (scripts listed) s.schema = [] := by
      rw [pending, List.filter_eq_nil_iff, scripts_perm distinct perm]
      intro f hf
      rw [recorded f hf]
      exact Bool.false_ne_true
    obtain ⟨t, hstep, hschema, hrelease, committed⟩ :=
      step_migrate ((perm.map _).nodup_iff.mpr distinct) found
    have kept : t.log = s.log := by rw [committed.logged, none, List.map_nil, List.append_nil]
    refine ⟨found, hstep.trans (congrArg some ?_)⟩
    obtain ⟨schema, log, release⟩ := t
    subst hschema hrelease kept
    rfl
  · rintro other distinct' ⟨f, hf, g, hg, same, changed⟩
    have row : Table.lookup (·.name) g.name s.schema.applied = some (m.record f) := by
      rw [same]
      exact recorded f hf
    exact applyScripts_changed (scripts_distinct distinct') hg row changed.symm

/-- A script runs once in the life of a database. In every state the rows of `schema_migrations`
are the texts that were executed, one row a script. A call returns if and only if no script was
changed since it was applied and those that were not applied execute; it executes just these,
and its directory is settled in every later state. -/
theorem migrated_once (hs : m.system.Reachable s) :
    (s.schema.applied.map (·.name)).Nodup ∧
      s.schema.applied.map (·.checksum) = s.log.map m.sha256 ∧
      ∀ files : List MigrationFile, (files.map (·.name)).Nodup →
        ((∃ schema, m.migrate files s.schema = .ok schema) ↔
          (∀ f ∈ scripts files, ∀ row ∈ s.schema.applied,
            row.name = f.name → row.checksum = m.sha256 f.sql) ∧
          ∃ db, m.execute (pending (scripts files) s.schema) s.schema.db = .ok db) ∧
        ∀ schema, m.migrate files s.schema = .ok schema →
          ∃ t, m.system.step s (.migrate files) = some t ∧ t.schema = schema ∧
            Committed m files s t ∧ ∀ s', m.system.Later t s' → Settled m files s' := by
  have inv := sound hs
  refine ⟨inv.once, inv.executed, ?_⟩
  intro files distinct
  refine ⟨⟨?_, ?_⟩, ?_⟩
  · rintro ⟨schema, h⟩
    refine ⟨?_, schema.db, (applyScripts_ok (scripts_distinct distinct) h).1⟩
    intro f hf row hrow same
    by_contra changed
    have found : Table.lookup (·.name) f.name s.schema.applied = some row := by
      rw [← same]
      exact inv.keyed.lookup hrow
    exact applyScripts_changed (scripts_distinct distinct) hf found changed schema h
  · rintro ⟨unchanged, db, executed⟩
    refine applyScripts_returns (scripts_distinct distinct) ?_ executed
    intro f hf row found
    obtain ⟨hrow, same⟩ := Table.lookup_mem found
    exact unchanged f hf row hrow same
  · intro schema h
    obtain ⟨t, hstep, rfl, _, committed⟩ := step_migrate distinct h
    obtain ⟨_, _, recorded⟩ := applyScripts_ok (scripts_distinct distinct) h
    refine ⟨t, hstep, rfl, committed, ?_⟩
    intro s' run
    exact .of_recorded distinct fun f hf => applied_kept run (recorded f hf)

/-- The second release, the first one again and a changed script, after rows were written. -/
theorem migrated_once_tables :
    tables.migrate firstRelease tables.system.init.schema = .ok afterFirst.schema ∧
      Committed tables firstRelease tables.system.init afterFirst ∧
      tables.system.Later afterFirst afterSecond ∧
      tables.migrate [⟨"001.sql", "runs"⟩, ⟨"NOTES", ""⟩, ⟨"002.sql", "workers"⟩]
        afterSecond.schema = .ok afterSecond.schema ∧
      ∀ schema, tables.migrate changedRelease afterSecond.schema ≠ .ok schema := by
  have run : tables.system.Later afterFirst afterSecond := by
    refine .step (.step .refl trivial (e := .write (["runs", "workers"], 7)) rfl) trivial
      (e := .migrate secondRelease) ?_
    decide +kernel
  have first : tables.system.step tables.system.init (.migrate firstRelease) = some afterFirst := by
    decide +kernel
  have called : tables.migrate firstRelease tables.system.init.schema =
      .ok afterFirst.schema := by
    decide +kernel
  obtain ⟨_, _, calls⟩ := migrated_once (m := tables) System.reachable_init
  obtain ⟨t, hstep, _, committed, later⟩ := (calls firstRelease (by decide)).2 _ called
  obtain rfl : t = afterFirst := Option.some.inj (hstep.symm.trans first)
  have settled := later afterSecond run
  refine ⟨called, committed, run, (settled.again _ (by decide)).1,
    settled.refused changedRelease (by decide) ?_⟩
  exact ⟨⟨"001.sql", "runs"⟩, by decide +kernel, ⟨"001.sql", "jobs"⟩, by decide +kernel, rfl,
    by decide⟩

/-! ## Upgrades -/

/-- A release extends the one before it, and what the servers write keeps the `shape`. -/
def Act.upgrades {κ : Type*} (shape : δ → κ) (s : State δ) : Act δ → Prop
  | .migrate files => Extends s.release files
  | .write db => shape db = shape s.schema.db

/-- The release is applied in the order of its names, and the database has the shape that the
release would give to an empty one. -/
structure Upgraded {κ : Type*} (m : Migrations δ) (shape : δ → κ) (s : State δ) : Prop where
  order : s.schema.applied = (scripts s.release).map m.record
  shaped : ∀ fresh, m.execute (scripts s.release) m.empty = .ok fresh →
    shape s.schema.db = shape fresh

theorem execute_append (files rest : List MigrationFile) (db : δ) :
    m.execute (files ++ rest) db = m.execute files db >>= m.execute rest := by
  induction files generalizing db with
  | nil => rfl
  | cons file files ih =>
    rw [List.cons_append, execute, execute]
    cases m.exec file.sql db with
    | error e => rfl
    | ok db => exact ih db

theorem execute_shape {κ : Type*} {shape : δ → κ}
    (ddl : ∀ sql a b a' b', shape a = shape b → m.exec sql a = .ok a' → m.exec sql b = .ok b' →
      shape a' = shape b') {files : List MigrationFile} {a b a' b' : δ}
    (same : shape a = shape b) (ha : m.execute files a = .ok a')
    (hb : m.execute files b = .ok b') : shape a' = shape b' := by
  induction files generalizing a b with
  | nil =>
    cases ha
    cases hb
    exact same
  | cons file rest ih =>
    rw [execute] at ha hb
    cases hexec : m.exec file.sql a with
    | error e =>
      rw [hexec] at ha
      cases ha
    | ok next =>
      cases hexec' : m.exec file.sql b with
      | error e =>
        rw [hexec'] at hb
        cases hb
      | ok next' =>
        rw [hexec] at ha
        rw [hexec'] at hb
        exact ih (ddl file.sql a b next next' same hexec hexec') ha hb

theorem Upgraded.step {κ : Type*} {shape : δ → κ}
    (ddl : ∀ sql a b a' b', shape a = shape b → m.exec sql a = .ok a' → m.exec sql b = .ok b' →
      shape a' = shape b')
    (inv : Sound m s) (hup : Upgraded m shape s) (ok : act.upgrades shape s)
    (h : m.step s act = some s') : Upgraded m shape s' := by
  rcases step_cases h with ⟨files, schema, rfl, distinct, hm, rfl⟩ | ⟨db, rfl, rfl⟩ | rfl
  · set new := (scripts files).filter (· ∉ scripts s.release) with hnew
    have all : scripts files = scripts s.release ++ new :=
      Extends.scripts ok distinct inv.distinct
    have present : ∀ f ∈ scripts s.release,
        Table.lookup (·.name) f.name s.schema.applied = some (m.record f) := by
      intro f hf
      refine inv.keyed.lookup (r := m.record f) ?_
      rw [hup.order]
      exact List.mem_map_of_mem hf
    have names := scripts_distinct distinct
    rw [all, List.map_append, List.nodup_append'] at names
    have absent : ∀ f ∈ new, Table.lookup (·.name) f.name s.schema.applied = none := by
      intro f hf
      cases hrow : Table.lookup (·.name) f.name s.schema.applied with
      | none => rfl
      | some row =>
        obtain ⟨mem, same⟩ := Table.lookup_mem hrow
        rw [hup.order] at mem
        obtain ⟨g, hg, rfl⟩ := List.mem_map.mp mem
        have old : f.name ∈ (scripts s.release).map (·.name) := List.mem_map.mpr ⟨g, hg, same⟩
        exact absurd (List.mem_map_of_mem hf) (names.2.2 old)
    have rest : m.applyScripts new s.schema = .ok schema := by
      rw [migrate, all, applyScripts_append, applyScripts_recorded present] at hm
      exact hm
    obtain ⟨executed, applied⟩ := applyScripts_new names.2.1 absent rest
    refine ⟨?_, ?_⟩
    · rw [applied, all, hup.order, List.map_append]
    · intro db hdb
      rw [all, execute_append] at hdb
      cases hmid : m.execute (scripts s.release) m.empty with
      | error e =>
        rw [hmid] at hdb
        cases hdb
      | ok mid =>
        rw [hmid] at hdb
        exact execute_shape ddl (hup.shaped mid hmid) executed hdb
  · exact ⟨hup.order, fun fresh hfresh => (show shape db = _ from ok).trans
      (hup.shaped fresh hfresh)⟩
  · exact hup

theorem upgraded {κ : Type*} {shape : δ → κ}
    (ddl : ∀ sql a b a' b', shape a = shape b → m.exec sql a = .ok a' → m.exec sql b = .ok b' →
      shape a' = shape b')
    (run : m.system.Leads (fun s act => act.upgrades shape s) m.system.init s) :
    Upgraded m shape s := by
  refine run.stable System.reachable_init (P := Upgraded m shape) ?_ ?_
  · exact ⟨rfl, fun fresh h => congrArg shape (Except.ok.inj h)⟩
  · exact fun s act s' hs hup ok h => hup.step ddl (sound hs) ok h

/-- Upgrading from release to release gives what the last release gives to an empty database. -/
theorem upgrade_fresh {κ : Type*} {shape : δ → κ}
    (ddl : ∀ sql a b a' b', shape a = shape b → m.exec sql a = .ok a' → m.exec sql b = .ok b' →
      shape a' = shape b')
    (run : m.system.Leads (fun s act => act.upgrades shape s) m.system.init s) {fresh : Schema δ}
    (h : m.migrate s.release ⟨m.empty, []⟩ = .ok fresh) :
    s.schema.applied = fresh.applied ∧ shape s.schema.db = shape fresh.db := by
  have inv := sound run.later
  have hup := upgraded ddl run
  obtain ⟨executed, applied⟩ := applyScripts_new (s := ⟨m.empty, []⟩)
    (scripts_distinct inv.distinct) (fun _ _ => rfl) h
  refine ⟨?_, hup.shaped fresh.db executed⟩
  rw [applied, hup.order]
  rfl

theorem upgrade_fresh_tables :
    afterSecond.schema.applied =
        [⟨"001.sql", "runs"⟩, ⟨"002.sql", "workers"⟩, ⟨"003.sql", "events"⟩] ∧
      afterSecond.schema.db.1 = ["runs", "workers", "events"] := by
  have ddl : ∀ sql (a b a' b' : List String × Nat), a.1 = b.1 → tables.exec sql a = .ok a' →
      tables.exec sql b = .ok b' → a'.1 = b'.1 := by
    intro sql a b a' b' same ha hb
    simp only [tables] at ha hb
    split at ha
    · cases ha
    · next nonempty =>
      rw [if_neg nonempty] at hb
      rw [← Except.ok.inj ha, ← Except.ok.inj hb, same]
  have run : tables.system.Leads (fun s act => act.upgrades Prod.fst s) tables.system.init
      afterSecond := by
    have installed : tables.system.step tables.system.init (.migrate firstRelease) =
        some afterFirst := by
      decide +kernel
    have kept : Act.upgrades Prod.fst afterFirst (.write (["runs", "workers"], 7)) := rfl
    refine .step (.step (.single (e := .migrate firstRelease) ?_ installed) kept rfl)
      (e := .migrate secondRelease) ?_ ?_
    · exact ⟨by decide +kernel, by decide +kernel⟩
    · exact ⟨by decide +kernel, by decide +kernel⟩
    · decide +kernel
  have fresh : tables.migrate afterSecond.release ⟨tables.empty, []⟩ =
      .ok ⟨(["runs", "workers", "events"], 0),
        [⟨"001.sql", "runs"⟩, ⟨"002.sql", "workers"⟩, ⟨"003.sql", "events"⟩]⟩ := by
    decide +kernel
  exact upgrade_fresh ddl run fresh

end Runs

end Migrations

end Runyard
