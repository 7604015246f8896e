import Runyard.InputStream
import Runyard.Runner.Environment
import Runyard.Runner.Reporter

/-!
# Executable lookup

`resolve_executable` over the bytes of its strings. The loop reads the components of the path from
a stream and records the candidates that it examines.
-/

namespace Runyard

namespace Lookup

def colon : UInt8 := 0x3a

def slash : UInt8 := 0x2f

/-- `path::is_absolute`. -/
def isAbsolute (path : Bytes) : Bool := path.head? = some slash

/-- `operator/` of two paths. -/
def append (path other : Bytes) : Bytes :=
  if isAbsolute other then other
  else if path = [] || path.getLast? = some slash then path ++ other
  else path ++ slash :: other

/-- What the function asks the system. -/
structure Files where
  /-- `current_path`. -/
  current : Bytes
  /-- `is_regular_file`. -/
  regular : Bytes → Bool
  /-- `access` with `X_OK` returns 0. -/
  access : Bytes → Bool

structure Outcome where
  /-- The candidates in the order in which they were examined. -/
  examined : List Bytes
  result : Except (ErrorCode × Bytes) Bytes

namespace Files

variable (f : Files)

def executable (candidate : Bytes) : Bool := f.regular candidate && f.access candidate

/-- The function `absolute` of the source, under the child's directory. -/
def absolute (directory path : Bytes) : Bytes :=
  if isAbsolute path then path else append f.current (append directory path)

def candidate (command directory part : Bytes) : Bytes := f.absolute directory (append part command)

def notExecutable (command : Bytes) : ErrorCode × Bytes :=
  (.invalid, utf8 "command not executable on workload PATH: " ++ command)

/-- The loop over the components. -/
def search (command directory : Bytes) (paths : InputStream UInt8) (part : Bytes) : Outcome :=
  let read := paths.getline colon part
  let candidate := f.candidate command directory read.2
  if f.executable candidate then ⟨[candidate], .ok candidate⟩
  else if _more : read.1.good then
    let later := search command directory read.1 read.2
    { later with examined := candidate :: later.examined }
  else ⟨[candidate], .error (notExecutable command)⟩
termination_by paths.rest.length
decreasing_by exact InputStream.getline_shorter _more

/-- The value of `PATH`, or the default. -/
def pathOf (environment : List (Bytes × Bytes)) : Bytes :=
  (environment.lookup (utf8 "PATH")).getD (utf8 Environment.defaultPath)

def resolveExecutable (command : Bytes) (environment : List (Bytes × Bytes)) (directory : Bytes) :
    Outcome :=
  if slash ∈ command then ⟨[], .ok (f.absolute directory command)⟩
  else f.search command directory { rest := pathOf environment } []

/-! ## The candidates -/

/-- The first executable candidate of a list, and those that are examined until it is found. -/
def scan (command : Bytes) : List Bytes → Outcome
  | [] => ⟨[], .error (notExecutable command)⟩
  | candidate :: rest =>
    if f.executable candidate then ⟨[candidate], .ok candidate⟩
    else { scan command rest with examined := candidate :: (scan command rest).examined }

variable {f} {command directory : Bytes}

/-- The loop visits each component once, also an empty one at the end. -/
theorem search_eq_scan {paths : InputStream UInt8} (ready : paths.good) (part : Bytes) :
    f.search command directory paths part =
      f.scan command ((paths.rest.splitOn colon).map (f.candidate command directory)) := by
  induction hlength : paths.rest.length using Nat.strong_induction_on generalizing paths part with
  | h n ih =>
    rw [search]
    rcases InputStream.getline_cases colon ready part with
      ⟨line, rest, hread, parts, shorter⟩ | ⟨line, hread, parts⟩
    · have later := @ih rest.length (hlength ▸ shorter) { paths with rest := rest } ready line rfl
      simp only [hread, parts, List.map_cons, scan, later]
      split
      · rfl
      · exact dif_pos ready
    · simp only [hread, parts, List.map_cons, List.map_nil, scan]
      split
      · rfl
      · rfl

theorem scan_result (command : Bytes) (candidates : List Bytes) :
    (f.scan command candidates).result =
      match candidates.find? f.executable with
      | some candidate => .ok candidate
      | none => .error (notExecutable command) := by
  induction candidates with
  | nil => rfl
  | cons candidate rest ih =>
    rw [scan, List.find?_cons]
    cases f.executable candidate with
    | true => rfl
    | false => exact ih

section Parts

variable {parts : List Bytes} {place : Bytes → Bytes}

theorem scan_ok_iff {path : Bytes} : (f.scan command (parts.map place)).result = .ok path ↔
    ∃ before part after, parts = before ++ part :: after ∧ path = place part ∧
      f.executable path ∧ ∀ p ∈ before, ¬f.executable (place p) := by
  rw [scan_result, List.find?_map]
  constructor
  · intro h
    cases hfind : parts.find? (f.executable ∘ place) with
    | none =>
      rw [hfind] at h
      cases h
    | some part =>
      rw [hfind] at h
      cases h
      obtain ⟨here, before, after, cut, first⟩ := List.find?_eq_some_iff_append.mp hfind
      exact ⟨before, part, after, cut, rfl, here, fun p hp => by simpa using first p hp⟩
  · rintro ⟨before, part, after, cut, rfl, here, first⟩
    have hfind : parts.find? (f.executable ∘ place) = some part :=
      List.find?_eq_some_iff_append.mpr
        ⟨here, before, after, cut, fun p hp => by simpa using first p hp⟩
    rw [hfind]
    rfl

theorem scan_error_iff : (∃ e, (f.scan command (parts.map place)).result = .error e) ↔
    ∀ part ∈ parts, ¬f.executable (place part) := by
  rw [scan_result, List.find?_map]
  cases hfind : parts.find? (f.executable ∘ place) with
  | none => exact ⟨fun _ => List.find?_eq_none.mp hfind, fun _ => ⟨_, rfl⟩⟩
  | some part =>
    constructor
    · rintro ⟨_, h⟩
      cases h
    · exact fun absent =>
        absurd (List.find?_some hfind) (absent part (List.mem_of_find?_eq_some hfind))

end Parts

/-- Candidates are examined in their order, up to the first that is executable. -/
theorem scan_examined (command : Bytes) (candidates : List Bytes) :
    (f.scan command candidates).examined <+: candidates ∧
      ∀ c ∈ (f.scan command candidates).examined.dropLast, ¬f.executable c := by
  induction candidates with
  | nil => exact ⟨List.prefix_rfl, by simp [scan]⟩
  | cons candidate rest ih =>
    obtain ⟨inside, failing⟩ := ih
    rw [scan]
    split
    · exact ⟨by simp, by simp⟩
    · next refused =>
      refine ⟨(List.prefix_cons_inj candidate).mpr inside, fun c hc => ?_⟩
      dsimp only at hc
      cases hlater : (f.scan command rest).examined with
      | nil =>
        rw [hlater] at hc
        cases hc
      | cons d later =>
        rw [hlater, List.dropLast_cons_cons, ← hlater] at hc
        rcases List.mem_cons.mp hc with rfl | hc
        · exact refused
        · exact failing c hc

theorem resolve_eq_scan (f : Files) (directory : Bytes) (environment : List (Bytes × Bytes))
    (plain : slash ∉ command) :
    f.resolveExecutable command environment directory =
      f.scan command
        (((pathOf environment).splitOn colon).map (f.candidate command directory)) := by
  rw [resolveExecutable, if_neg plain]
  exact search_eq_scan rfl []

/-! ## Where a component leads -/

theorem not_absolute (plain : slash ∉ command) : isAbsolute command = false := by
  rw [isAbsolute, decide_eq_false_iff_not]
  exact fun first => plain (List.mem_of_mem_head? first)

theorem append_head {path other : Bytes} (plain : isAbsolute other = false)
    (part : path ≠ []) : (append path other).head? = path.head? := by
  rw [append, if_neg (by simp [plain])]
  split
  · exact List.head?_append_of_ne_nil path part
  · exact List.head?_append_of_ne_nil path part

theorem append_absolute {path : Bytes} (rooted : isAbsolute path) (other : Bytes) :
    isAbsolute (append path other) := by
  cases plain : isAbsolute other with
  | true => rwa [append, if_pos plain]
  | false =>
    have part : path ≠ [] := by
      rintro rfl
      cases rooted
    rw [isAbsolute, append_head plain part]
    exact rooted

theorem append_nil {other : Bytes} : append [] other = other := by
  rw [append]
  split
  · rfl
  · rfl

theorem append_relative {path other : Bytes} (relative : isAbsolute path = false)
    (plain : isAbsolute other = false) : isAbsolute (append path other) = false := by
  cases path with
  | nil => rwa [append_nil]
  | cons b path =>
    rw [isAbsolute, append_head plain (List.cons_ne_nil b path)]
    exact relative

/-- Below an absolute directory the process's own directory does not matter. -/
theorem candidate_relative (f : Files) (directory : Bytes) {part : Bytes} (plain : slash ∉ command)
    (relative : isAbsolute part = false) :
    f.candidate command directory part =
        append f.current (append directory (append part command)) ∧
      (isAbsolute directory → f.candidate command directory part =
        append directory (append part command)) := by
  have below : f.candidate command directory part =
      append f.current (append directory (append part command)) := by
    rw [candidate, absolute, append_relative relative (not_absolute plain)]
    rfl
  refine ⟨below, fun rooted => ?_⟩
  rw [below, append, if_pos (append_absolute rooted _)]

end Files

open Files

/-- The executable of a command is the first candidate, in the order of the components of the
path, that is executable; nothing else is examined. -/
theorem executable_lookup (f : Files) (command directory : Bytes)
    (environment : List (Bytes × Bytes)) (plain : slash ∉ command) :
    ∃ parts outcome, parts = (pathOf environment).splitOn colon ∧
      outcome = f.resolveExecutable command environment directory ∧
      (∀ path, outcome.result = .ok path ↔ ∃ before part after,
        parts = before ++ part :: after ∧ path = f.candidate command directory part ∧
        f.executable path ∧ ∀ p ∈ before, ¬f.executable (f.candidate command directory p)) ∧
      ((∃ e, outcome.result = .error e) ↔
        ∀ part ∈ parts, ¬f.executable (f.candidate command directory part)) ∧
      outcome.examined <+: parts.map (f.candidate command directory) ∧
      (∀ c ∈ outcome.examined.dropLast, ¬f.executable c) ∧
      -- Where the components lead.
      (∀ part, isAbsolute part →
        f.candidate command directory part = append part command) ∧
      (∀ part, isAbsolute part = false → f.candidate command directory part =
        append f.current (append directory (append part command))) ∧
      f.candidate command directory [] = append f.current (append directory command) ∧
      (isAbsolute directory → ∀ part, isAbsolute part = false →
        f.candidate command directory part = append directory (append part command)) := by
  have spec := resolve_eq_scan f directory environment plain
  refine ⟨_, _, rfl, rfl, fun path => ?_, ?_, ?_, ?_, fun part rooted => ?_, ?_, ?_, ?_⟩
  · rw [spec]
    exact scan_ok_iff
  · rw [spec]
    exact scan_error_iff
  · rw [spec]
    exact (scan_examined _ _).1
  · rw [spec]
    exact (scan_examined _ _).2
  · rw [candidate, absolute, if_pos (append_absolute rooted command)]
  · exact fun part relative => (candidate_relative f directory plain relative).1
  · have empty := (candidate_relative f directory plain (show isAbsolute [] = false from rfl)).1
    rwa [append_nil] at empty
  · exact fun rooted part relative => (candidate_relative f directory plain relative).2 rooted

/-- The path `bin::/bin` with an executable below the working directory only. -/
theorem executable_lookup_child : (resolveExecutable
    ⟨utf8 "/", fun _ => true, fun path => path == utf8 "/work/sh" || path == utf8 "/bin/sh"⟩
    (utf8 "sh") [(utf8 "PATH", utf8 "bin::/bin")] (utf8 "/work")).result =
      .ok (utf8 "/work/sh") := by
  obtain ⟨_, _, rfl, rfl, found, _⟩ := executable_lookup
    ⟨utf8 "/", fun _ => true, fun path => path == utf8 "/work/sh" || path == utf8 "/bin/sh"⟩
    (utf8 "sh") (utf8 "/work") [(utf8 "PATH", utf8 "bin::/bin")] (by decide)
  exact (found _).mpr
    ⟨[utf8 "bin"], [], [utf8 "/bin"], by decide, by decide, by decide, by decide⟩

end Lookup

end Runyard
