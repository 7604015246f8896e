import Runyard.Artifacts.Service
import Runyard.Runner.Reporter

/-!
# Relative paths of artifacts

`validate_relative_path` over the bytes of a path, with its loop over an index. A path that it
accepts is resolved component by component without leaving the root.
-/

namespace Runyard

namespace RelativePath

def slash : UInt8 := 0x2f

def backslash : UInt8 := 0x5c

def dot : UInt8 := 0x2e

/-- `path.find('/', begin)`. -/
def nextSlash (path : Bytes) (start : Nat) : Option Nat :=
  ((path.drop start).idxOf? slash).map (start + ·)

def safeComponent (part : Bytes) : Bool := part ≠ [] && part ≠ [dot] && part ≠ [dot, dot]

def checkComponent (part : Bytes) : Result Unit :=
  require (safeComponent part) "artifact path contains an unsafe component"

theorem idxOf?_append_cons {part rest : Bytes} {b : UInt8} (first : b ∉ part) :
    (part ++ b :: rest).idxOf? b = some part.length := by
  induction part with
  | nil => simp [List.idxOf?_cons]
  | cons a part ih =>
    obtain ⟨here, later⟩ := List.ne_and_not_mem_of_not_mem_cons first
    simp [List.idxOf?_cons, ih later, here.symm]

/-- What is left has no slash, or it is a part without one, a slash and the rest. -/
theorem nextSlash_cases (path : Bytes) (start : Nat) :
    nextSlash path start = none ∧ slash ∉ path.drop start ∨
    ∃ part, nextSlash path start = some (start + part.length) ∧ slash ∉ part ∧
      path.drop start = part ++ slash :: path.drop (start + part.length + 1) := by
  by_cases found : slash ∈ path.drop start
  · obtain ⟨part, rest, cut, first⟩ := List.eq_append_cons_of_mem found
    have after : path.drop (start + part.length + 1) = rest := by
      rw [Nat.add_assoc, ← List.drop_drop, cut]
      simp
    refine .inr ⟨part, ?_, first, ?_⟩
    · rw [nextSlash, cut, idxOf?_append_cons first]
      rfl
    · rw [after, cut]
  · exact .inl ⟨by simpa [nextSlash] using found, found⟩

theorem nextSlash_lt {path : Bytes} {start stop : Nat} (h : nextSlash path start = some stop) :
    start ≤ stop ∧ stop < path.length := by
  rcases nextSlash_cases path start with ⟨none, _⟩ | ⟨part, found, _, cut⟩
  · rw [none] at h
    cases h
  · cases found.symm.trans h
    have length := congrArg List.length cut
    simp only [List.length_append, List.length_cons, List.length_drop] at length
    omega

/-- The loop of `validate_relative_path`. -/
def validateComponents (path : Bytes) (start : Nat) : Result Unit :=
  if start ≤ path.length then
    match h : nextSlash path start with
    | none => checkComponent (path.drop start)
    | some stop => do
      checkComponent ((path.drop start).take (stop - start))
      validateComponents path (stop + 1)
  else return ()
termination_by path.length + 1 - start
decreasing_by
  have := nextSlash_lt h
  omega

/-- The loop checks the parts between the slashes. -/
theorem validateComponents_eq {path : Bytes} {start : Nat} (within : start ≤ path.length) :
    validateComponents path start = ((path.drop start).splitOn slash).forM checkComponent := by
  induction hleft : path.length - start using Nat.strongRecOn generalizing start with
  | ind left ih =>
    rw [validateComponents, if_pos within]
    rcases nextSlash_cases path start with ⟨none, last⟩ | ⟨part, found, first, cut⟩
    · rw [List.splitOn_eq_singleton last]
      split
      · simp only [List.forM_eq_forM, List.forM_cons, List.forM_nil]
        exact (bind_pure_unit ..).symm
      next stop found => cases none.symm.trans found
    · have length := (nextSlash_lt found).2
      have rest := @ih (path.length - (start + part.length + 1)) (by omega)
        (start + part.length + 1) (by omega) rfl
      rw [cut, List.splitOn_append_cons_self_of_not_mem first, List.forM_eq_forM, List.forM_cons,
        ← List.forM_eq_forM, ← rest]
      split
      next none => cases found.symm.trans none
      next stop found' =>
        cases found.symm.trans found'
        simp

end RelativePath

open RelativePath

/-- `validate_relative_path`, on bytes. -/
def validateRelativeBytes (path : Bytes) : Result Unit := do
  require (path ≠ [] && path.length ≤ 1024 && path.head? ≠ some slash && !path.contains 0)
    "invalid artifact path"
  require (!path.contains backslash) "artifact paths use forward slashes"
  validateComponents path 0

namespace RelativePath

def components (path : Bytes) : List Bytes := path.splitOn slash

/-- The paths that stay below the root. -/
structure Safe (path : Bytes) : Prop where
  nonempty : 1 ≤ path.length
  bounded : path.length ≤ 1024
  text : 0 ∉ path
  forward : backslash ∉ path
  parts : ∀ part ∈ components path, part ≠ [] ∧ part ≠ [dot] ∧ part ≠ [dot, dot]

theorem checkComponent_ok {part : Bytes} {u : Unit} :
    checkComponent part = .ok u ↔ part ≠ [] ∧ part ≠ [dot] ∧ part ≠ [dot, dot] := by
  simp [checkComponent, safeComponent, and_assoc]

/-- A path that begins with a slash has an empty part. -/
theorem head_of_parts {path : Bytes} (parts : ∀ part ∈ components path, part ≠ []) :
    path.head? ≠ some slash := by
  cases path with
  | nil => simp
  | cons b rest =>
    rw [List.head?_cons, ne_eq, Option.some.injEq]
    rintro rfl
    refine parts [] ?_ rfl
    rw [components, ← List.nil_append (slash :: rest), List.splitOn_append_cons_self_of_not_mem]
    · exact List.mem_cons_self
    · exact List.not_mem_nil

theorem validateRelativeBytes_iff (path : Bytes) :
    validateRelativeBytes path = .ok () ↔ Safe path := by
  rw [validateRelativeBytes, validateComponents_eq (Nat.zero_le _), List.drop_zero]
  simp only [Result.bind_ok, Result.require_ok, Result.forM_ok, checkComponent_ok,
    Bool.and_eq_true, Bool.not_eq_eq_eq_not, Bool.not_true, decide_eq_true_eq, ne_eq,
    List.contains_eq_mem, decide_eq_false_iff_not]
  constructor
  · rintro ⟨_, ⟨⟨⟨nonempty, bounded⟩, _⟩, text⟩, _, forward, parts⟩
    exact ⟨List.length_pos_iff.mpr nonempty, bounded, text, forward, parts⟩
  · rintro ⟨nonempty, bounded, text, forward, parts⟩
    refine ⟨(), ⟨⟨⟨List.length_pos_iff.mp nonempty, bounded⟩, ?_⟩, text⟩, (), forward, parts⟩
    exact head_of_parts fun part hpart => (parts part hpart).1

/-! ## Resolution -/

/-- One step below a directory, which is given by the names on the way to it. -/
def enter (location : List Bytes) (part : Bytes) : List Bytes :=
  if part = [] ∨ part = [dot] then location
  else if part = [dot, dot] then location.dropLast
  else location ++ [part]

def resolve (root : List Bytes) (parts : List Bytes) : List Bytes := parts.foldl enter root

theorem resolve_safe {root parts : List Bytes}
    (safe : ∀ part ∈ parts, part ≠ [] ∧ part ≠ [dot] ∧ part ≠ [dot, dot]) :
    resolve root parts = root ++ parts := by
  induction parts generalizing root with
  | nil => simp [resolve]
  | cons part rest ih =>
    obtain ⟨⟨full, here, up⟩, later⟩ := List.forall_mem_cons.mp safe
    have entered : enter root part = root ++ [part] := by
      simp [enter, full, here, up]
    have tail : resolve (root ++ [part]) rest = root ++ [part] ++ rest := ih later
    rw [resolve, List.foldl_cons, entered]
    change resolve (root ++ [part]) rest = _
    rw [tail, List.append_assoc, List.singleton_append]

theorem components_inj {path path' : Bytes} (same : components path = components path') :
    path = path' := by
  have joined := congrArg ([slash].intercalate ·) same
  simpa only [components, List.intercalate_splitOn] using joined

/-! ## Storage keys -/

def hexDigit (b : UInt8) : Bool :=
  (0x30 ≤ b && b ≤ 0x39) || (0x61 ≤ b && b ≤ 0x66) || (0x41 ≤ b && b ≤ 0x46)

def digits : Bytes :=
  [0x30, 0x31, 0x32, 0x33, 0x34, 0x35, 0x36, 0x37, 0x38, 0x39, 0x61, 0x62, 0x63, 0x64, 0x65, 0x66]

/-- `hex` in `crypto.cpp`. -/
def hex (bytes : Bytes) : Bytes :=
  bytes.flatMap fun b => [digits.getD (b.toNat / 16) 0, digits.getD (b.toNat % 16) 0]

end RelativePath

/-- The digests that the library computes. -/
structure Sha256 where
  digest : Bytes → Bytes
  length : ∀ data, (digest data).length = 32

def Sha256.hex (s : Sha256) (data : Bytes) : Bytes := RelativePath.hex (s.digest data)

namespace RelativePath

/-- The storage key that `ArtifactService::publish` builds. -/
def storageKey (s : Sha256) (attempt relative file : Bytes) : Bytes :=
  attempt ++ slash :: (s.hex relative ++ 0x2d :: s.hex file)

theorem length_hex (bytes : Bytes) : (hex bytes).length = 2 * bytes.length := by
  induction bytes with
  | nil => rfl
  | cons b rest ih =>
    simp only [hex, List.flatMap_cons, List.length_append, List.length_cons, List.length_nil]
    simp only [hex] at ih
    omega

theorem digits_hexDigit : ∀ n < 16, hexDigit (digits.getD n 0) := by decide

theorem hex_hexDigit {bytes : Bytes} {b : UInt8} (h : b ∈ hex bytes) : hexDigit b := by
  obtain ⟨byte, _, hb⟩ := List.mem_flatMap.mp h
  have bound := byte.toNat_lt
  simp only [List.mem_cons, List.not_mem_nil, or_false] at hb
  rcases hb with rfl | rfl
  · exact digits_hexDigit _ (by omega)
  · exact digits_hexDigit _ (by omega)

theorem storageKey_safe (s : Sha256) {attempt : Bytes} (relative file : Bytes)
    (length : attempt.length = 32) (digits : ∀ b ∈ attempt, hexDigit b) :
    Safe (storageKey s attempt relative file) := by
  have plain {b : UInt8} (special : hexDigit b = false) {part : Bytes}
      (each : ∀ b ∈ part, hexDigit b) : b ∉ part := by
    intro h
    have := each b h
    simp [special] at this
  have name {b : UInt8} (special : hexDigit b = false) (dash : b ≠ 0x2d) :
      b ∉ s.hex relative ++ 0x2d :: s.hex file := by
    simp only [List.mem_append, List.mem_cons, not_or]
    exact ⟨plain special fun _ => hex_hexDigit, dash, plain special fun _ => hex_hexDigit⟩
  have absent {b : UInt8} (special : hexDigit b = false) (dash : b ≠ 0x2d) (other : b ≠ slash) :
      b ∉ storageKey s attempt relative file := by
    simp only [storageKey, List.mem_append, List.mem_cons, not_or]
    exact ⟨plain special digits, other, by simpa using name special dash⟩
  have total : (storageKey s attempt relative file).length = 162 := by
    simp [storageKey, Sha256.hex, length_hex, s.length, length]
  have cut : components (storageKey s attempt relative file) =
      [attempt, s.hex relative ++ 0x2d :: s.hex file] := by
    rw [components, storageKey, List.splitOn_append_cons_self_of_not_mem (plain (by decide) digits),
      List.splitOn_eq_singleton (name (by decide) (by decide))]
  constructor
  · omega
  · omega
  · exact absent (by decide) (by decide) (by decide)
  · exact absent (by decide) (by decide) (by decide)
  · rw [cut]
    have long {part : Bytes} (h : 2 < part.length) :
        part ≠ [] ∧ part ≠ [dot] ∧ part ≠ [dot, dot] := by
      refine ⟨?_, ?_, ?_⟩ <;> (rintro rfl; simp at h)
    refine List.forall_mem_cons.mpr ⟨long (by omega), List.forall_mem_singleton.mpr (long ?_)⟩
    simp [Sha256.hex, length_hex, s.length]

/-! ## Paths that are text -/

theorem encode_slash : String.utf8EncodeChar '/' = [slash] := by decide

theorem checkComponent_encode (part : List Char) :
    checkComponent (part.flatMap String.utf8EncodeChar) =
      require (part ≠ [] && part ≠ ['.'] && part ≠ ['.', '.'])
        "artifact path contains an unsafe component" := by
  have same (chars : List Char) :
      part.flatMap String.utf8EncodeChar = chars.flatMap String.utf8EncodeChar ↔ part = chars :=
    Utf8.flatMap_encode_inj
  have empty : part.flatMap String.utf8EncodeChar = [] ↔ part = [] := same []
  have here : part.flatMap String.utf8EncodeChar = [dot] ↔ part = ['.'] := same ['.']
  have up : part.flatMap String.utf8EncodeChar = [dot, dot] ↔ part = ['.', '.'] := same ['.', '.']
  simp only [checkComponent, safeComponent, ne_eq, empty, here, up]

theorem length_utf8 (path : String) : (utf8 path).length = path.utf8ByteSize := by
  have each (chars : List Char) :
      (chars.flatMap String.utf8EncodeChar).length = (String.ofList chars).utf8ByteSize := by
    induction chars with
    | nil => rfl
    | cons c rest ih =>
      rw [String.ofList_cons, String.utf8ByteSize_append, ← ih, List.flatMap_cons,
        List.length_append, String.length_utf8EncodeChar, String.utf8ByteSize_singleton]
  rw [utf8, each, String.ofList_toList]

theorem head_utf8 (path : String) :
    (utf8 path).head? = some slash ↔ path.toList.head? = some '/' := by
  rw [utf8]
  cases path.toList with
  | nil => simp
  | cons c rest =>
    obtain ⟨first, others, encoded, _⟩ := Utf8.group_char c
    rw [List.flatMap_cons, List.head?_cons, Option.some.injEq, encoded, List.cons_append,
      List.head?_cons, Option.some.injEq]
    constructor
    · rintro rfl
      exact (Utf8.mem_encode encode_slash).mp (encoded ▸ List.mem_cons_self)
    · rintro rfl
      cases encoded.symm.trans encode_slash
      rfl

/-- On text it is the validation of its characters. -/
theorem validateRelativeBytes_utf8 (path : String) :
    validateRelativeBytes (utf8 path) = validateRelativePath path := by
  have nothing : utf8 path = [] ↔ path = "" := by
    have encoded : utf8 path = [].flatMap String.utf8EncodeChar ↔ path.toList = [] :=
      Utf8.flatMap_encode_inj
    rw [← String.toList_inj]
    exact encoded
  have nul : (0 : UInt8) ∈ utf8 path ↔ '\x00' ∈ path.toList :=
    Utf8.mem_flatMap_encode (by decide)
  have back : backslash ∈ utf8 path ↔ '\\' ∈ path.toList :=
    Utf8.mem_flatMap_encode (by decide)
  have safe : (!(utf8 path).contains 0) = safeString path := by
    rw [Bool.eq_iff_iff]
    simp only [Bool.not_eq_true', List.contains_eq_mem, decide_eq_false_iff_not, nul, safeString,
      List.all_eq_true, decide_eq_true_eq]
    exact ⟨fun absent c hc same => absent (same ▸ hc), fun each h => each _ h rfl⟩
  have forward : (utf8 path).contains backslash = path.toList.contains '\\' := by
    rw [Bool.eq_iff_iff]
    simp [back]
  have parts : (((path.toList.splitOn '/').map (·.flatMap String.utf8EncodeChar)).forM
      checkComponent) = (path.toList.splitOn '/').forM fun part =>
        require (part ≠ [] && part ≠ ['.'] && part ≠ ['.', '.'])
          "artifact path contains an unsafe component" := by
    simp only [List.forM_eq_forM, List.forM_map, checkComponent_encode]
  rw [validateRelativeBytes, validateComponents_eq (Nat.zero_le _), validateRelativePath,
    List.drop_zero, safe, forward, length_utf8]
  simp only [ne_eq, nothing, head_utf8]
  rw [utf8, Utf8.splitOn_encode encode_slash, parts]

/-- The keys of the service, whose digests are printed. -/
theorem storageKey_service {c : ArtifactService} {s : Sha256}
    (text : ∀ x, utf8 (c.store.sha256 x) = s.hex (utf8 x))
    (file : ∀ bytes, utf8 (c.digest bytes) = s.hex bytes) (call : Publish) :
    utf8 (c.artifact call).storageKey =
      storageKey s (utf8 call.attempt) (utf8 call.relative) call.file := by
  have separators : String.utf8EncodeChar '/' = [slash] ∧ String.utf8EncodeChar '-' = [0x2d] := by
    decide
  rw [storageKey, ← text, ← file]
  simp [utf8, ArtifactService.artifact, separators]

end RelativePath

/-- The accepted paths are the safe ones. They stay below every root, lead to different places,
and every storage key of an attempt is one of them. -/
theorem artifact_paths :
    (∀ path, validateRelativeBytes path = .ok () ↔ Safe path) ∧
    (∀ path, validateRelativeBytes path = .ok () → ∀ root n,
      resolve root ((components path).take n) = root ++ (components path).take n) ∧
    (∀ path path', validateRelativeBytes path = .ok () → validateRelativeBytes path' = .ok () →
      ∀ root, resolve root (components path) = resolve root (components path') → path = path') ∧
    ∀ (s : Sha256) (attempt relative file : Bytes), attempt.length = 32 →
      (∀ b ∈ attempt, hexDigit b) →
      validateRelativeBytes (storageKey s attempt relative file) = .ok () := by
  refine ⟨validateRelativeBytes_iff, ?_, ?_, ?_⟩
  · intro path ok root n
    have safe := ((validateRelativeBytes_iff path).mp ok).parts
    exact resolve_safe fun part hpart => safe part (List.mem_of_mem_take hpart)
  · intro path path' ok ok' root same
    rw [resolve_safe ((validateRelativeBytes_iff path).mp ok).parts,
      resolve_safe ((validateRelativeBytes_iff path').mp ok').parts] at same
    exact components_inj (List.append_cancel_left same)
  · intro s attempt relative file length digits
    exact (validateRelativeBytes_iff _).mpr (storageKey_safe s relative file length digits)

/-- A path of two components, and the keys of an attempt. -/
theorem artifact_paths_checkpoint :
    resolve [utf8 "blobs"] (components (utf8 "checkpoints/epoch-1.bin")) =
      [utf8 "blobs", utf8 "checkpoints", utf8 "epoch-1.bin"] ∧
    (∀ path, validateRelativeBytes path = .ok () →
      resolve [] (components path) = [utf8 "a", utf8 "b"] → path = utf8 "a/b") ∧
    ∀ (s : Sha256) (relative file : Bytes), validateRelativeBytes
      (storageKey s (utf8 "0123456789abcdef0123456789abcdef") relative file) = .ok () := by
  obtain ⟨exact, below, apart, keys⟩ := artifact_paths
  have checkpoint : validateRelativeBytes (utf8 "checkpoints/epoch-1.bin") = .ok () :=
    (exact _).mpr ⟨by decide, by decide, by decide, by decide, by decide⟩
  have pair : validateRelativeBytes (utf8 "a/b") = .ok () :=
    (exact _).mpr ⟨by decide, by decide, by decide, by decide, by decide⟩
  refine ⟨?_, fun path ok same => apart path _ ok pair [] ?_, fun s relative file =>
    keys s _ relative file (by decide +kernel) (by decide +kernel)⟩
  · have resolved := below _ checkpoint [utf8 "blobs"] 2
    exact resolved
  · rw [same]
    decide

end Runyard
