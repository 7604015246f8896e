import Runyard.Runner.Delivery
import Mathlib.Algebra.Order.BigOperators.Group.List

/-!
# The output of the child

What the runner's `consume` does with the pieces of output that `PosixProcess::drain` reads. Each
piece is cleaned by itself.
-/

namespace Runyard

def archiveLimit : Nat := 100 * 1024 * 1024

/-- The size of the buffer of `drain`. -/
def drainBuffer : Nat := 16384

inductive Stream where
  | stdout | stderr
  deriving DecidableEq

def Stream.kind : Stream → LogKind
  | .stdout => .stdout
  | .stderr => .stderr

/-- One successful `read` of `drain`. -/
structure Chunk where
  stream : Stream
  bytes : Bytes
  nonempty : bytes ≠ []
  bounded : bytes.length ≤ drainBuffer
  deriving DecidableEq

/-- The archives and counters that `consume` captures, and the records that it logged. -/
structure Output where
  stdout : Bytes := []
  stderr : Bytes := []
  logBytes : Nat := 0
  logTruncated : Bool := false
  records : List Telemetry := []
  deriving DecidableEq

namespace Output

section Replace

variable (replace : Bytes → Bytes)

def consume (o : Output) (chunk : Chunk) : Output :=
  if o.logBytes + chunk.bytes.length ≤ archiveLimit then
    { o with
      stdout := if chunk.stream = .stdout then o.stdout ++ chunk.bytes else o.stdout
      stderr := if chunk.stream = .stdout then o.stderr else o.stderr ++ chunk.bytes
      logBytes := o.logBytes + chunk.bytes.length
      records := o.records ++ logRecords replace chunk.stream.kind chunk.bytes }
  else if !o.logTruncated then
    { o with
      logTruncated := true
      records := o.records ++
        logRecords replace .notice (utf8 "Log archive limit reached (100 MiB)\n") }
  else o

/-- A run of `drain` calls that reads these pieces, in this order. -/
def drained (chunks : List Chunk) : Output := chunks.foldl (consume replace) {}

end Replace

/-- The pieces of one stream. -/
def reads (stream : Stream) (chunks : List Chunk) : List Bytes :=
  (chunks.filter fun chunk => chunk.stream = stream).map (·.bytes)

/-- The texts of the log records of one stream. -/
def recorded (stream : Stream) (o : Output) : Bytes :=
  (o.records.filter fun record => record.kind = stream.kind.text).flatMap (·.text)

/-- A text with the two characters `\0` in place of each NUL. -/
def escape (text : Bytes) : Bytes := text.flatMap fun ch => if ch = 0 then utf8 "\\0" else [ch]

/-! ## Each piece is cleaned by itself -/

section Recorded

variable {replace : Bytes → Bytes} {stream : Stream}

theorem logRecords_kind {kind : LogKind} {text : Bytes} :
    ∀ r ∈ logRecords replace kind text, r.kind = kind.text := by
  intro r hr
  obtain ⟨piece, -, rfl⟩ := List.mem_map.mp hr
  rfl

theorem kind_text_inj {a b : Stream} (h : a.kind.text = b.kind.text) : a = b := by
  revert h
  cases a <;> cases b <;> decide

/-- Below the archive limit every piece is logged. -/
theorem recorded_foldl (hreplace : ∀ text, Utf8.Replaced text (replace text)) (stream : Stream)
    (chunks : List Chunk) (o : Output)
    (hlimit : o.logBytes + (chunks.map (·.bytes.length)).sum ≤ archiveLimit) :
    recorded stream (chunks.foldl (consume replace) o) =
      recorded stream o ++ (reads stream chunks).flatMap fun piece => escape (replace piece) := by
  induction chunks generalizing o with
  | nil => simp [reads]
  | cons chunk chunks ih =>
    rw [List.map_cons, List.sum_cons] at hlimit
    have hconsume : consume replace o chunk = { o with
        stdout := if chunk.stream = .stdout then o.stdout ++ chunk.bytes else o.stdout
        stderr := if chunk.stream = .stdout then o.stderr else o.stderr ++ chunk.bytes
        logBytes := o.logBytes + chunk.bytes.length
        records := o.records ++ logRecords replace chunk.stream.kind chunk.bytes } :=
      if_pos (by omega)
    have hshaped : Utf8.Shaped (replace chunk.bytes) := by
      obtain ⟨chars, hchars⟩ := (hreplace chunk.bytes).valid
      rw [hchars]
      exact Utf8.shaped_encode chars
    rw [List.foldl_cons, ih _ (by rw [hconsume]; dsimp only; omega), hconsume]
    by_cases hstream : chunk.stream = stream
    · have hall : (logRecords replace chunk.stream.kind chunk.bytes).filter
          (fun record => record.kind = stream.kind.text) =
            logRecords replace chunk.stream.kind chunk.bytes :=
        List.filter_eq_self.mpr fun r hr => decide_eq_true (by rw [logRecords_kind r hr, hstream])
      have hreads : reads stream (chunk :: chunks) = chunk.bytes :: reads stream chunks := by
        simp [reads, hstream]
      rw [hreads, List.flatMap_cons, ← List.append_assoc, recorded, List.filter_append, hall,
        List.flatMap_append, logRecords_flatten hshaped]
      rfl
    · have hnone : (logRecords replace chunk.stream.kind chunk.bytes).filter
          (fun record => record.kind = stream.kind.text) = [] :=
        List.filter_eq_nil_iff.mpr fun r hr hkind => hstream (kind_text_inj
          ((logRecords_kind r hr).symm.trans (of_decide_eq_true hkind)))
      have hreads : reads stream (chunk :: chunks) = reads stream chunks := by
        simp [reads, hstream]
      rw [hreads, recorded, List.filter_append, hnone, List.append_nil]
      rfl

theorem recorded_drained (hreplace : ∀ text, Utf8.Replaced text (replace text)) (stream : Stream)
    {chunks : List Chunk} (hlimit : (chunks.map (·.bytes.length)).sum ≤ archiveLimit) :
    recorded stream (drained replace chunks) =
      (reads stream chunks).flatMap fun piece => escape (replace piece) := by
  have hrecorded := recorded_foldl hreplace stream chunks {} (by simpa using hlimit)
  rw [drained, hrecorded]
  rfl

end Recorded

/-! ## Characters across a boundary -/

section Boundary

variable {text out : Bytes}

theorem escape_append (text more : Bytes) : escape (text ++ more) = escape text ++ escape more :=
  List.flatMap_append

theorem escape_flatten (pieces : List Bytes) : escape pieces.flatten = pieces.flatMap escape := by
  induction pieces with
  | nil => rfl
  | cons piece pieces ih => rw [List.flatten_cons, escape_append, ih, List.flatMap_cons]

theorem escape_nonzero (h : 0 ∉ text) : escape text = text := by
  have hsame : ∀ ch ∈ text, (if ch = 0 then utf8 "\\0" else [ch]) = [ch] := by
    intro ch hch
    refine if_neg ?_
    rintro rfl
    exact h hch
  rw [escape, List.flatMap_congr hsame]
  exact List.flatMap_singleton' text

theorem escape_replacement : escape Utf8.replacement = Utf8.replacement := by decide

/-- A replacement never makes a text shorter. -/
theorem escape_length_le (replaced : Utf8.Replaced text out) :
    (escape text).length ≤ (escape out).length := by
  induction replaced with
  | nil => exact le_rfl
  | char c _ ih =>
    rw [escape_append, escape_append, List.length_append, List.length_append]
    omega
  | ill ill _ ih =>
    have hshort := ill.length_le
    have hthree : Utf8.replacement.length = 3 := rfl
    rw [escape_append, escape_append, List.length_append, List.length_append,
      escape_nonzero ill.nonzero, escape_replacement]
    omega

/-- It makes a text longer that begins inside a character. -/
theorem escape_length_lt (replaced : Utf8.Replaced text out) {b : UInt8}
    (hb : text.head? = some b) (continued : Utf8.continuation b) :
    (escape text).length < (escape out).length := by
  cases replaced with
  | nil => cases hb
  | @char text out c _ =>
    obtain ⟨first, rest, hgroup, lead, -⟩ := Utf8.group_char c
    rw [hgroup] at hb
    cases hb
    exact absurd continued lead
  | @ill bad text out ill replaced =>
    have hle := escape_length_le replaced
    have hbad : bad = [b] := by
      refine ill.single ?_ continued
      rcases ill.cut with ⟨a, rfl⟩ | ⟨hne, -⟩
      · exact hb
      · obtain ⟨a, bad', rfl⟩ := List.exists_cons_of_ne_nil hne
        exact hb
    have hthree : Utf8.replacement.length = 3 := rfl
    rw [escape_append, escape_append, List.length_append, List.length_append,
      escape_nonzero ill.nonzero, escape_replacement, hbad, List.length_singleton]
    omega

/-- When no piece begins inside a character, the boundaries are boundaries of characters. -/
theorem valid_pieces {pieces : List Bytes} (hne : ∀ piece ∈ pieces, piece ≠ [])
    (hvalid : Utf8.Valid pieces.flatten)
    (lead : ∀ piece ∈ pieces, ∀ b ∈ piece.head?, ¬ Utf8.continuation b) :
    ∀ piece ∈ pieces, Utf8.Valid piece := by
  induction pieces with
  | nil => exact fun _ h => nomatch h
  | cons piece pieces ih =>
    have hhead : ∀ b ∈ pieces.flatten.head?, ¬ Utf8.continuation b := by
      cases pieces with
      | nil => exact fun _ h => nomatch h
      | cons next pieces =>
        obtain ⟨a, next', rfl⟩ := List.exists_cons_of_ne_nil (hne next (by simp))
        exact lead (a :: next') (by simp)
    rw [List.flatten_cons] at hvalid
    obtain ⟨hpiece, hpieces⟩ := hvalid.split hhead
    refine List.forall_mem_cons.mpr ⟨hpiece, ih ?_ hpieces ?_⟩
    · exact fun p hp => hne p (List.mem_cons_of_mem _ hp)
    · exact fun p hp => lead p (List.mem_cons_of_mem _ hp)

end Boundary

/-- Below the limits, the records of a stream that carries UTF-8 give its text, with `\0` in place
of NUL, exactly when no character straddles two reads. -/
theorem log_text (replace : Bytes → Bytes)
    (hreplace : ∀ text, Utf8.Replaced text (replace text)) (chunks : List Chunk) (stream : Stream)
    (hlimit : (chunks.map (·.bytes.length)).sum ≤ archiveLimit)
    (hvalid : Utf8.Valid (reads stream chunks).flatten) :
    recorded stream (drained replace chunks) = escape (reads stream chunks).flatten ↔
      ∀ piece ∈ reads stream chunks, Utf8.Valid piece := by
  rw [recorded_drained hreplace stream hlimit, escape_flatten]
  constructor
  · intro heq
    by_contra hbroken
    have hne : ∀ piece ∈ reads stream chunks, piece ≠ [] := by
      intro piece hpiece
      obtain ⟨chunk, -, rfl⟩ := List.mem_map.mp hpiece
      exact chunk.nonempty
    obtain ⟨piece, hpiece, b, hb, continued⟩ : ∃ piece ∈ reads stream chunks,
        ∃ b ∈ piece.head?, Utf8.continuation b := by
      by_contra hnone
      refine hbroken (valid_pieces hne hvalid fun piece hpiece b hb continued => ?_)
      exact hnone ⟨piece, hpiece, b, hb, continued⟩
    have hlonger := List.sum_lt_sum (l := reads stream chunks)
      (fun piece => (escape piece).length) (fun piece => (escape (replace piece)).length)
      (fun piece _ => escape_length_le (hreplace piece))
      ⟨piece, hpiece, escape_length_lt (hreplace piece) hb continued⟩
    have hlength := congrArg List.length heq
    rw [List.length_flatMap, List.length_flatMap] at hlength
    omega
  · intro hpieces
    refine List.flatMap_congr fun piece hpiece => ?_
    rw [(hreplace piece).eq_of_valid (hpieces piece hpiece)]

def sampleReplace (text : Bytes) : Bytes := Utf8.replaceEach text.length text

theorem sampleReplace_replaced (text : Bytes) : Utf8.Replaced text (sampleReplace text) :=
  Utf8.replaced_replaceEach le_rfl

/-- Whole characters of one stream around an invalid byte of the other. -/
def wholeChunks : List Chunk :=
  [⟨.stdout, [65, 0], by decide, by decide⟩, ⟨.stderr, [255], by decide, by decide⟩,
    ⟨.stdout, [0xc3, 0xa9], by decide, by decide⟩]

theorem log_text_whole : recorded .stdout (drained sampleReplace wholeChunks) =
    [65, 92, 48, 0xc3, 0xa9] := by
  have hvalid : ∀ piece ∈ reads .stdout wholeChunks, Utf8.Valid piece := by
    refine List.forall_mem_cons.mpr ⟨⟨['A', Char.ofNat 0], by decide⟩, ?_⟩
    exact List.forall_mem_singleton.mpr ⟨['é'], by decide⟩
  have hflatten : Utf8.Valid (reads .stdout wholeChunks).flatten :=
    ⟨['A', Char.ofNat 0, 'é'], by decide⟩
  exact (log_text sampleReplace sampleReplace_replaced wholeChunks .stdout (by decide)
    hflatten).mpr hvalid

/-- The two bytes of one character in two reads. -/
def splitChunks : List Chunk :=
  [⟨.stdout, [0xc3], by decide, by decide⟩, ⟨.stdout, [0xa9], by decide, by decide⟩]

theorem log_text_split : Utf8.Valid (reads .stdout splitChunks).flatten ∧
    recorded .stdout (drained sampleReplace splitChunks) =
      [0xef, 0xbf, 0xbd, 0xef, 0xbf, 0xbd] ∧
    recorded .stdout (drained sampleReplace splitChunks) ≠
      escape (reads .stdout splitChunks).flatten :=
  ⟨⟨['é'], by decide⟩, by decide +kernel, by decide +kernel⟩

end Output

end Runyard
