import Runyard.Runner.Output

/-!
# Log archives

Where the archives of both streams stop. `consume` compares each piece with the room that is
left, also after its notice.
-/

namespace Runyard

namespace Output

section Archives

variable (replace : Bytes → Bytes)

def archive (stream : Stream) (o : Output) : Bytes :=
  match stream with
  | .stdout => o.stdout
  | .stderr => o.stderr

def total (chunks : List Chunk) : Nat := (chunks.map (·.bytes.length)).sum

/-- The records of pieces that are logged one by one. -/
def reported (chunks : List Chunk) : List Telemetry :=
  chunks.flatMap fun chunk => logRecords replace chunk.stream.kind chunk.bytes

def limitNotice : List Telemetry :=
  logRecords replace .notice (utf8 "Log archive limit reached (100 MiB)\n")

/-- All pieces are archived and logged. -/
def whole (chunks : List Chunk) : Output where
  stdout := (reads .stdout chunks).flatten
  stderr := (reads .stderr chunks).flatten
  logBytes := total chunks
  records := reported replace chunks

/-- The archives stop after these pieces, with the notice. -/
def stopped (chunks : List Chunk) : Output :=
  { whole replace chunks with
    logTruncated := true
    records := reported replace chunks ++ limitNotice replace }

/-- What the limit of the archives is meant to give. -/
structure BoundedPrefixes (chunks : List Chunk) : Prop where
  limit : (drained replace chunks).stdout.length + (drained replace chunks).stderr.length ≤
    archiveLimit
  notice : ((drained replace chunks).records.filter (·.kind = "notice")).length ≤ 1
  /-- After a piece that is not archived no piece is archived or logged. -/
  stops : ∀ before c mid d rest, chunks = before ++ c :: mid ++ d :: rest →
    archive c.stream (drained replace (before ++ [c])) =
      archive c.stream (drained replace before) →
    drained replace (before ++ c :: mid ++ [d]) = drained replace (before ++ c :: mid)
  prefixes : ∀ stream, archive stream (drained replace chunks) <+: (reads stream chunks).flatten
  /-- The notice stands where both archives stop. -/
  marked : ∃ before rest, chunks = before ++ rest ∧
    (∀ stream, archive stream (drained replace chunks) = (reads stream before).flatten) ∧
    (drained replace chunks).records =
      reported replace before ++ if rest = [] then [] else limitNotice replace

/-- A piece that does not fit leaves no room for a later one. -/
def Exhausts (chunks : List Chunk) : Prop :=
  ∀ before c after, chunks = before ++ c :: after → total before ≤ archiveLimit →
    archiveLimit < total before + c.bytes.length →
      ∀ d ∈ after, archiveLimit < total before + d.bytes.length

variable {replace} {chunks before after : List Chunk} {c d : Chunk} {stream : Stream}

theorem total_append (chunks more : List Chunk) :
    total (chunks ++ more) = total chunks + total more := by
  simp [total]

@[simp] theorem total_singleton (c : Chunk) : total [c] = c.bytes.length := by simp [total]

theorem total_cons (c : Chunk) (chunks : List Chunk) :
    total (c :: chunks) = c.bytes.length + total chunks := by
  simp [total]

theorem chunk_positive (c : Chunk) : 0 < c.bytes.length :=
  List.length_pos_of_ne_nil c.nonempty

theorem drained_append (chunks : List Chunk) (c : Chunk) :
    drained replace (chunks ++ [c]) = consume replace (drained replace chunks) c := by
  simp [drained, List.foldl_append]

theorem reads_append (stream : Stream) (chunks more : List Chunk) :
    reads stream (chunks ++ more) = reads stream chunks ++ reads stream more := by
  simp [reads]

theorem whole_append (chunks : List Chunk) (c : Chunk) :
    whole replace (chunks ++ [c]) = { whole replace chunks with
      stdout := if c.stream = .stdout then (whole replace chunks).stdout ++ c.bytes
        else (whole replace chunks).stdout
      stderr := if c.stream = .stdout then (whole replace chunks).stderr
        else (whole replace chunks).stderr ++ c.bytes
      logBytes := total chunks + c.bytes.length
      records := reported replace chunks ++ logRecords replace c.stream.kind c.bytes } := by
  cases hstream : c.stream <;>
    simp [whole, reads, total, reported, hstream]

theorem consume_fits (fits : total chunks + c.bytes.length ≤ archiveLimit) :
    consume replace (whole replace chunks) c = whole replace (chunks ++ [c]) := by
  rw [whole_append]
  exact if_pos fits

theorem consume_overflows (overflows : archiveLimit < total chunks + c.bytes.length) :
    consume replace (whole replace chunks) c = stopped replace chunks := by
  have full : ¬(whole replace chunks).logBytes + c.bytes.length ≤ archiveLimit :=
    not_le.mpr overflows
  rw [consume, if_neg full]
  rfl

theorem consume_stopped (overflows : archiveLimit < total chunks + c.bytes.length) :
    consume replace (stopped replace chunks) c = stopped replace chunks := by
  have full : ¬(stopped replace chunks).logBytes + c.bytes.length ≤ archiveLimit :=
    not_le.mpr overflows
  rw [consume, if_neg full]
  rfl

theorem drained_whole (fits : total chunks ≤ archiveLimit) :
    drained replace chunks = whole replace chunks := by
  induction chunks using List.reverseRecOn with
  | nil => rfl
  | append_singleton chunks c ih =>
    rw [total_append, total_singleton] at fits
    rw [drained_append, ih (by omega), consume_fits fits]

/-- After the first piece that does not fit nothing changes any more. -/
theorem drained_stopped (fits : total before ≤ archiveLimit)
    (overflows : archiveLimit < total before + c.bytes.length)
    (exhausted : ∀ d ∈ after, archiveLimit < total before + d.bytes.length) :
    drained replace (before ++ c :: after) = stopped replace before := by
  induction after using List.reverseRecOn with
  | nil => rw [drained_append, drained_whole fits, consume_overflows overflows]
  | append_singleton after d ih =>
    have earlier := ih fun x hx => exhausted x (List.mem_append_left _ hx)
    have last := exhausted d (List.mem_append_right _ List.mem_cons_self)
    rw [← List.cons_append, ← List.append_assoc, drained_append, earlier, consume_stopped last]

theorem first_overflow (chunks : List Chunk) : total chunks ≤ archiveLimit ∨
    ∃ before c after, chunks = before ++ c :: after ∧ total before ≤ archiveLimit ∧
      archiveLimit < total before + c.bytes.length := by
  induction chunks using List.reverseRecOn with
  | nil => exact .inl (Nat.zero_le _)
  | append_singleton chunks d ih =>
    rcases ih with fits | ⟨before, c, after, rfl, fits, overflows⟩
    · by_cases room : total chunks + d.bytes.length ≤ archiveLimit
      · exact .inl (by rwa [total_append, total_singleton])
      · exact .inr ⟨chunks, d, [], rfl, fits, by omega⟩
    · exact .inr ⟨before, c, after ++ [d], by simp, fits, overflows⟩

theorem Exhausts.initial {rest : List Chunk} (exhausts : Exhausts (chunks ++ rest)) :
    Exhausts chunks := by
  rintro before c after rfl fits overflows d hd
  refine exhausts before c (after ++ rest) (by simp) fits overflows d ?_
  exact List.mem_append_left _ hd

/-- Either everything was archived, or the archives stopped at a piece. -/
theorem Exhausts.cases (replace : Bytes → Bytes) (exhausts : Exhausts chunks) :
    total chunks ≤ archiveLimit ∧ drained replace chunks = whole replace chunks ∨
    ∃ before c after, chunks = before ++ c :: after ∧ total before ≤ archiveLimit ∧
      archiveLimit < total before + c.bytes.length ∧
      drained replace chunks = stopped replace before := by
  rcases first_overflow chunks with fits | ⟨before, c, after, rfl, fits, overflows⟩
  · exact .inl ⟨fits, drained_whole fits⟩
  · refine .inr ⟨before, c, after, rfl, fits, overflows, ?_⟩
    exact drained_stopped fits overflows (exhausts before c after rfl fits overflows)

theorem archive_whole (stream : Stream) (chunks : List Chunk) :
    archive stream (whole replace chunks) = (reads stream chunks).flatten := by
  cases stream <;> rfl

theorem archive_stopped (stream : Stream) (chunks : List Chunk) :
    archive stream (stopped replace chunks) = (reads stream chunks).flatten := by
  cases stream <;> rfl

/-- A piece that fits is archived. -/
theorem archive_grows (fits : total chunks + c.bytes.length ≤ archiveLimit) {o : Output}
    (logged : o.logBytes = total chunks) :
    archive c.stream (consume replace o c) = archive c.stream o ++ c.bytes := by
  rw [consume, if_pos (by rw [logged]; exact fits)]
  cases hstream : c.stream <;> simp [archive]

/-! ## The limit and the notice -/

theorem limitNotice_length (hreplace : ∀ text, Utf8.Replaced text (replace text)) :
    (limitNotice replace).length = 1 := by
  have valid : Utf8.Valid (utf8 "Log archive limit reached (100 MiB)\n") := ⟨_, rfl⟩
  rw [limitNotice, logRecords, readable, (hreplace _).eq_of_valid valid]
  decide +kernel

theorem no_notices (replace : Bytes → Bytes) (chunks : List Chunk) :
    (reported replace chunks).filter (·.kind = "notice") = [] := by
  refine List.filter_eq_nil_iff.mpr fun r hr => ?_
  obtain ⟨c, _, hr⟩ := List.mem_flatMap.mp hr
  rw [logRecords_kind r hr]
  cases c.stream <;> decide

/-- What holds after every run of `consume`. -/
structure Counted (replace : Bytes → Bytes) (o : Output) : Prop where
  bytes : o.logBytes = o.stdout.length + o.stderr.length
  limit : o.logBytes ≤ archiveLimit
  notices : (o.records.filter (·.kind = "notice")).length = if o.logTruncated then 1 else 0

theorem counted_drained (hreplace : ∀ text, Utf8.Replaced text (replace text))
    (chunks : List Chunk) : Counted replace (drained replace chunks) := by
  induction chunks using List.reverseRecOn with
  | nil => exact ⟨rfl, Nat.zero_le _, rfl⟩
  | append_singleton chunks c ih =>
    have hbytes := ih.bytes
    have hnotices := ih.notices
    rw [drained_append, consume]
    split
    next room =>
      refine ⟨?_, room, ?_⟩
      · split <;> simp only [List.length_append] <;> omega
      · have none := no_notices replace [c]
        rw [reported, List.flatMap_singleton] at none
        rw [List.filter_append, none, List.append_nil]
        exact hnotices
    next full =>
      split
      next first =>
        simp only [Bool.not_eq_true'] at first
        refine ⟨hbytes, ih.limit, ?_⟩
        have only : (limitNotice replace).filter (·.kind = "notice") = limitNotice replace :=
          List.filter_eq_self.mpr fun r hr => decide_eq_true (logRecords_kind r hr)
        simp only [first, Bool.false_eq_true, if_false] at hnotices
        rw [List.filter_append, List.length_append, hnotices]
        change 0 + ((limitNotice replace).filter _).length = 1
        rw [only, limitNotice_length hreplace]
      next => exact ih

/-! ## The point of truncation -/

theorem Exhausts.stops {mid rest : List Chunk}
    (exhausts : Exhausts (before ++ c :: mid ++ d :: rest))
    (left : archive c.stream (drained replace (before ++ [c])) =
      archive c.stream (drained replace before)) :
    drained replace (before ++ c :: mid ++ [d]) = drained replace (before ++ c :: mid) := by
  have overflows : archiveLimit < total (before ++ c :: mid) := by
    by_contra fits
    rw [total_append, total_cons] at fits
    have kept : drained replace before = whole replace before := drained_whole (by omega)
    rw [drained_append, kept, archive_grows (by omega) rfl] at left
    have grown := congrArg List.length left
    have := chunk_positive c
    rw [List.length_append] at grown
    omega
  have upto : Exhausts ((before ++ c :: mid ++ [d]) ++ rest) := by simpa using exhausts
  have here := upto.initial
  have already : Exhausts (before ++ c :: mid) := here.initial
  rcases already.cases replace with
    ⟨fits, _⟩ | ⟨first, x, after, same, fits, overflow, stopped⟩
  · omega
  · rw [drained_append, stopped]
    refine consume_stopped (here first x (after ++ [d]) ?_ fits overflow d (by simp))
    rw [same, List.append_assoc, List.cons_append]

/-- Pieces that fit after the first one that did not are archived. -/
theorem BoundedPrefixes.exhausts (bounded : BoundedPrefixes replace chunks) : Exhausts chunks := by
  rintro before c after rfl fits overflows d hd
  by_contra room
  -- The first piece after the notice that fits.
  obtain ⟨d, found⟩ : ∃ d, after.find? (fun d => total before + d.bytes.length ≤ archiveLimit) =
      some d := by
    refine Option.isSome_iff_exists.mp (List.find?_isSome.mpr ⟨d, hd, ?_⟩)
    exact decide_eq_true (by omega)
  obtain ⟨fit, mid, rest, rfl, none⟩ := List.find?_eq_some_iff_append.mp found
  have exhausted : ∀ x ∈ mid, archiveLimit < total before + x.bytes.length := by
    intro x hx
    have := none x hx
    simpa using this
  have first : drained replace (before ++ c :: mid) = stopped replace before :=
    drained_stopped fits overflows exhausted
  have left : archive c.stream (drained replace (before ++ [c])) =
      archive c.stream (drained replace before) := by
    rw [drained_append, drained_whole fits, consume_overflows overflows]
    cases c.stream <;> rfl
  have stops := bounded.stops before c mid d rest (by simp) left
  have grown := congrArg (archive d.stream) stops
  rw [drained_append, first, archive_grows (of_decide_eq_true fit) rfl] at grown
  have length := congrArg List.length grown
  have := chunk_positive d
  rw [List.length_append] at length
  omega

theorem Exhausts.bounded (hreplace : ∀ text, Utf8.Replaced text (replace text))
    (exhausts : Exhausts chunks) : BoundedPrefixes replace chunks := by
  have counted := counted_drained hreplace chunks
  constructor
  · have := counted.bytes
    have := counted.limit
    omega
  · rw [counted.notices]
    split <;> omega
  · rintro before c mid d rest rfl left
    exact exhausts.stops left
  · intro stream
    rcases exhausts.cases replace with ⟨_, all⟩ | ⟨before, c, after, rfl, _, _, cutOff⟩
    · have kept : archive stream (drained replace chunks) = (reads stream chunks).flatten := by
        rw [all, archive_whole]
      exact kept ▸ List.prefix_rfl
    · rw [cutOff, archive_stopped, reads_append, List.flatten_append]
      exact List.prefix_append _ _
  · rcases exhausts.cases replace with ⟨_, all⟩ | ⟨before, c, after, rfl, _, _, cutOff⟩
    · refine ⟨chunks, [], by simp, fun stream => ?_, ?_⟩
      · rw [all, archive_whole]
      · rw [all, if_pos rfl, List.append_nil]
        rfl
    · refine ⟨before, c :: after, rfl, fun stream => ?_, ?_⟩
      · rw [cutOff, archive_stopped]
      · rw [cutOff, if_neg (List.cons_ne_nil _ _)]
        rfl

end Archives

/-- The limit and the single notice hold for all output. The archives are prefixes that stop at
the notice if and only if the first piece that does not fit leaves no room for a later one. -/
theorem log_archives (replace : Bytes → Bytes)
    (hreplace : ∀ text, Utf8.Replaced text (replace text)) (chunks : List Chunk) :
    (drained replace chunks).stdout.length + (drained replace chunks).stderr.length ≤
      archiveLimit ∧
    ((drained replace chunks).records.filter (·.kind = "notice")).length ≤ 1 ∧
    (BoundedPrefixes replace chunks ↔ Exhausts chunks) := by
  have counted := counted_drained hreplace chunks
  refine ⟨?_, ?_, BoundedPrefixes.exhausts, fun exhausts => exhausts.bounded hreplace⟩
  · rw [← counted.bytes]
    exact counted.limit
  · rw [counted.notices]
    split <;> omega

/-- A full read of `drain`. -/
def fullChunk : Chunk where
  stream := .stdout
  bytes := List.replicate drainBuffer 65
  nonempty := List.ne_nil_of_length_pos (by rw [List.length_replicate]; decide)
  bounded := le_of_eq List.length_replicate

def byteChunk : Chunk := ⟨.stderr, [66], by decide, by decide⟩

theorem fullChunk_length : fullChunk.bytes.length = 16384 := List.length_replicate

theorem total_full (n : Nat) : total (List.replicate n fullChunk) = n * 16384 := by
  rw [total, List.map_replicate, List.sum_replicate_nat, fullChunk_length]

/-- Output of exactly the limit, and a byte more. -/
theorem log_archives_stopped :
    BoundedPrefixes sampleReplace (List.replicate 6400 fullChunk ++ [byteChunk]) := by
  refine (log_archives sampleReplace sampleReplace_replaced _).2.2.mpr ?_
  intro before c after same _ overflows d hd
  have sizes := congrArg total same
  rw [total_append, total_full, total_singleton, total_append, total_cons] at sizes
  have one : byteChunk.bytes.length = 1 := rfl
  have last : 0 < total after := by
    obtain ⟨mid, rest, rfl⟩ := List.append_of_mem hd
    rw [total_append, total_cons]
    have := chunk_positive d
    omega
  rw [archiveLimit] at overflows
  omega

/-- The last byte still fits when a full read did not. -/
def resumedChunks : List Chunk :=
  (byteChunk :: List.replicate 6399 fullChunk) ++ fullChunk :: [byteChunk]

theorem log_archives_resumed : ¬BoundedPrefixes sampleReplace resumedChunks := by
  intro bounded
  have one : byteChunk.bytes.length = 1 := rfl
  have size : total (byteChunk :: List.replicate 6399 fullChunk) = 104841217 := by
    rw [total_cons, total_full, one]
  have room := bounded.exhausts _ _ _ rfl (by rw [size, archiveLimit]; omega)
    (by rw [size, fullChunk_length, archiveLimit]; omega) byteChunk List.mem_cons_self
  rw [size, one, archiveLimit] at room
  omega

end Output

end Runyard
