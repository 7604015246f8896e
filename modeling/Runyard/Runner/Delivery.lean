import Runyard.Ledger.Records
import Runyard.Run.Lifetime
import Runyard.Runner.Reporter
import Mathlib.Data.Nat.Digits.Defs

/-!
# End-to-end delivery of telemetry

The server's records are at all times a prefix of the numbered ones. The sender removes from
its queue only what is acknowledged, so every batch it sends continues what the server
holds, whenever and however often it is executed.
-/

namespace Runyard

/-! ## Records -/

/-- The server accepts the record under any positive number. -/
structure Telemetry.Reportable (r : Telemetry) : Prop where
  kind : ["stdout", "stderr", "metric", "notice"].contains r.kind
  text : r.text.length ≤ 65536
  nonzero : ∀ b ∈ r.text, b ≠ 0
  name : r.name.utf8ByteSize ≤ 200
  metric : r.kind = "metric" →
    (r.name ≠ "" ∧ safeString r.name) ∧ r.value.isFinite ∧ 0 ≤ r.step

namespace Telemetry

theorem Reportable.validate {r : Telemetry} (h : r.Reportable) (positive : 0 < r.sequence) :
    r.validate = .ok () := by
  have hnonzero : r.text.all (· ≠ 0) := by simpa using h.nonzero
  unfold Telemetry.validate
  simp only [Result.bind_ok, Result.require_ok, exists_and_left, exists_const]
  refine ⟨by simpa using positive, h.kind, by simpa [h.text] using h.nonzero, ?_⟩
  split
  · rename_i hmetric
    obtain ⟨⟨hname, hsafe⟩, hfinite, hstep⟩ := h.metric hmetric
    simp [Result.bind_ok, hname, h.name, hsafe, hfinite, hstep]
  · rfl

theorem reportable_metric {name : String} {step : Int} {value : Double}
    (h : (ReporterSetup.metricRecord name step value).validate = .ok ()) :
    (ReporterSetup.metricRecord name step value).Reportable := by
  unfold Telemetry.validate at h
  simp only [Result.bind_ok, Result.require_ok, exists_and_left, exists_const] at h
  obtain ⟨_, hkind, htext, h⟩ := h
  simp only [ReporterSetup.metricRecord, if_true, Result.bind_ok, Result.require_ok,
    exists_and_left, exists_const, Bool.and_eq_true] at h
  obtain ⟨⟨⟨hname, hsize⟩, hsafe⟩, hfinite, hstep⟩ := h
  exact ⟨hkind, by simp [ReporterSetup.metricRecord], by simp [ReporterSetup.metricRecord],
    of_decide_eq_true hsize,
    fun _ => ⟨⟨of_decide_eq_true hname, hsafe⟩, hfinite, of_decide_eq_true hstep⟩⟩

theorem Reportable.size_le {r : Telemetry} (h : r.Reportable) : r.size ≤ 256 * 1024 := by
  have htext := h.text
  have hname := h.name
  unfold Telemetry.size
  omega

theorem Reportable.numbered {r : Telemetry} (h : r.Reportable) (sequence timestamp : Int) :
    Reportable { r with sequence := sequence, timestampMs := timestamp } :=
  ⟨h.kind, h.text, h.nonzero, h.name, h.metric⟩

end Telemetry

/-! ## Logs -/

section Logs

variable {clean : Bytes}

theorem cut_le (clean : Bytes) (last : Nat) : cut clean last ≤ last := by
  induction last with
  | zero => exact le_refl 0
  | succ last ih =>
    rw [cut]
    split
    · omega
    · exact le_refl _

/-- The loop stops at a start of a character, at the end, or at 0. -/
theorem cut_boundary (clean : Bytes) (last : Nat) :
    cut clean last = 0 ∨ ¬ (clean[cut clean last]?).any Utf8.continuation := by
  induction last with
  | zero => exact .inl rfl
  | succ last ih =>
    rw [cut]
    split
    · exact ih
    · rename_i hstop
      exact .inr hstop

/-- It does not pass a start of a character. -/
theorem le_cut {last i : Nat} (hi : i ≤ last)
    (boundary : ¬ (clean[i]?).any Utf8.continuation) : i ≤ cut clean last := by
  induction last with
  | zero => omega
  | succ last ih =>
    rw [cut]
    split
    · rename_i hpass
      have hne : i ≠ last + 1 := by
        rintro rfl
        exact boundary hpass
      exact ih (by omega)
    · exact hi

/-- In UTF-8 text the loop of `log` advances and leaves UTF-8 text. -/
theorem cut_shaped (shaped : Utf8.Shaped clean) (nonempty : clean ≠ []) :
    0 < cut clean (min clean.length 16000) ∧
      Utf8.Shaped (clean.drop (cut clean (min clean.length 16000))) := by
  have hlength : 0 < clean.length := List.length_pos_iff.mpr nonempty
  have positive : 0 < cut clean (min clean.length 16000) := by
    by_cases hlong : clean.length ≤ 16000
    · have stop : ¬ (clean[clean.length]?).any Utf8.continuation := by simp
      have hle : clean.length ≤ cut clean (min clean.length 16000) :=
        le_cut (le_min (le_refl _) hlong) stop
      omega
    · obtain ⟨i, hpos, hi, boundary⟩ := shaped.boundary
      have hle : i ≤ cut clean (min clean.length 16000) := le_cut (by omega) boundary
      omega
  refine ⟨positive, ?_⟩
  rcases cut_boundary clean (min clean.length 16000) with hzero | boundary
  · omega
  · exact shaped.drop boundary

theorem pieces_succ (fuel : Nat) (nonempty : clean ≠ []) : pieces (fuel + 1) clean =
    clean.take (cut clean (min clean.length 16000)) ::
      pieces fuel (clean.drop (cut clean (min clean.length 16000))) := by
  cases clean with
  | nil => exact absurd rfl nonempty
  | cons first rest => rfl

/-- The pieces of a log are the whole text. -/
theorem pieces_flatten {fuel : Nat} (shaped : Utf8.Shaped clean) (enough : clean.length ≤ fuel) :
    (pieces fuel clean).flatten = clean := by
  induction fuel generalizing clean with
  | zero =>
    have hnil : clean = [] := List.eq_nil_of_length_eq_zero (by omega)
    rw [hnil]
    rfl
  | succ fuel ih =>
    by_cases hnil : clean = []
    · rw [hnil]
      rfl
    · obtain ⟨positive, hshaped⟩ := cut_shaped shaped hnil
      rw [pieces_succ fuel hnil, List.flatten_cons, ih hshaped, List.take_append_drop]
      rw [List.length_drop]
      omega

theorem mem_pieces {fuel : Nat} {piece : Bytes} (h : piece ∈ pieces fuel clean) :
    piece.length ≤ 16000 ∧ ∀ b ∈ piece, b ∈ clean := by
  induction fuel generalizing clean with
  | zero => cases h
  | succ fuel ih =>
    by_cases hnil : clean = []
    · rw [hnil] at h
      cases h
    · rw [pieces_succ fuel hnil] at h
      rcases List.mem_cons.mp h with rfl | h
      · have hle := cut_le clean (min clean.length 16000)
        refine ⟨?_, fun b hb => List.mem_of_mem_take hb⟩
        rw [List.length_take]
        omega
      · obtain ⟨hlength, hmem⟩ := ih h
        exact ⟨hlength, fun b hb => List.mem_of_mem_drop (hmem b hb)⟩

/-- A character of ASCII that is not NUL. -/
def Ascii (c : Char) : Prop := 0 < c.toNat ∧ c.toNat < 128

instance (c : Char) : Decidable (Ascii c) :=
  inferInstanceAs (Decidable (0 < c.toNat ∧ c.toNat < 128))

theorem ascii_of_all {text : String} (h : text.toList.all fun c => Ascii c) :
    ∀ c ∈ text.toList, Ascii c := by
  simpa using h

theorem utf8_ascii {text : String} (h : ∀ c ∈ text.toList, Ascii c) :
    utf8 text = text.toList.map fun c => UInt8.ofNat c.toNat := by
  unfold utf8
  generalize text.toList = chars at h
  induction chars with
  | nil => rfl
  | cons c chars ih =>
    have hle : c.val.toNat ≤ 0x7f := by
      have hlt := (h c List.mem_cons_self).2
      have hval : c.toNat = c.val.toNat := rfl
      omega
    have hencode : String.utf8EncodeChar c = [UInt8.ofNat c.toNat] := by
      unfold String.utf8EncodeChar
      rw [if_pos hle]
      rfl
    have htail := ih fun d hd => h d (List.mem_cons_of_mem c hd)
    rw [List.flatMap_cons, hencode, htail]
    rfl

theorem utf8_nonzero {text : String} (h : ∀ c ∈ text.toList, Ascii c) :
    ∀ b ∈ utf8 text, b ≠ 0 := by
  intro b hb
  rw [utf8_ascii h] at hb
  obtain ⟨c, hc, rfl⟩ := List.mem_map.mp hb
  obtain ⟨hpos, hlt⟩ := h c hc
  intro hzero
  have hnat := congrArg UInt8.toNat hzero
  simp at hnat
  omega

theorem repr_ascii (n : Nat) : ∀ c ∈ (toString n).toList, Ascii c := by
  intro c hc
  have hmem : c ∈ Nat.toDigits 10 n := by
    rw [← Nat.toList_repr]
    exact hc
  have hdigit := Nat.isDigit_of_mem_toDigits (by decide) (by decide) hmem
  simp only [Char.isDigit, Bool.and_eq_true, decide_eq_true_eq, ge_iff_le,
    UInt32.le_iff_toNat_le] at hdigit
  obtain ⟨hlow, hhigh⟩ := hdigit
  have hval : c.toNat = c.val.toNat := rfl
  have hzero : '0'.val.toNat = 48 := rfl
  have hnine : '9'.val.toNat = 57 := rfl
  unfold Ascii
  omega

theorem notice_ascii (dropped : Nat) : ∀ c ∈ ("Telemetry buffer overflow: dropped " ++
    toString dropped ++ " records").toList, Ascii c := by
  have before : ∀ c ∈ "Telemetry buffer overflow: dropped ".toList, Ascii c :=
    ascii_of_all (by decide)
  have after : ∀ c ∈ " records".toList, Ascii c := ascii_of_all (by decide)
  intro c hc
  rw [String.toList_append, String.toList_append] at hc
  rcases List.mem_append.mp hc with hc | hc
  · rcases List.mem_append.mp hc with hc | hc
    · exact before c hc
    · exact repr_ascii dropped c hc
  · exact after c hc

theorem notice_length {dropped : Nat} (h : dropped < 2 ^ 64) :
    (Reporter.notice dropped).text.length ≤ 100 := by
  have digits : (toString dropped).length ≤ 20 :=
    Nat.repr_length dropped 20 (by decide) (lt_of_lt_of_le h (by decide))
  unfold Reporter.notice
  dsimp only
  rw [utf8_ascii (notice_ascii dropped), List.length_map, String.toList_append,
    String.toList_append]
  simp only [List.length_append, String.length_toList]
  have hfirst : "Telemetry buffer overflow: dropped ".length = 35 := by decide
  have hlast : " records".length = 8 := by decide
  omega

/-- The overflow notice is a valid record. -/
theorem reportable_notice {dropped : Nat} (h : dropped < 2 ^ 64) :
    (Reporter.notice dropped).Reportable := by
  constructor
  · rfl
  · exact le_trans (notice_length h) (by decide)
  · exact utf8_nonzero (notice_ascii dropped)
  · exact Nat.zero_le 200
  · intro hmetric
    simp [Reporter.notice] at hmetric

theorem readable_nonzero (replace : Bytes → Bytes) (text : Bytes) :
    ∀ b ∈ readable replace text, b ≠ 0 := by
  intro b hb
  obtain ⟨ch, _, hmem⟩ := List.mem_flatMap.mp hb
  split at hmem
  · exact utf8_nonzero (ascii_of_all (by decide)) b hmem
  · rename_i hch
    rw [List.mem_singleton.mp hmem]
    exact hch

theorem readable_shaped {replace : Bytes → Bytes} {text : Bytes}
    (shaped : Utf8.Shaped (replace text)) : Utf8.Shaped (readable replace text) := by
  unfold readable
  generalize replace text = raw at shaped
  induction shaped with
  | nil => exact .nil
  | @group first rest tail lead continued short _ ih =>
    have hrest : (rest.flatMap fun ch => if ch = 0 then utf8 "\\0" else [ch]) = rest := by
      have hsame : ∀ ch ∈ rest, (if ch = 0 then utf8 "\\0" else [ch]) = [ch] := by
        intro ch hch
        refine if_neg ?_
        rintro rfl
        exact absurd (continued 0 hch) (by decide)
      rw [List.flatMap_congr hsame]
      exact List.flatMap_singleton' rest
    rw [List.flatMap_cons, List.flatMap_append, hrest]
    split
    · have hescape : utf8 "\\0" = [92, 48] := by decide
      rw [hescape]
      have backslash : Utf8.Shaped [92] := Utf8.shaped_one (by decide)
      have zero : ¬ Utf8.continuation 48 := by decide
      have grouped := Utf8.Shaped.group zero continued short ih
      exact backslash.append grouped
    · have grouped := Utf8.Shaped.group lead continued short ih
      exact grouped

/-- `log` enqueues the whole text. -/
theorem logRecords_flatten {replace : Bytes → Bytes} {text : Bytes}
    (shaped : Utf8.Shaped (replace text)) (kind : LogKind) :
    (logRecords replace kind text).flatMap (·.text) = readable replace text := by
  simp only [logRecords, List.flatMap_map]
  rw [List.flatMap_id']
  exact pieces_flatten (readable_shaped shaped) (le_refl _)

theorem LogKind.known (kind : LogKind) :
    ["stdout", "stderr", "metric", "notice"].contains kind.text ∧ kind.text ≠ "metric" := by
  cases kind <;> decide

theorem reportable_log {replace : Bytes → Bytes} {kind : LogKind} {text : Bytes} :
    ∀ r ∈ logRecords replace kind text, r.Reportable := by
  intro r hr
  obtain ⟨piece, hpiece, rfl⟩ := List.mem_map.mp hr
  obtain ⟨hlength, hmem⟩ := mem_pieces hpiece
  constructor
  · exact kind.known.1
  · dsimp only
    omega
  · exact fun b hb => readable_nonzero replace text b (hmem b hb)
  · exact Nat.zero_le 200
  · exact fun hmetric => absurd hmetric kind.known.2

end Logs

/-! ## Numbers -/

section Numbers

variable {numbered before batch after : List Telemetry} {r : Telemetry}

theorem sequence_of_split (numbers : numbered.map (·.sequence) = upTo numbered.length)
    (split : numbered = before ++ r :: after) : r.sequence = before.length + 1 := by
  have hget := congrArg (fun l : List Int => l[before.length]?) numbers
  rw [split] at hget
  simpa [upTo] using hget

theorem numbers_push (numbers : numbered.map (·.sequence) = upTo numbered.length)
    (hr : r.sequence = numbered.length + 1) :
    (numbered ++ [r]).map (·.sequence) = upTo (numbered ++ [r]).length := by
  simp [numbers, upTo_succ, hr]

/-- Inserting a batch that continues what is held extends the held prefix. -/
theorem insertRecords_delivers {id : String} {db db' : Db} {next : Int}
    (numbers : numbered.map (·.sequence) = upTo numbered.length)
    (split : numbered = before ++ batch ++ after) (held : db.recordsOf id <+: numbered)
    (reached : before.length ≤ (db.recordsOf id).length)
    (h : insertRecords id batch (db.recordsOf id).length db = .ok (db', next)) :
    db'.recordsOf id <+: numbered ∧ next = (db'.recordsOf id).length ∧
      (db.recordsOf id).length ≤ (db'.recordsOf id).length := by
  induction batch generalizing before db with
  | nil =>
    cases h
    exact ⟨held, rfl, le_refl _⟩
  | cons r rest ih =>
    have hsplit : numbered = before ++ r :: (rest ++ after) := by simpa using split
    have hsequence := sequence_of_split numbers hsplit
    have split' : numbered = (before ++ [r]) ++ rest ++ after := by simpa using split
    rw [insertRecords] at h
    split at h
    · refine ih split' held ?_ h
      rw [List.length_append, List.length_singleton]
      omega
    split at h
    · omega
    · -- The record is the next one: what the server holds is exactly `before`.
      have hlength : (db.recordsOf id).length = before.length := by omega
      have prefix_ : before <+: numbered := ⟨r :: rest ++ after, by simpa using split.symm⟩
      have same : db.recordsOf id = before :=
        (List.prefix_of_prefix_length_le held prefix_ (by omega)).eq_of_length hlength
      obtain ⟨db₁, hinsert, hrest⟩ := Result.bind_ok.mp h
      have inserted : db₁.recordsOf id = db.recordsOf id ++ [r] := by
        unfold Db.insertTelemetry at hinsert
        split at hinsert
        · cases hinsert
        · cases hinsert
          simp [Db.recordsOf]
      have hnext : r.sequence = ((db₁.recordsOf id).length : Int) := by
        rw [inserted, List.length_append, List.length_singleton, hsequence, hlength]
        push_cast
        rfl
      rw [hnext] at hrest
      have held' : db₁.recordsOf id <+: numbered := by
        refine ⟨rest ++ after, ?_⟩
        rw [inserted, same, split', List.append_assoc _ rest]
      obtain ⟨hheld, hack, hle⟩ := ih split' held' (by simp [inserted, same]) hrest
      refine ⟨hheld, hack, le_trans ?_ hle⟩
      rw [inserted, List.length_append]
      omega

/-- What executing the report of a batch does, when the attempt's row counts the records. -/
theorem report_delivers {now generation : Int} {id caller : String} {db db' : Db} {ack : Int}
    (wf : db.toJournal.WellFormed) (numbers : numbered.map (·.sequence) = upTo numbered.length)
    (split : numbered = before ++ batch ++ after) (held : db.recordsOf id <+: numbered)
    (reached : before.length ≤ (db.recordsOf id).length)
    (row : ∀ a ∈ db.attempts, a.id = id → a.ackSequence = (db.recordsOf id).length)
    (h : report now id generation caller batch db = .ok (db', ack)) :
    db'.recordsOf id <+: numbered ∧ ack = (db'.recordsOf id).length ∧
      (db.recordsOf id).length ≤ (db'.recordsOf id).length ∧
      (∀ a ∈ db'.attempts, a.id = id → a.ackSequence = (db'.recordsOf id).length) ∧
      ∃ a ∈ db'.attempts, a.id = id := by
  simp only [report, Result.bind_ok] at h
  obtain ⟨_, _, _, _, x, howned, ⟨db₁, next⟩, hinsert, hreturn⟩ := h
  obtain ⟨locked, _, _, _⟩ := owned_ok wf howned
  obtain ⟨hx, _⟩ := Table.lookup_mem locked.attempt
  simp only [Result.pure_ok, Prod.mk.injEq] at hreturn
  obtain ⟨rfl, rfl⟩ := hreturn
  rw [row x.attempt hx locked.same] at hinsert
  obtain ⟨hheld, hnext, hle⟩ := insertRecords_delivers numbers split held reached hinsert
  have same : db₁.toLedger = db.toLedger := insertRecords_ledger hinsert
  have attempts : db₁.attempts = db.attempts := congrArg (·.attempts) same
  refine ⟨hheld, hnext, hle, ?_, ?_⟩
  · intro a' ha' hid
    obtain ⟨a, _, rfl⟩ := Table.mem_update.mp ha'
    by_cases ha : a.id = id
    · simpa [ha, Db.updateAttempt, Db.recordsOf] using hnext
    · simp [ha] at hid
  · refine ⟨x.attempt.acknowledge next, ?_, locked.same⟩
    refine Table.mem_update_of_mem _ ?_ (by simpa using locked.same)
    rw [attempts]
    exact hx

/-- Popping acknowledged records keeps the queue a suffix that starts no later than `n`. -/
theorem popAcknowledged_queue (ack : Int) {popped queue : List Telemetry} {n : Nat} (bytes : Nat)
    (numbers : numbered.map (·.sequence) = upTo numbered.length)
    (split : numbered = popped ++ queue) (hpopped : popped.length ≤ n) (hack : ack ≤ n) :
    ∃ popped', numbered = popped' ++ (Reporter.popAcknowledged ack queue bytes).1 ∧
      popped'.length ≤ n := by
  induction queue generalizing popped bytes with
  | nil => exact ⟨popped, split, hpopped⟩
  | cons r rest ih =>
    have hsequence := sequence_of_split numbers split
    rw [Reporter.popAcknowledged]
    split
    · have split' : numbered = (popped ++ [r]) ++ rest := by simpa using split
      refine ih _ split' ?_
      rw [List.length_append, List.length_singleton]
      omega
    · exact ⟨popped, split, hpopped⟩

/-- The byte count stays that of the queue. -/
theorem popAcknowledged_bytes {queue : List Telemetry} (ack : Int) {bytes : Nat}
    (h : bytes = (queue.map (·.size)).sum) :
    (Reporter.popAcknowledged ack queue bytes).2 =
      ((Reporter.popAcknowledged ack queue bytes).1.map (·.size)).sum := by
  induction queue generalizing bytes with
  | nil => exact h
  | cons r rest ih =>
    rw [Reporter.popAcknowledged]
    split
    · refine ih ?_
      rw [List.map_cons, List.sum_cons] at h
      omega
    · exact h

/-- A batch is a prefix of the queue of at most 128 records. -/
theorem fill_prefix (count bytes : Nat) (hcount : count ≤ 128) (queue : List Telemetry) :
    Reporter.fill count bytes queue <+: queue ∧
      (Reporter.fill count bytes queue).length ≤ 128 - count := by
  induction queue generalizing count bytes with
  | nil => exact ⟨List.prefix_rfl, Nat.zero_le _⟩
  | cons r rest ih =>
    rw [Reporter.fill]
    split
    · exact ⟨List.nil_prefix, Nat.zero_le _⟩
    · rename_i hroom
      simp only [Bool.or_eq_true, decide_eq_true_eq, not_or, not_le, not_lt] at hroom
      obtain ⟨hstart, hlength⟩ := ih (count + 1) (bytes + r.size) (by omega)
      refine ⟨(List.prefix_cons_inj r).mpr hstart, ?_⟩
      rw [List.length_cons]
      omega

theorem fill_nonempty {queue : List Telemetry} (nonempty : queue ≠ [])
    (reportable : ∀ r ∈ queue, r.Reportable) : Reporter.fill 0 0 queue ≠ [] := by
  cases queue with
  | nil => exact absurd rfl nonempty
  | cons r rest =>
    have hsize := (reportable r List.mem_cons_self).size_le
    have room : (decide (128 ≤ 0) || decide (256 * 1024 < 0 + r.size)) = false := by
      simp
      omega
    rw [Reporter.fill, room]
    simp

end Numbers

/-! ## Completion -/

def unacknowledged : Fault := .error .conflict "telemetry must be acknowledged before completion"

theorem event_error {now : Int} {id : String} {kind : EventKind} {detail : String} {db : Db}
    {f : Fault} (h : event now id kind detail db = .error f) : f ≠ unacknowledged := by
  rintro rfl
  unfold event at h
  dsimp only at h
  split at h
  · cases h
  · unfold Db.insertEvent at h
    split at h <;> cases h

theorem owned_error {now generation : Int} {id caller : String} {db : Db} {f : Fault}
    (h : owned now id generation caller db = .error f) : f ≠ unacknowledged := by
  rintro rfl
  rcases Result.bind_error.mp h with hlock | ⟨x, _, h⟩
  · unfold lockAttempt at hlock
    split at hlock
    · simp [fault, unacknowledged] at hlock
    · split at hlock <;> cases hlock
  · rcases Result.bind_error.mp h with hguard | ⟨_, _, h⟩
    · have other := (Result.throwIf_error.mp hguard).2
      simp [unacknowledged] at other
    · cases h

/-- `finish` asks for the telemetry only of an owner whose count is another one. -/
theorem finish_unacknowledged {timing : Timing} {now generation exitCode finalSequence : Int}
    {id caller reason : String} {db : Db}
    (h : finish timing now id generation caller exitCode reason finalSequence db =
      .error unacknowledged) :
    ∃ x, owned now id generation caller db = .ok x ∧ x.attempt.ackSequence ≠ finalSequence := by
  unfold finish at h
  rcases Result.bind_error.mp h with hlock | ⟨x, _, h⟩
  · have notOwned : owned now id generation caller db = .error unacknowledged := by
      simp [owned, hlock, bind, Except.bind]
    exact absurd rfl (owned_error notOwned)
  split at h
  · cases h
  rcases Result.bind_error.mp h with howned | ⟨x, howned, h⟩
  · exact absurd rfl (owned_error howned)
  refine ⟨x, howned, ?_⟩
  rcases Result.bind_error.mp h with hcount | ⟨_, hcount, h⟩
  · simpa using (Result.throwIf_error.mp hcount).1
  rcases Result.bind_error.mp h with hphase | ⟨_, _, h⟩
  · have other := (Result.throwIf_error.mp hphase).2
    simp [unacknowledged] at other
  split at h
  · exact absurd rfl (event_error h)
  · unfold fail at h
    exact absurd rfl (event_error h)

namespace ReporterSetup

variable {c : ReporterSetup} {s s' : State}

/-- What the server holds of the attempt's telemetry. -/
def held (c : ReporterSetup) (s : State) : List Telemetry := s.store.db.recordsOf c.id

structure Delivered (c : ReporterSetup) (s : State) : Prop where
  reachable : c.store.system.Reachable s.store
  numbers : s.reporter.numbered.map (·.sequence) = upTo s.reporter.numbered.length
  next : s.reporter.next = s.reporter.numbered.length + 1
  reportable : ∀ r ∈ s.reporter.numbered, r.Reportable
  pending : ∀ r ∈ s.pending, r.Reportable
  dropped : s.reporter.dropped < 2 ^ 64
  bytes : s.reporter.bytes = (s.reporter.queue.map (·.size)).sum
  held : c.held s <+: s.reporter.numbered
  row : ∀ a ∈ s.store.db.attempts, a.id = c.id → a.ackSequence = (c.held s).length
  absent : (∀ a ∈ s.store.db.attempts, a.id ≠ c.id) → c.held s = []
  queue : ∃ popped, s.reporter.numbered = popped ++ s.reporter.queue ∧
    popped.length ≤ (c.held s).length
  sent : ∀ batch ∈ s.sent, batch ≠ [] ∧ batch.length ≤ 128 ∧
    ∃ before after, s.reporter.numbered = before ++ batch ++ after ∧
      before.length ≤ (c.held s).length
  replies : ∀ reply ∈ s.replies, reply.2 ≤ (c.held s).length
  busy : ∀ number, s.sender = .sending number → s.reporter.queue ≠ []

/-- A record gets its number. -/
theorem Delivered.push (delivered : c.Delivered s) {record : Telemetry} (timestamp : Int)
    (reportable : record.Reportable) :
    c.Delivered { s with reporter := s.reporter.push timestamp record } := by
  have hrecord := reportable.numbered s.reporter.next timestamp
  constructor
  · exact delivered.reachable
  · exact numbers_push delivered.numbers delivered.next
  · simp [Reporter.push, delivered.next]
  · intro r hr
    rcases List.mem_append.mp hr with hr | hr
    · exact delivered.reportable r hr
    · rw [List.mem_singleton.mp hr]
      exact hrecord
  · exact delivered.pending
  · exact delivered.dropped
  · simp [Reporter.push, delivered.bytes, Telemetry.size]
  · exact delivered.held.trans (List.prefix_append _ _)
  · exact delivered.row
  · exact delivered.absent
  · obtain ⟨popped, split, hpopped⟩ := delivered.queue
    refine ⟨popped, ?_, hpopped⟩
    simp [Reporter.push, split]
  · intro batch hbatch
    obtain ⟨hne, hlength, before, after, split, hbefore⟩ := delivered.sent batch hbatch
    refine ⟨hne, hlength, before,
      after ++ [{ record with sequence := s.reporter.next, timestampMs := timestamp }], ?_, hbefore⟩
    simp [Reporter.push, split]
  · exact delivered.replies
  · intro number hsending
    simp [Reporter.push]

theorem Delivered.enqueue (delivered : c.Delivered s) {record : Telemetry} {timestamp : Int}
    {reporter : Reporter} (reportable : record.Reportable)
    (h : s.reporter.enqueue timestamp record = some reporter) :
    c.Delivered { s with reporter := reporter } := by
  unfold Reporter.enqueue at h
  split at h
  · cases h
  split at h
  · cases h
    exact { delivered with dropped := Nat.mod_lt _ (by decide) }
  · cases h
    exact delivered.push timestamp reportable

/-- The sender handles an acknowledgment that the server gave. -/
theorem Delivered.acknowledge (delivered : c.Delivered s) {timestamp ack : Int}
    (hack : ack ≤ (c.held s).length) :
    c.Delivered
      { s with reporter := s.reporter.acknowledge timestamp ack, sender := .waiting } := by
  obtain ⟨popped, split, hpopped⟩ := delivered.queue
  have popped' := popAcknowledged_queue _ s.reporter.bytes delivered.numbers split hpopped hack
  have counted := popAcknowledged_bytes ack delivered.bytes
  have rest : c.Delivered { s with
      reporter := { s.reporter with
        queue := (Reporter.popAcknowledged ack s.reporter.queue s.reporter.bytes).1
        bytes := (Reporter.popAcknowledged ack s.reporter.queue s.reporter.bytes).2 }
      sender := .waiting } :=
    { delivered with
      bytes := counted
      queue := popped'
      busy := fun _ hsending => by cases hsending }
  simp only [Reporter.acknowledge]
  split
  · have pushed := rest.push timestamp (reportable_notice delivered.dropped)
    exact { pushed with dropped := by simp }
  · exact rest

/-- The database changed, and the server holds what it held or more of the numbered records. -/
theorem Delivered.store (delivered : c.Delivered s) {store : PostgresStore.State}
    (reachable : c.store.system.Reachable store)
    (held : store.db.recordsOf c.id <+: s.reporter.numbered)
    (grows : (c.held s).length ≤ (store.db.recordsOf c.id).length)
    (row : ∀ a ∈ store.db.attempts, a.id = c.id →
      a.ackSequence = (store.db.recordsOf c.id).length)
    (absent : (∀ a ∈ store.db.attempts, a.id ≠ c.id) → store.db.recordsOf c.id = []) :
    c.Delivered { s with store := store } := by
  constructor
  · exact reachable
  · exact delivered.numbers
  · exact delivered.next
  · exact delivered.reportable
  · exact delivered.pending
  · exact delivered.dropped
  · exact delivered.bytes
  · exact held
  · exact row
  · exact absent
  · obtain ⟨popped, split, hpopped⟩ := delivered.queue
    exact ⟨popped, split, le_trans hpopped grows⟩
  · intro batch hbatch
    obtain ⟨hne, hlength, before, after, split, hbefore⟩ := delivered.sent batch hbatch
    exact ⟨hne, hlength, before, after, split, le_trans hbefore grows⟩
  · intro reply hreply
    have hle := delivered.replies reply hreply
    have hgrows : ((c.held s).length : Int) ≤ (store.db.recordsOf c.id).length :=
      Int.ofNat_le.mpr grows
    exact le_trans hle hgrows
  · exact delivered.busy

/-- Another transaction leaves the attempt's telemetry as it is. -/
theorem Delivered.other (delivered : c.Delivered s) {now : Int} {op : Op}
    (hop : op.reports? ≠ some c.id) (hclock : s.store.clock ≤ now) :
    c.Delivered (c.execute now op s) := by
  have wf := PostgresStore.reachable_wellFormed delivered.reachable
  have hs' := c.store.reachable_commit delivered.reachable op hclock
  have effect : Effect c.store now s.store.db.toLedger op _ := PostgresStore.commit_effect wf
  have same : (c.store.commit now op s.store.db).recordsOf c.id = c.held s := commit_recordsOf hop
  refine delivered.store hs' ?_ ?_ ?_ ?_
  · dsimp only
    rw [same]
    exact delivered.held
  · dsimp only
    rw [same]
  · intro a' ha' hid
    dsimp only
    rw [same]
    rcases effect.acknowledged_from hop ha' hid with ⟨a, ha, hsame, hack⟩ | ⟨hfresh, hack⟩
    · rw [hack]
      exact delivered.row a ha hsame
    · rw [hack, delivered.absent hfresh]
      rfl
  · intro hnone
    dsimp only
    rw [same]
    refine delivered.absent fun a ha hid => ?_
    have later : c.store.system.Later s.store ⟨c.store.commit now op s.store.db, now⟩ :=
      System.Leads.single (e := ⟨now, op⟩) trivial (if_pos hclock)
    obtain ⟨a', ha', evolved⟩ := attempt_later delivered.reachable later a ha
    exact hnone a' ha' (evolved.identity.id.trans hid)

/-- The server executes a batch that was sent, at whatever time. -/
theorem Delivered.execute (delivered : c.Delivered s) {now : Int} {number : Nat}
    {batch : List Telemetry} (hsent : s.sent[number]? = some batch) (hclock : s.store.clock ≤ now) :
    c.Delivered (c.execute now (c.reportOp batch) s) ∧
      ∀ ack, c.acknowledgment now batch s.store.db = some ack →
        ack = (c.held (c.execute now (c.reportOp batch) s)).length := by
  have hs' := c.store.reachable_commit delivered.reachable (c.reportOp batch) hclock
  unfold acknowledgment
  cases hreport : report now c.id c.generation c.instanceId batch s.store.db with
  | error e =>
    have hcommit : c.store.commit now (c.reportOp batch) s.store.db = s.store.db := by
      simp [PostgresStore.commit, PostgresStore.apply, reportOp, hreport, Except.map]
    rw [hcommit] at hs'
    have same : c.execute now (c.reportOp batch) s =
        { s with store := ⟨s.store.db, now⟩ } := by
      rw [ReporterSetup.execute, hcommit]
    rw [same]
    refine ⟨?_, fun ack hack => by cases hack⟩
    exact delivered.store hs' delivered.held (le_refl _) delivered.row delivered.absent
  | ok result =>
    obtain ⟨db', ack⟩ := result
    have hcommit : c.store.commit now (c.reportOp batch) s.store.db = db' := by
      simp [PostgresStore.commit, PostgresStore.apply, reportOp, hreport, Except.map]
    rw [hcommit] at hs'
    have same : c.execute now (c.reportOp batch) s = { s with store := ⟨db', now⟩ } := by
      rw [ReporterSetup.execute, hcommit]
    rw [same]
    have wf := (PostgresStore.reachable_wellFormed delivered.reachable).toWellFormed
    obtain ⟨_, _, before, after, split, hbefore⟩ :=
      delivered.sent batch (List.mem_of_getElem? hsent)
    obtain ⟨held, hack, hle, row, a, ha, hid⟩ := report_delivers wf delivered.numbers split
      delivered.held hbefore delivered.row hreport
    constructor
    · exact delivered.store hs' held hle row fun hnone => absurd hid (hnone a ha)
    · intro ack' hsame
      cases hsame
      exact hack

theorem delivered_init : c.Delivered c.system.init := by
  constructor
  · exact System.reachable_init
  · rfl
  · rfl
  · exact fun r hr => by cases hr
  · exact fun r hr => by cases hr
  · exact Nat.two_pow_pos 64
  · rfl
  · exact List.nil_prefix
  · exact fun a ha => by cases ha
  · exact fun _ => rfl
  · exact ⟨[], rfl, Nat.zero_le _⟩
  · exact fun batch hbatch => by cases hbatch
  · exact fun reply hreply => by cases hreply
  · exact fun number hsending => by cases hsending

/-- The sender takes the next batch from the front of the queue. -/
theorem Delivered.send (delivered : c.Delivered s) (nonempty : s.reporter.queue ≠ []) :
    c.Delivered { s with
      sender := .sending s.sent.length
      sent := s.sent ++ [Reporter.fill 0 0 s.reporter.queue] } := by
  obtain ⟨popped, split, hpopped⟩ := delivered.queue
  have reportable : ∀ r ∈ s.reporter.queue, r.Reportable := by
    intro r hr
    refine delivered.reportable r ?_
    rw [split]
    exact List.mem_append_right popped hr
  refine { delivered with sent := ?_, busy := fun _ _ => nonempty }
  intro batch hbatch
  rcases List.mem_append.mp hbatch with hbatch | hbatch
  · exact delivered.sent batch hbatch
  · rw [List.mem_singleton.mp hbatch]
    obtain ⟨⟨rest, hrest⟩, hlength⟩ := fill_prefix 0 0 (Nat.zero_le 128) s.reporter.queue
    refine ⟨fill_nonempty nonempty reportable, hlength, popped, rest, ?_, hpopped⟩
    rw [List.append_assoc, hrest]
    exact split

/-- What one event keeps. -/
theorem Delivered.step (delivered : c.Delivered s) {act : Act} (h : c.system.step s act = some s') :
    c.Delivered s' := by
  have hstep : c.step s act = some s' := h
  cases act with
  | other now op =>
    rw [ReporterSetup.step] at hstep
    split at hstep
    · cases hstep
    · rename_i hguard
      cases hstep
      simp only [Bool.or_eq_true, decide_eq_true_eq, not_or, not_lt] at hguard
      exact delivered.other hguard.1 hguard.2
  | log kind text =>
    rw [ReporterSetup.step] at hstep
    split at hstep
    · cases hstep
      exact { delivered with pending := reportable_log }
    · cases hstep
  | enqueue timestamp =>
    rw [ReporterSetup.step] at hstep
    split at hstep
    · cases hstep
    rename_i record rest hpending
    have hrecord : record.Reportable ∧ ∀ r ∈ rest, r.Reportable := by
      have hall := delivered.pending
      rw [hpending] at hall
      exact List.forall_mem_cons.mp hall
    split at hstep
    · rename_i reporter henqueue
      cases hstep
      have enqueued := delivered.enqueue hrecord.1 henqueue
      exact { enqueued with pending := hrecord.2 }
    · cases hstep
      exact { delivered with pending := fun r hr => by cases hr }
  | metric name step value timestamp =>
    rw [ReporterSetup.step] at hstep
    split at hstep
    swap
    · cases hstep
    dsimp only at hstep
    split at hstep
    · cases hstep
      exact delivered
    rename_i hvalid
    split at hstep
    · rename_i reporter henqueue
      cases hstep
      exact delivered.enqueue (Telemetry.reportable_metric hvalid) henqueue
    · cases hstep
      exact delivered
  | send =>
    rw [ReporterSetup.step] at hstep
    split at hstep
    · rename_i hguard
      cases hstep
      simp only [Bool.and_eq_true, decide_eq_true_eq] at hguard
      exact delivered.send hguard.2
    · cases hstep
  | execute now number =>
    rw [ReporterSetup.step] at hstep
    split at hstep
    · cases hstep
    rename_i batch hsent
    split at hstep
    · cases hstep
    rename_i hclock
    cases hstep
    obtain ⟨executed, hreply⟩ := delivered.execute hsent (not_lt.mp hclock)
    refine { executed with replies := ?_ }
    intro reply hmem
    split at hmem
    · rename_i ack hack
      rcases List.mem_cons.mp hmem with rfl | hmem
      · exact le_of_eq (hreply ack hack)
      · exact executed.replies reply hmem
    · exact executed.replies reply hmem
  | reply timestamp ack =>
    rw [ReporterSetup.step] at hstep
    split at hstep
    swap
    · cases hstep
    rename_i number hsending
    split at hstep
    · rename_i hreplied
      cases hstep
      have hack := delivered.replies (number, ack) (List.contains_iff_mem.mp hreplied)
      exact delivered.acknowledge hack
    · cases hstep
  | unavailable =>
    rw [ReporterSetup.step] at hstep
    split at hstep
    · cases hstep
      exact { delivered with busy := fun _ hsending => by cases hsending }
    · cases hstep
  | refused failure =>
    rw [ReporterSetup.step] at hstep
    split at hstep
    · cases hstep
      exact { delivered with busy := fun _ hsending => by cases hsending }
    · cases hstep
  | wake =>
    rw [ReporterSetup.step] at hstep
    split at hstep
    · cases hstep
      exact { delivered with busy := fun _ hsending => by cases hsending }
    · cases hstep
  | stop =>
    rw [ReporterSetup.step] at hstep
    split at hstep
    · cases hstep
    · cases hstep
      exact { delivered with busy := fun _ hsending => by cases hsending }

theorem delivered_reachable (hs : c.system.Reachable s) : c.Delivered s :=
  hs.invariant delivered_init fun _ _ _ delivered h => delivered.step h

/-- After `flush` returned, and while nothing more is logged, nothing changes any more. -/
theorem quiet_run (hs : c.system.Reachable s) (hflushed : s.reporter.queue = [])
    (run : c.system.Leads (fun _ a => quiet a) s s') : s'.reporter = s.reporter := by
  have kept := run.stable hs (P := fun s' => s'.reporter = s.reporter) rfl ?_
  · exact kept
  intro s₁ act s₂ hs₁ same allowed h
  have delivered := delivered_reachable hs₁
  have hstep : c.step s₁ act = some s₂ := h
  have empty : s₁.reporter.queue = [] := by
    rw [same]
    exact hflushed
  have idle : ∀ number, s₁.sender ≠ .sending number := fun number hsending =>
    delivered.busy number hsending empty
  cases act with
  | log | enqueue | metric => cases allowed
  | other now op =>
    rw [ReporterSetup.step] at hstep
    split at hstep
    · cases hstep
    · cases hstep
      exact same
  | send => simp [ReporterSetup.step, empty] at hstep
  | execute now number =>
    rw [ReporterSetup.step] at hstep
    split at hstep
    · cases hstep
    split at hstep
    · cases hstep
    · cases hstep
      exact same
  | reply | unavailable | refused =>
    rw [ReporterSetup.step] at hstep
    split at hstep
    · rename_i number hsending
      exact absurd hsending (idle number)
    · cases hstep
  | wake =>
    rw [ReporterSetup.step] at hstep
    split at hstep
    · cases hstep
      exact same
    · cases hstep
  | stop =>
    rw [ReporterSetup.step] at hstep
    split at hstep
    · cases hstep
    · cases hstep
      exact same

theorem flush_ok {r : Reporter} {v : Int} (h : r.flush = .ok v) :
    r.queue = [] ∧ v = r.next - 1 := by
  unfold Reporter.flush at h
  split at h
  · cases h
  · rename_i hguard
    split at h
    · cases h
    · rename_i hfailure
      cases h
      simpa [hfailure] using hguard

/-- With nothing queued the server holds every numbered record. -/
theorem Delivered.all_held (delivered : c.Delivered s) (empty : s.reporter.queue = []) :
    c.held s = s.reporter.numbered := by
  obtain ⟨popped, split, hpopped⟩ := delivered.queue
  refine delivered.held.eq_of_length_le ?_
  rw [split, empty, List.append_nil]
  exact hpopped

/-- Telemetry is neither lost nor duplicated between the reporter and the server. -/
theorem telemetry_delivery (c : ReporterSetup) {s : State} (hs : c.system.Reachable s) :
    -- The server holds the first records of those numbered 1, 2, ... and the rest is queued.
    (s.reporter.numbered.map (·.sequence) = upTo s.reporter.numbered.length ∧
      c.held s = s.reporter.numbered.take (c.held s).length ∧
      ∀ r ∈ s.reporter.numbered, (c.held s).length < r.sequence → r ∈ s.reporter.queue) ∧
    -- The server accepts every batch that was built.
    (∀ batch ∈ s.sent, batch ≠ [] ∧ batch.length ≤ 256 ∧
      ∀ r ∈ batch, r.validate = .ok ()) ∧
    -- When `flush` returned, the server holds all of it, now and until more is logged.
    (∀ v, s.reporter.flush = .ok v → v = s.reporter.numbered.length ∧
      ∀ s', c.system.Leads (fun _ a => quiet a) s s' →
        s'.reporter = s.reporter ∧ c.held s' = s.reporter.numbered ∧
        ∀ now generation caller exitCode reason,
          finish c.store.timing now c.id generation caller exitCode reason v s'.store.db ≠
            .error unacknowledged) := by
  have delivered := delivered_reachable hs
  obtain ⟨popped, split, hpopped⟩ := delivered.queue
  refine ⟨⟨delivered.numbers, List.prefix_iff_eq_take.mp delivered.held, ?_⟩, ?_, ?_⟩
  · intro r hr habove
    obtain ⟨before, after, hsplit⟩ := List.append_of_mem hr
    have hsequence := sequence_of_split delivered.numbers hsplit
    have hlength : popped.length ≤ before.length := by omega
    rw [split] at hsplit
    rw [split] at hr
    rcases List.append_eq_append_iff.mp hsplit with ⟨middle, _, hqueue⟩ | ⟨middle, hpop, hqueue⟩
    · rw [hqueue]
      exact List.mem_append_right _ List.mem_cons_self
    · have hmiddle : middle = [] := by
        have hcount := congrArg List.length hpop
        rw [List.length_append] at hcount
        exact List.eq_nil_of_length_eq_zero (by omega)
      rw [hmiddle, List.nil_append] at hqueue
      rw [← hqueue]
      exact List.mem_cons_self
  · intro batch hbatch
    obtain ⟨hne, hlength, before, after, hsplit, _⟩ := delivered.sent batch hbatch
    refine ⟨hne, le_trans hlength (by omega), fun r hr => ?_⟩
    have hmem : r ∈ s.reporter.numbered := by
      rw [hsplit]
      exact List.mem_append_left _ (List.mem_append_right _ hr)
    obtain ⟨first, last, hat⟩ := List.append_of_mem hmem
    have hsequence := sequence_of_split delivered.numbers hat
    exact (delivered.reportable r hmem).validate (by omega)
  · intro v hflush
    obtain ⟨empty, hv⟩ := flush_ok hflush
    have hcount : v = s.reporter.numbered.length := by
      rw [hv, delivered.next]
      omega
    refine ⟨hcount, fun s' run => ?_⟩
    have same := quiet_run hs empty run
    have delivered' := delivered_reachable (hs.later run)
    have all : c.held s' = s'.reporter.numbered := delivered'.all_held (by rw [same]; exact empty)
    refine ⟨same, by rw [all, same], fun now generation caller exitCode reason hfinish => ?_⟩
    obtain ⟨x, howned, hne⟩ := finish_unacknowledged hfinish
    have wf := (PostgresStore.reachable_wellFormed delivered'.reachable).toWellFormed
    obtain ⟨locked, _⟩ := owned_ok wf howned
    obtain ⟨hx, _⟩ := Table.lookup_mem locked.attempt
    refine hne ?_
    rw [delivered'.row x.attempt hx locked.same, all, same, hcount]

end ReporterSetup

namespace Sample

/-- The bytes outside ASCII replaced by U+FFFD, one by one. -/
def replaceBytes (text : Bytes) : Bytes :=
  text.flatMap fun b => if b < 128 then [b] else [0xef, 0xbf, 0xbd]

theorem replaceBytes_encodes (text : Bytes) :
    ∃ chars : List Char, replaceBytes text = chars.flatMap String.utf8EncodeChar := by
  refine ⟨text.map fun b => if b < 128 then Char.ofNat b.toNat else Char.ofNat 0xfffd, ?_⟩
  have ascii : ∀ n < 128, [UInt8.ofNat n] = String.utf8EncodeChar (Char.ofNat n) := by
    decide +kernel
  have replacement : [0xef, 0xbf, 0xbd] = String.utf8EncodeChar (Char.ofNat 0xfffd) := by
    decide +kernel
  rw [replaceBytes, List.flatMap_map]
  refine List.flatMap_congr fun b _ => ?_
  split
  · rename_i hb
    have hlt : b.toNat < 128 := UInt8.lt_iff_toNat_lt.mp hb
    simpa using ascii b.toNat hlt
  · exact replacement

def reporting : ReporterSetup :=
  ⟨store, attemptId.text, 1, "runner", replaceBytes, replaceBytes_encodes⟩

/-- The first reply is lost, the request is sent again, and both are executed once more late. -/
def delivery : List ReporterSetup.Act :=
  [.other 1 (.submit runId spec "key" "fingerprint"),
    .other 2 (.registerWorker "worker" "session" ⟨4000, 4096⟩ {}),
    .other 3 (.assign attemptId [] "worker" "session"),
    .other 4 (.start attemptId.text 1 "runner" ""),
    .log .stdout [104, 255, 105], .enqueue 5, .send, .execute 6 0, .unavailable,
    .metric "loss" 1 ⟨0⟩ 7, .wake, .send, .execute 8 0, .execute 9 1, .reply 10 2, .execute 11 1]

def delivered : List Telemetry :=
  [{ sequence := 1, timestampMs := 5, kind := "stdout", text := [104, 0xef, 0xbf, 0xbd, 105] },
    { sequence := 2, timestampMs := 7, kind := "metric", name := "loss", step := 1, value := ⟨0⟩ }]

end Sample

open Sample in
theorem ReporterSetup.telemetry_delivery_resent : ∃ s : State,
    reporting.system.Reachable s ∧ s.sent.length = 2 ∧ s.reporter.flush = .ok 2 ∧
    s.reporter.numbered = delivered ∧ reporting.held s = delivered ∧
    ∀ now, finish Sample.store.timing now attemptId.text 1 "runner" 1 "" 2 s.store.db ≠
      .error unacknowledged := by
  have flushed : (reporting.system.replay (fun _ _ => true) reporting.system.init delivery).any
      (fun s => s.sent.length = 2 && s.reporter.flush = .ok 2 &&
        s.reporter.numbered = delivered) := by
    decide +kernel
  obtain ⟨s, hs, hstate⟩ := (Option.any_eq_true _ _).mp flushed
  simp only [Bool.and_eq_true, decide_eq_true_eq] at hstate
  obtain ⟨⟨hsent, hflushed⟩, hnumbered⟩ := hstate
  have reached := System.replay_reachable hs
  obtain ⟨_, _, hflush⟩ := telemetry_delivery reporting reached
  obtain ⟨_, later⟩ := hflush 2 hflushed
  obtain ⟨_, held, accepted⟩ := later s .refl
  exact ⟨s, reached, hsent, hflushed, hnumbered, held.trans hnumbered,
    fun now => accepted now 1 "runner" 1 ""⟩

end Runyard
