import Runyard.Lines
import Runyard.Runner.Reporter
import Runyard.Serialization.Number

/-!
# The metric reader

`MetricReader` in the runner's `telemetry.cpp` over a file that grows. The end of a buffer, of a
poll and of the file can fall anywhere in a line. `reference` is what the calls of the reporter
amount to.
-/

namespace Runyard

/-- A call of the reporter that the reader makes and that returns. -/
inductive ReporterCall where
  | metric (name : String) (step : Int) (value : Double)
  | log (kind : LogKind) (text : String)
  deriving DecidableEq

def recordLimit : Nat := 100000

def lineLimit : Nat := 65536

def newline : UInt8 := 10

/-- The reads of one poll and the size of its buffer. -/
def pollBatches : Nat := 16

def bufferSize : Nat := 4096

structure MetricReader where
  offset : Nat := 0
  partialLine : Bytes := []
  oversized : Bool := false
  records : Nat := 0
  deriving DecidableEq

namespace MetricReader

def malformed : ReporterCall := .log .notice "Ignored malformed metric record\n"

def invalid : ReporterCall := .log .notice "Ignored invalid metric record\n"

def exceeding : ReporterCall := .log .notice "Ignored metric line exceeding 64 KiB\n"

def limitReached : ReporterCall := .log .notice "Metric record limit reached\n"

/-- The condition that is checked before the call of `metric`. -/
def invalidTypes (j : Json Number) : Json.Access Bool := do
  if !(← j.field "step").isNumber Number.isInteger then
    return true
  if !(← j.field "value").isNumber fun _ => true then
    return true
  return (← j.field "step").isNumber (Number.above int64Max)

section Parser

variable (parse : Bytes → Json.Access (Json Number))

/-- The `try` block on top of `Json::parse`, with the validation that `metric` begins with. -/
def record (line : Bytes) : Decoding ReporterCall := do
  let j ← parse line
  if ← invalidTypes j then
    throw (.program (.error .invalid "metric step/value types are invalid"))
  let name ← (← j.field "name").getString
  let step ← (← j.field "step").getNumber Number.toInt
  let value ← (← j.field "value").getNumber Number.toDouble
  (ReporterSetup.metricRecord name step value).validate
  return .metric name step value

/-- The calls at the end of a line. -/
def finish (r : MetricReader) : List ReporterCall :=
  if !r.oversized && r.partialLine ≠ [] then
    match record parse r.partialLine with
    | .ok call => [call]
    | .error (.json _) => [malformed]
    -- another code than `invalid` is rethrown, but only a failed reporter throws one
    | .error (.program _) => [invalid]
  else if r.oversized then [exceeding]
  else []

/-- The loop over the characters of a buffer, which the limit ends early. -/
def scan (r : MetricReader) : Bytes → MetricReader × List ReporterCall
  | [] => (r, [])
  | ch :: rest =>
    if ch = newline then
      let calls := r.finish parse
      let next := { r with partialLine := [], oversized := false, records := r.records + 1 }
      if recordLimit ≤ next.records then (next, calls ++ [limitReached])
      else
        let after := scan next rest
        (after.1, calls ++ after.2)
    else if r.oversized then scan r rest
    else if r.partialLine.length < lineLimit then
      scan { r with partialLine := r.partialLine ++ [ch] } rest
    else scan { r with partialLine := [], oversized := true } rest

end Parser

/-- The bytes that one `read` finds. -/
def buffer (r : MetricReader) (content : Bytes) : Bytes := (content.drop r.offset).take bufferSize

end MetricReader

/-! ## Polls of a growing file -/

namespace Metrics

open MetricReader

structure State where
  content : Bytes := []
  reader : MetricReader := {}
  /-- The reads that the current poll has left. -/
  batches : Nat := 0
  calls : List ReporterCall := []
  deriving DecidableEq

inductive Act where
  | append (bytes : Bytes)
  | poll
  | read

section Parser

variable (parse : Bytes → Json.Access (Json Number))

/-- Reads are events of their own because the file can grow between two of them. -/
def step (s : State) : Act → Option State
  | .append bytes => some { s with content := s.content ++ bytes }
  | .poll =>
    if s.batches = 0 then
      some (if recordLimit ≤ s.reader.records then s else { s with batches := pollBatches })
    else none
  | .read =>
    if s.batches = 0 then none
    else
      let bytes := s.reader.buffer s.content
      let after := { s.reader with offset := s.reader.offset + bytes.length }.scan parse bytes
      let ends := recordLimit ≤ after.1.records || bytes.length < bufferSize
      some { s with
        reader := after.1
        batches := if ends then 0 else s.batches - 1
        calls := s.calls ++ after.2 }

def system : System State Act where
  init := {}
  step := step parse

/-! ## The reference -/

/-- An integer within the range of `step`. -/
def wholeStep (n : Number) : Bool := n.isInteger && !n.above int64Max

/-- The call for a document that is a valid metric record. -/
def metricOf (j : Json Number) : Option ReporterCall :=
  match j.find? "name", j.find? "step", j.find? "value" with
  | some (.string name), some (.number step), some (.number value) =>
    let record := ReporterSetup.metricRecord name step.toInt value.toDouble
    if wholeStep step && record.validate.isOk then
      some (.metric name step.toInt value.toDouble)
    else none
  | _, _, _ => none

/-- A document in which a field is missed before any of them is found to be invalid. -/
def incomplete (j : Json Number) : Bool :=
  match j.find? "step", j.find? "value", j.find? "name" with
  | none, _, _ => true
  | some step, none, _ => step.isNumber Number.isInteger
  | some step, some value, name =>
    step.isNumber wholeStep && value.isNumber (fun _ => true) &&
      !name.any fun name => name.getString.isOk

/-- What a line with content is answered with. -/
def answer (line : Bytes) : ReporterCall :=
  if lineLimit < line.length then exceeding
  else match parse line with
    | .error _ => malformed
    | .ok j => match metricOf j with
      | some call => call
      | none => if incomplete j then malformed else invalid

def filled (line : Bytes) : Bool := line ≠ []

def answers (lines : List Bytes) : List ReporterCall := (lines.filter filled).map (answer parse)

/-- The calls for a file. -/
def reference (content : Bytes) : List ReporterCall :=
  let lines := (Lines.complete newline content).take recordLimit
  answers parse lines ++ if lines.length = recordLimit then [limitReached] else []

/-! ## A single line -/

section Line

variable {j step value : Json Number}

theorem invalidTypes_ok (hstep : j.field "step" = .ok step) (hvalue : j.field "value" = .ok value) :
    invalidTypes j = .ok (!(step.isNumber wholeStep && value.isNumber fun _ => true)) := by
  rw [invalidTypes, hstep, hvalue]
  cases step with
  | number n => cases value <;> cases n <;>
      simp [Json.isNumber, wholeStep, Number.isInteger, Number.above]
  | _ => simp [Json.isNumber]

theorem metricOf_some {call : ReporterCall} (h : metricOf j = some call) :
    ∃ name n v, j.find? "name" = some (.string name) ∧ j.find? "step" = some (.number n) ∧
      j.find? "value" = some (.number v) ∧ wholeStep n ∧
      (ReporterSetup.metricRecord name n.toInt v.toDouble).validate = .ok () ∧
      call = .metric name n.toInt v.toDouble := by
  unfold metricOf at h
  split at h
  · next name n v hname hstep hvalue =>
    obtain ⟨hvalid, hcall⟩ := Option.ite_none_right_eq_some.mp h
    cases hcall
    obtain ⟨hwhole, hvalid⟩ := Bool.and_eq_true_iff.mp hvalid
    refine ⟨name, n, v, hname, hstep, hvalue, hwhole, ?_, rfl⟩
    cases hresult : (ReporterSetup.metricRecord name n.toInt v.toDouble).validate with
    | ok _ => rfl
    | error e => rw [hresult] at hvalid; cases hvalid
  · cases h

end Line

theorem record_answer (line : Bytes) (hlength : line.length ≤ lineLimit) :
    (match record parse line with
      | .ok call => call
      | .error (.json _) => malformed
      | .error (.program _) => invalid) = answer parse line := by
  rw [answer, if_neg (Nat.not_lt.mpr hlength), record]
  cases parse line with
  | error what => rfl
  | ok j =>
    rcases j.field_cases "step" with ⟨step, hstep, fstep⟩ | ⟨hstep, what, fstep⟩
    · rcases j.field_cases "value" with ⟨value, hvalue, fvalue⟩ | ⟨hvalue, what, fvalue⟩
      · have htypes := invalidTypes_ok fstep fvalue
        by_cases hgood : step.isNumber wholeStep && value.isNumber fun _ => true
        · rw [hgood] at htypes
          obtain ⟨hn, hv⟩ := Bool.and_eq_true_iff.mp hgood
          obtain ⟨n, rfl, hwhole⟩ := Json.isNumber_iff.mp hn
          obtain ⟨v, rfl, -⟩ := Json.isNumber_iff.mp hv
          rcases j.field_cases "name" with ⟨name, hname, fname⟩ | ⟨hname, what, fname⟩
          · cases name with
            | string name =>
              cases hvalid : (ReporterSetup.metricRecord name n.toInt v.toDouble).validate <;>
                simp [htypes, metricOf, incomplete, hstep, hvalue, hname, fstep, fvalue, fname,
                  Json.getString, Json.getNumber, hwhole, hvalid, Except.isOk, Except.toBool]
            | _ => simp [htypes, metricOf, incomplete, hstep, hvalue, hname, hn, hv, fname,
                Json.getString, Json.mismatch, Except.isOk, Except.toBool]
          · simp [htypes, metricOf, incomplete, hstep, hvalue, hname, hn, hv, fname]
        · rw [Bool.not_eq_true] at hgood
          rw [hgood] at htypes
          have hmetric : metricOf j = none := by
            cases hmetric : metricOf j with
            | none => rfl
            | some call =>
              obtain ⟨_, n, v, -, hn, hv, hwhole, -⟩ := metricOf_some hmetric
              cases hstep.symm.trans hn
              cases hvalue.symm.trans hv
              simp [Json.isNumber, hwhole] at hgood
          simp [htypes, hmetric, incomplete, hstep, hvalue, hgood]
      · by_cases hinteger : step.isNumber Number.isInteger
        · simp [invalidTypes, metricOf, incomplete, hstep, hvalue, fstep, fvalue, hinteger]
        · simp [invalidTypes, metricOf, incomplete, hstep, hvalue, fstep, hinteger]
    · simp [invalidTypes, metricOf, incomplete, hstep, fstep]

/-! ## Reading a file piece by piece -/

section Reader

variable {parse} {r : MetricReader} {text : Bytes} {calls : List ReporterCall}

@[simp] theorem answers_nil : answers parse [] = [] := rfl

@[simp] theorem filled_iff {line : Bytes} : filled line ↔ line ≠ [] := by simp [filled]

@[simp] theorem answers_empty : answers parse [[]] = [] := rfl

theorem answers_one {line : Bytes} (h : line ≠ []) :
    answers parse [line] = [answer parse line] := by
  rw [answers, List.filter_cons_of_pos (filled_iff.mpr h)]
  rfl

theorem answers_append (lines more : List Bytes) :
    answers parse (lines ++ more) = answers parse lines ++ answers parse more := by
  simp [answers]

/-- The reader has seen `text` and the limit is not reached. -/
structure Reading (parse : Bytes → Json.Access (Json Number)) (text : Bytes) (r : MetricReader)
    (calls : List ReporterCall) : Prop where
  below : r.records < recordLimit
  records : r.records = (Lines.complete newline text).length
  oversized : r.oversized = decide (lineLimit < (Lines.rest newline text).length)
  line : r.partialLine = if r.oversized then [] else Lines.rest newline text
  calls : calls = answers parse (Lines.complete newline text)

/-- The reader has stopped for good. -/
structure Stopped (parse : Bytes → Json.Access (Json Number)) (text : Bytes) (r : MetricReader)
    (calls : List ReporterCall) : Prop where
  records : r.records = recordLimit
  lines : recordLimit ≤ (Lines.complete newline text).length
  calls : calls = reference parse text

theorem Reading.reference (reading : Reading parse text r calls) :
    calls = Metrics.reference parse text := by
  have hbelow := reading.below
  rw [reading.records] at hbelow
  rw [reading.calls, Metrics.reference, List.take_of_length_le hbelow.le, if_neg hbelow.ne,
    List.append_nil]

theorem Stopped.append (stopped : Stopped parse text r calls) (more : Bytes) :
    Stopped parse (text ++ more) r calls := by
  obtain ⟨later, hlater⟩ := Lines.complete_prefix newline text more
  have hlines := stopped.lines
  refine ⟨stopped.records, ?_, ?_⟩
  · rw [← hlater, List.length_append]
    omega
  · rw [stopped.calls, Metrics.reference, Metrics.reference, ← hlater,
      List.take_append_of_le_length hlines]

/-- The end of a line answers the line. -/
theorem Reading.finish (reading : Reading parse text r calls) :
    r.finish parse = answers parse [Lines.rest newline text] := by
  have hline := reading.line
  rw [MetricReader.finish]
  by_cases hoversized : lineLimit < (Lines.rest newline text).length
  · have hover : r.oversized = true := by
      rw [reading.oversized, decide_eq_true hoversized]
    have hne : Lines.rest newline text ≠ [] := by
      rintro hnil
      rw [hnil] at hoversized
      cases hoversized
    rw [answers_one hne, answer, if_pos hoversized]
    simp [hover]
  · have hover : r.oversized = false := by
      rw [reading.oversized, decide_eq_false hoversized]
    rw [hover, if_neg Bool.false_ne_true] at hline
    by_cases hempty : Lines.rest newline text = []
    · simp [hover, hline, hempty]
    · have hanswer := record_answer parse (Lines.rest newline text) (Nat.not_lt.mp hoversized)
      rw [hline, hover, answers_one hempty, ← hanswer, if_pos (by simp [hempty])]
      cases record parse (Lines.rest newline text) with
      | ok call => rfl
      | error e => cases e <;> rfl

theorem Reading.separator (reading : Reading parse text r calls) :
    let next := { r with partialLine := [], oversized := false, records := r.records + 1 }
    if recordLimit ≤ next.records then
      Stopped parse (text ++ [newline]) next (calls ++ (r.finish parse ++ [limitReached]))
    else Reading parse (text ++ [newline]) next (calls ++ r.finish parse) := by
  obtain ⟨hcomplete, hrest⟩ := Lines.snoc_sep newline text
  have hbelow := reading.below
  have hrecords : r.records + 1 = (Lines.complete newline (text ++ [newline])).length := by
    rw [hcomplete, List.length_append, reading.records, List.length_singleton]
  have hcalls : calls ++ r.finish parse =
      answers parse (Lines.complete newline (text ++ [newline])) := by
    rw [hcomplete, answers_append, ← reading.finish, reading.calls]
  dsimp only
  split
  · next hlimit =>
    have hall : r.records + 1 = recordLimit := by omega
    refine ⟨hall, by omega, ?_⟩
    rw [← List.append_assoc, hcalls, Metrics.reference, List.take_of_length_le (by omega),
      if_pos (hrecords.symm.trans hall)]
  · next hlimit =>
    exact ⟨Nat.not_le.mp hlimit, hrecords, by simp [hrest], by simp [hrest], hcalls⟩

/-- One character of a line that is not complete. -/
theorem Reading.character (reading : Reading parse text r calls) {ch : UInt8} (hch : ch ≠ newline) :
    Reading parse (text ++ [ch])
      (if r.oversized then r
        else if r.partialLine.length < lineLimit then
          { r with partialLine := r.partialLine ++ [ch] }
        else { r with partialLine := [], oversized := true }) calls := by
  obtain ⟨hcomplete, hrest⟩ := Lines.snoc_other newline hch text
  have hline := reading.line
  have hoversized := reading.oversized
  have hsame : r.records = (Lines.complete newline (text ++ [ch])).length := by
    rw [hcomplete, reading.records]
  have hcalls : calls = answers parse (Lines.complete newline (text ++ [ch])) := by
    rw [hcomplete, reading.calls]
  have hlength : (Lines.rest newline (text ++ [ch])).length =
      (Lines.rest newline text).length + 1 := by rw [hrest]; simp
  split
  · next hover =>
    rw [hover] at hoversized
    have hlong := of_decide_eq_true hoversized.symm
    refine ⟨reading.below, hsame, ?_, ?_, hcalls⟩
    · rw [hover, eq_comm, decide_eq_true_iff]
      omega
    · rw [hline, if_pos hover, if_pos hover]
  · next hover =>
    rw [Bool.not_eq_true] at hover
    rw [hover] at hoversized hline
    have hshort := of_decide_eq_false hoversized.symm
    rw [if_neg Bool.false_ne_true] at hline
    split
    · next hroom =>
      rw [hline] at hroom
      refine ⟨reading.below, hsame, ?_, ?_, hcalls⟩
      · change r.oversized = _
        rw [hover, eq_comm, decide_eq_false_iff_not]
        omega
      · change r.partialLine ++ [ch] = if r.oversized then [] else _
        rw [hover, if_neg Bool.false_ne_true, hline, hrest]
    · next hfull =>
      rw [hline] at hfull
      refine ⟨reading.below, hsame, ?_, rfl, hcalls⟩
      change true = _
      rw [eq_comm, decide_eq_true_iff]
      omega

/-- What a reader knows after it read `text`. -/
inductive Knows (parse : Bytes → Json.Access (Json Number)) (text : Bytes) (r : MetricReader)
    (calls : List ReporterCall) : Prop where
  | reading (h : Reading parse text r calls)
  | stopped (h : Stopped parse text r calls)

theorem Knows.of_below (knows : Knows parse text r calls) (h : r.records < recordLimit) :
    Reading parse text r calls := by
  rcases knows with reading | stopped
  · exact reading
  · exact absurd stopped.records h.ne

theorem Reading.moved (reading : Reading parse text r calls) (offset : Nat) :
    Reading parse text { r with offset := offset } calls :=
  ⟨reading.below, reading.records, reading.oversized, reading.line, reading.calls⟩

/-- A buffer, wherever it ends. The limit may be reached before its last character. -/
theorem Reading.scan (reading : Reading parse text r calls) (bytes : Bytes) :
    (r.scan parse bytes).1.offset = r.offset ∧
      Knows parse (text ++ bytes) (r.scan parse bytes).1 (calls ++ (r.scan parse bytes).2) := by
  induction bytes generalizing r text calls with
  | nil =>
    rw [List.append_nil, MetricReader.scan, List.append_nil]
    exact ⟨rfl, .reading reading⟩
  | cons ch rest ih =>
    rw [MetricReader.scan, ← List.singleton_append (l := rest), ← List.append_assoc]
    split
    · next hch =>
      subst hch
      have hnext := reading.separator
      dsimp only at hnext ⊢
      split at hnext
      · next hlimit =>
        rw [if_pos hlimit]
        exact ⟨rfl, .stopped (hnext.append rest)⟩
      · next hlimit =>
        rw [if_neg hlimit]
        have after := ih hnext
        rw [List.append_assoc calls] at after
        exact after
    · next hch =>
      have hnext := reading.character hch
      split at hnext
      · next hover =>
        rw [if_pos hover]
        exact ih hnext
      · next hover =>
        rw [if_neg hover]
        split at hnext
        · next hroom =>
          rw [if_pos hroom]
          exact ih hnext
        · next hfull =>
          rw [if_neg hfull]
          exact ih hnext

theorem Knows.reference (knows : Knows parse text r calls) :
    calls = Metrics.reference parse text ∧
      r.records = min recordLimit (Lines.complete newline text).length := by
  rcases knows with reading | stopped
  · have hbelow := reading.below
    rw [reading.records] at hbelow
    exact ⟨reading.reference, by rw [reading.records]; omega⟩
  · have hlines := stopped.lines
    exact ⟨stopped.calls, by rw [stopped.records]; omega⟩

end Reader

/-! ## Every schedule of appends and polls -/

section Schedules

variable {parse} {s s' : State}

/-- Where the reader stands in the file. -/
structure Following (parse : Bytes → Json.Access (Json Number)) (s : State) : Prop where
  offset : s.reader.offset ≤ s.content.length
  knows : Knows parse (s.content.take s.reader.offset) s.reader s.calls
  polling : s.batches ≠ 0 → s.reader.records < recordLimit

/-- The bytes between the offset and the end of what was read next. -/
theorem take_buffer (r : MetricReader) (content : Bytes) :
    content.take r.offset ++ r.buffer content =
      content.take (r.offset + (r.buffer content).length) := by
  rw [MetricReader.buffer, List.take_add, List.length_take, ← List.take_take, List.take_length]

theorem buffer_length_le (r : MetricReader) (content : Bytes) (h : r.offset ≤ content.length) :
    r.offset + (r.buffer content).length ≤ content.length := by
  rw [MetricReader.buffer, List.length_take, List.length_drop]
  omega

theorem reading_init : Reading parse [] {} [] :=
  ⟨by decide, by simp, by simp, by simp, by simp⟩

theorem Following.step {act : Act} (following : Following parse s)
    (h : step parse s act = some s') :
    Following parse s' := by
  have hoffset := following.offset
  cases act with
  | append bytes =>
    cases h
    refine ⟨?_, ?_, following.polling⟩
    · simp only [List.length_append]
      omega
    · simp only [List.take_append_of_le_length hoffset]
      exact following.knows
  | poll =>
    obtain ⟨hidle, hnext⟩ := Option.ite_none_right_eq_some.mp h
    cases hnext
    split
    · exact following
    · next hbelow => exact ⟨hoffset, following.knows, fun _ => Nat.not_le.mp hbelow⟩
  | read =>
    obtain ⟨hbusy, hnext⟩ := Option.ite_none_left_eq_some.mp h
    cases hnext
    have hbelow := following.polling hbusy
    have reading := following.knows.of_below hbelow
    obtain ⟨hsame, hknows⟩ := (reading.moved (s.reader.offset +
      (s.reader.buffer s.content).length)).scan (s.reader.buffer s.content)
    rw [take_buffer] at hknows
    refine ⟨?_, ?_, ?_⟩
    · dsimp only
      rw [hsame]
      exact buffer_length_le s.reader s.content hoffset
    · dsimp only
      rw [hsame]
      exact hknows
    · dsimp only
      intro hmore
      by_contra hlimit
      simp [Nat.not_lt.mp hlimit] at hmore

theorem following_reachable (hs : (system parse).Reachable s) : Following parse s := by
  refine hs.invariant ⟨le_rfl, .reading reading_init, fun h => absurd rfl h⟩ ?_
  exact fun s act s' following h => following.step h

/-- What a read does to the poll: it goes on after a full buffer only. -/
theorem Following.read_cases (following : Following parse s)
    (h : Metrics.step parse s .read = some s') :
    s.batches ≠ 0 ∧ s'.content = s.content ∧
      s'.reader.offset = s.reader.offset + min bufferSize (s.content.length - s.reader.offset) ∧
      (s'.batches = 0 ∧
          (recordLimit ≤ s'.reader.records ∨ s'.reader.offset = s.content.length) ∨
        s'.batches = s.batches - 1 ∧ s'.reader.offset = s.reader.offset + bufferSize) := by
  obtain ⟨hbusy, hnext⟩ := Option.ite_none_left_eq_some.mp h
  cases hnext
  have hle := following.offset
  have reading := following.knows.of_below (following.polling hbusy)
  have hsame := ((reading.moved (s.reader.offset + (s.reader.buffer s.content).length)).scan
    (s.reader.buffer s.content)).1
  have hbuffer : (s.reader.buffer s.content).length =
      min bufferSize (s.content.length - s.reader.offset) := by
    rw [MetricReader.buffer, List.length_take, List.length_drop]
  dsimp only at hsame ⊢
  rw [hsame, hbuffer]
  refine ⟨hbusy, rfl, rfl, ?_⟩
  split
  · next hends =>
    refine .inl ⟨rfl, ?_⟩
    rw [Bool.or_eq_true, decide_eq_true_iff, decide_eq_true_iff] at hends
    refine hends.imp_right fun hshort => ?_
    omega
  · next hgoes =>
    refine .inr ⟨rfl, ?_⟩
    rw [Bool.or_eq_true, decide_eq_true_iff, decide_eq_true_iff] at hgoes
    omega

theorem Following.reached (following : Following parse s)
    (drained : s.reader.offset = s.content.length ∨ recordLimit ≤ s.reader.records) :
    Knows parse s.content s.reader s.calls := by
  have knows := following.knows
  rcases drained with hend | hlimit
  · rwa [hend, List.take_length] at knows
  · rcases knows with reading | stopped
    · exact absurd reading.below (Nat.not_lt.mpr hlimit)
    · have whole := stopped.append (s.content.drop s.reader.offset)
      rw [List.take_append_drop] at whole
      exact .stopped whole

theorem silent_later (hs : (system parse).Reachable s) (hlimit : recordLimit ≤ s.reader.records)
    (run : (system parse).Later s s') : s'.calls = s.calls ∧ recordLimit ≤ s'.reader.records := by
  refine run.stable hs (P := fun s' => s'.calls = s.calls ∧ recordLimit ≤ s'.reader.records)
    ⟨rfl, hlimit⟩ ?_
  rintro s' act s'' hs' ⟨hcalls, hstopped⟩ - h
  have hidle : s'.batches = 0 := by
    by_contra hbusy
    exact absurd ((following_reachable hs').polling hbusy) (Nat.not_lt.mpr hstopped)
  cases act with
  | append bytes =>
    cases h
    exact ⟨hcalls, hstopped⟩
  | poll =>
    obtain ⟨-, hnext⟩ := Option.ite_none_right_eq_some.mp h
    rw [if_pos hstopped] at hnext
    cases hnext
    exact ⟨hcalls, hstopped⟩
  | read => exact absurd hidle (Option.ite_none_left_eq_some.mp h).1

/-- However a file grows and is polled: once it is read to its end, or the limit is reached, the
calls of the reporter are those of the reference, and after the limit there are no more. -/
theorem metric_reading (parse : Bytes → Json.Access (Json Number)) {s : State}
    (hs : (system parse).Reachable s)
    (drained : s.reader.offset = s.content.length ∨ recordLimit ≤ s.reader.records) :
    s.calls = reference parse s.content ∧
      s.reader.records = min recordLimit (Lines.complete newline s.content).length ∧
      (recordLimit ≤ s.reader.records →
        ∀ s', (system parse).Later s s' → s'.calls = s.calls) := by
  obtain ⟨hcalls, hrecords⟩ := ((following_reachable hs).reached drained).reference
  exact ⟨hcalls, hrecords, fun hlimit s' run => (silent_later hs hlimit run).1⟩

/-- A record in two parts, an empty line and a line that is no JSON. -/
def sampleRecord : Bytes := utf8 "\x7b\"name\":\"a\",\"step\":1,\"value\":2\x7d"

def sampleParse (line : Bytes) : Json.Access (Json Number) :=
  if line = sampleRecord then
    .ok (.object [("name", .string "a"), ("step", .number (.unsigned 1)),
      ("value", .number (.unsigned 2))])
  else .error "[json.exception.parse_error.101] parse error"

def sampleEvents : List Act :=
  [.append (sampleRecord.take 9), .poll, .read,
    .append (sampleRecord.drop 9 ++ utf8 "\n\noops\n"), .poll, .read]

theorem metric_reading_sample : ∃ s, (system sampleParse).Reachable s ∧
    s.calls = [.metric "a" 1 ⟨0x4000000000000000⟩, malformed] ∧
    s.calls = reference sampleParse s.content := by
  obtain ⟨s, hs⟩ : ∃ s, (system sampleParse).replay (fun _ _ => true) {} sampleEvents = some s ∧
      s.reader.offset = s.content.length ∧
      s.calls = [.metric "a" 1 ⟨0x4000000000000000⟩, malformed] := by
    refine ⟨_, rfl, ?_, ?_⟩ <;> decide +kernel
  have reachable := System.replay_reachable hs.1
  exact ⟨s, reachable, hs.2.2, (metric_reading sampleParse reachable (.inl hs.2.1)).1⟩

end Schedules

end Parser

end Metrics

end Runyard
