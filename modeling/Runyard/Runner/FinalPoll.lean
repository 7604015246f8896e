import Runyard.Runner.Metrics

/-!
# The final poll

The supervision loop of `run_attempt` as far as it reads metrics: each round polls the metrics
file once and then looks for the exit of the child; after the child is reaped there is one more
poll and then the flush.
-/

namespace Runyard

namespace FinalPoll

open MetricReader

/-- The most that one poll consumes. -/
def pollBudget : Nat := pollBatches * bufferSize

inductive Phase where
  | looping | polling | checking | reaped | finalizing | flushing
  deriving DecidableEq

structure State where
  metrics : Metrics.State := {}
  phase : Phase := .looping
  /-- What the file held when the child exited. -/
  exited : Option Bytes := none
  /-- The offset at which the final poll started. -/
  finalStart : Nat := 0
  deriving DecidableEq

inductive Act where
  | append (bytes : Bytes)
  | exit
  | poll
  | read
  /-- The poll in progress returns. -/
  | returned
  /-- `process.poll()`, which finds an exited child. -/
  | check
  | finalize

variable (parse : Bytes → Json.Access (Json Number))

def step (s : State) : Act → Option State
  | .append bytes =>
    (Metrics.step parse s.metrics (.append bytes)).map fun metrics => { s with metrics := metrics }
  | .exit =>
    if s.exited = none then some { s with exited := some s.metrics.content } else none
  | .poll =>
    if s.phase = .looping then
      (Metrics.step parse s.metrics .poll).map fun metrics =>
        { s with metrics := metrics, phase := .polling }
    else none
  | .read =>
    (Metrics.step parse s.metrics .read).map fun metrics => { s with metrics := metrics }
  | .returned =>
    if s.metrics.batches = 0 then
      match s.phase with
      | .polling => some { s with phase := .checking }
      | .finalizing => some { s with phase := .flushing }
      | _ => none
    else none
  | .check =>
    if s.phase = .checking then
      some { s with phase := if s.exited.isSome then .reaped else .looping }
    else none
  | .finalize =>
    if s.phase = .reaped then
      (Metrics.step parse s.metrics .poll).map fun metrics =>
        { s with metrics := metrics, phase := .finalizing, finalStart := s.metrics.reader.offset }
    else none

def system : System State Act where
  init := {}
  step := step parse

/-- The lines that the reader has to hand over: those of the file at the exit, up to the limit. -/
def due (content : Bytes) : List Bytes := (Lines.complete newline content).take recordLimit

/-- Each of the lines has its own call among the calls, in this order. -/
def HandedOver (lines : List Bytes) (calls : List ReporterCall) : Prop :=
  ∃ handed, handed.Sublist calls ∧
    List.Forall₂ (fun line call => call ∈ Metrics.answers parse [line]) lines handed

/-! ## How far the final poll comes -/

section Runs

variable {parse} {s s' : State}

theorem embeds : (system parse).Embeds (Metrics.system parse) (·.metrics) where
  init := rfl
  step := by
    intro s act s' _ h
    change step parse s act = some s' at h
    cases act with
    | append bytes =>
      cases h
      exact .inr ⟨.append bytes, rfl⟩
    | read =>
      obtain ⟨metrics, hstep, rfl⟩ := Option.map_eq_some_iff.mp h
      exact .inr ⟨.read, hstep⟩
    | poll =>
      obtain ⟨-, hnext⟩ := Option.ite_none_right_eq_some.mp h
      obtain ⟨metrics, hstep, rfl⟩ := Option.map_eq_some_iff.mp hnext
      exact .inr ⟨.poll, hstep⟩
    | finalize =>
      obtain ⟨-, hnext⟩ := Option.ite_none_right_eq_some.mp h
      obtain ⟨metrics, hstep, rfl⟩ := Option.map_eq_some_iff.mp hnext
      exact .inr ⟨.poll, hstep⟩
    | exit =>
      obtain ⟨-, hnext⟩ := Option.ite_none_right_eq_some.mp h
      cases hnext
      exact .inl rfl
    | check =>
      obtain ⟨-, hnext⟩ := Option.ite_none_right_eq_some.mp h
      cases hnext
      exact .inl rfl
    | returned =>
      obtain ⟨-, hnext⟩ := Option.ite_none_right_eq_some.mp h
      split at hnext
      · cases hnext
        exact .inl rfl
      · cases hnext
        exact .inl rfl
      · cases hnext

theorem following (hs : (system parse).Reachable s) : Metrics.Following parse s.metrics :=
  Metrics.following_reachable (embeds.reachable hs)

/-- What the final poll has read so far; it ends at the budget, at the limit or at the end of
the file. -/
structure Finalizing (s : State) : Prop where
  within : s.metrics.reader.offset ≤ s.finalStart + pollBudget
  left : s.metrics.batches ≠ 0 →
    s.metrics.reader.offset + s.metrics.batches * bufferSize = s.finalStart + pollBudget
  ends : s.metrics.batches = 0 → recordLimit ≤ s.metrics.reader.records ∨
    s.metrics.reader.offset = s.finalStart + pollBudget ∨
    ∀ content, s.exited = some content → content.length ≤ s.metrics.reader.offset

structure Supervised (s : State) : Prop where
  grows : ∀ content, s.exited = some content → content <+: s.metrics.content
  exited : s.phase = .reaped ∨ s.phase = .finalizing ∨ s.phase = .flushing → s.exited.isSome
  idle : s.phase ≠ .polling → s.phase ≠ .finalizing → s.metrics.batches = 0
  final : s.phase = .finalizing ∨ s.phase = .flushing → Finalizing s

theorem Finalizing.start (hidle : s.metrics.batches = 0) {metrics : Metrics.State}
    (h : Metrics.step parse s.metrics .poll = some metrics) :
    Finalizing { s with
      metrics := metrics, phase := .finalizing, finalStart := s.metrics.reader.offset } := by
  obtain ⟨-, hnext⟩ := Option.ite_none_right_eq_some.mp h
  cases hnext
  split
  · next hlimit => exact ⟨Nat.le_add_right _ _, fun h => absurd hidle h, fun _ => .inl hlimit⟩
  · exact ⟨Nat.le_add_right _ _, fun _ => rfl, fun h => by cases h⟩

theorem Finalizing.read (finalizing : Finalizing s) (following : Metrics.Following parse s.metrics)
    (grows : ∀ content, s.exited = some content → content <+: s.metrics.content)
    {metrics : Metrics.State} (h : Metrics.step parse s.metrics .read = some metrics) :
    Finalizing { s with metrics := metrics } := by
  obtain ⟨hbusy, -, hoffset, hcases⟩ := following.read_cases h
  have hleft := finalizing.left hbusy
  have hle := following.offset
  obtain ⟨batches, hbatches⟩ := Nat.exists_eq_succ_of_ne_zero hbusy
  rw [hbatches, Nat.succ_mul] at hleft
  refine ⟨?_, ?_, ?_⟩
  · dsimp only
    omega
  · intro hmore
    rcases hcases with ⟨hnone, -⟩ | ⟨hone, hfull⟩
    · exact absurd hnone hmore
    · dsimp only
      rw [hone, hfull, hbatches, Nat.succ_sub_one]
      omega
  · intro hnone
    dsimp only at hnone ⊢
    rcases hcases with ⟨-, hlimit | hend⟩ | ⟨hone, hfull⟩
    · exact .inl hlimit
    · refine .inr (.inr fun content hcontent => ?_)
      rw [hend]
      exact (grows content hcontent).length_le
    · refine .inr (.inl ?_)
      have hzero : batches = 0 := by omega
      rw [hzero] at hleft
      omega

theorem poll_content {m m' : Metrics.State} (h : Metrics.step parse m .poll = some m') :
    m'.content = m.content := by
  obtain ⟨-, hnext⟩ := Option.ite_none_right_eq_some.mp h
  cases hnext
  split <;> rfl

theorem Supervised.step {act : Act} (supervised : Supervised s) (hs : (system parse).Reachable s)
    (h : step parse s act = some s') : Supervised s' := by
  have hfollowing := following hs
  have grows := supervised.grows
  cases act with
  | append bytes =>
    cases h
    refine ⟨fun content hcontent => ?_, supervised.exited, supervised.idle, fun hphase => ?_⟩
    · exact (grows content hcontent).trans (List.prefix_append _ _)
    · have final := supervised.final hphase
      exact ⟨final.within, final.left, final.ends⟩
  | exit =>
    obtain ⟨hnone, hnext⟩ := Option.ite_none_right_eq_some.mp h
    cases hnext
    refine ⟨?_, fun _ => rfl, supervised.idle, fun hphase => ?_⟩
    · rintro content ⟨⟩
      exact List.prefix_rfl
    · have hexited := supervised.exited (.inr hphase)
      rw [hnone] at hexited
      cases hexited
  | poll =>
    obtain ⟨hphase, hnext⟩ := Option.ite_none_right_eq_some.mp h
    obtain ⟨metrics, hstep, rfl⟩ := Option.map_eq_some_iff.mp hnext
    refine ⟨fun content hcontent => ?_, ?_, fun hne => absurd rfl hne, ?_⟩
    · rw [poll_content hstep]
      exact grows content hcontent
    · rintro (h | h | h) <;> cases h
    · rintro (h | h) <;> cases h
  | read =>
    obtain ⟨metrics, hstep, rfl⟩ := Option.map_eq_some_iff.mp h
    obtain ⟨hbusy, hcontent, -⟩ := hfollowing.read_cases hstep
    refine ⟨?_, supervised.exited, ?_, ?_⟩
    · rw [hcontent]
      exact grows
    · intro hpolling hfinalizing
      exact absurd (supervised.idle hpolling hfinalizing) hbusy
    · intro hphase
      exact (supervised.final hphase).read hfollowing grows hstep
  | returned =>
    obtain ⟨hidle, hnext⟩ := Option.ite_none_right_eq_some.mp h
    split at hnext
    · cases hnext
      refine ⟨grows, ?_, fun _ _ => hidle, ?_⟩
      · rintro (h | h | h) <;> cases h
      · rintro (h | h) <;> cases h
    · next hphase =>
      cases hnext
      have final := supervised.final (.inl hphase)
      exact ⟨grows, fun _ => supervised.exited (.inr (.inl hphase)), fun _ _ => hidle,
        fun _ => ⟨final.within, final.left, final.ends⟩⟩
    · cases hnext
  | check =>
    obtain ⟨hphase, hnext⟩ := Option.ite_none_right_eq_some.mp h
    cases hnext
    have hidle := supervised.idle (by rw [hphase]; decide) (by rw [hphase]; decide)
    refine ⟨grows, ?_, fun _ _ => hidle, ?_⟩
    · dsimp only
      split
      · next hexited => exact fun _ => hexited
      · rintro (h | h | h) <;> cases h
    · dsimp only
      split
      · rintro (h | h) <;> cases h
      · rintro (h | h) <;> cases h
  | finalize =>
    obtain ⟨hphase, hnext⟩ := Option.ite_none_right_eq_some.mp h
    obtain ⟨metrics, hstep, rfl⟩ := Option.map_eq_some_iff.mp hnext
    have hidle := supervised.idle (by rw [hphase]; decide) (by rw [hphase]; decide)
    refine ⟨?_, fun _ => supervised.exited (.inl hphase), fun _ hne => absurd rfl hne,
      fun _ => .start hidle hstep⟩
    rw [poll_content hstep]
    exact grows

theorem supervised_reachable (hs : (system parse).Reachable s) : Supervised s := by
  refine System.Leads.stable System.reachable_init hs (P := Supervised) ?_ ?_
  · refine ⟨fun _ hnone => absurd hnone (by simp [system]), ?_, fun _ _ => rfl, ?_⟩
    · rintro (h | h | h) <;> cases h
    · rintro (h | h) <;> cases h
  · exact fun s act s' hs supervised _ h => supervised.step hs h

/-! ## Which lines are handed over -/

theorem handedOver_sublist {lines read : List Bytes} (hsublist : lines.Sublist read)
    (hlines : ∀ line ∈ lines, line ≠ []) (more : List ReporterCall) :
    HandedOver parse lines (Metrics.answers parse read ++ more) := by
  refine ⟨lines.map (Metrics.answer parse), ?_, ?_⟩
  · have hall : lines.filter Metrics.filled = lines :=
      List.filter_eq_self.mpr fun line hline => Metrics.filled_iff.mpr (hlines line hline)
    have hanswers := (hsublist.filter Metrics.filled).map (Metrics.answer parse)
    rw [hall] at hanswers
    exact hanswers.trans (List.sublist_append_left _ _)
  · rw [List.forall₂_map_right_iff, List.forall₂_same]
    intro line hline
    simp [Metrics.answers_one (hlines line hline)]

/-- An empty line has no call. -/
theorem HandedOver.nonempty {lines : List Bytes} {calls : List ReporterCall}
    (handed : HandedOver parse lines calls) : ∀ line ∈ lines, line ≠ [] := by
  obtain ⟨called, -, hcalls⟩ := handed
  rintro line hline rfl
  obtain ⟨i, hi, hget⟩ := List.getElem_of_mem hline
  have hcall := (List.forall₂_iff_get.mp hcalls).2 i hi (hcalls.length_eq ▸ hi)
  rw [List.get_eq_getElem, hget] at hcall
  cases hcall

theorem HandedOver.length_le {lines : List Bytes} {calls : List ReporterCall}
    (handed : HandedOver parse lines calls) : lines.length ≤ calls.length := by
  obtain ⟨called, hsublist, hcalls⟩ := handed
  rw [hcalls.length_eq]
  exact hsublist.length_le

/-- Of two prefixes of the same lines, the reader has `read` and should have handed `lines` over. -/
theorem handedOver_iff {all lines read : List Bytes} {calls : List ReporterCall}
    (hlines : lines <+: all) (hread : read <+: all) (hlimit : lines.length ≤ recordLimit)
    (hcalls : ∃ more, calls = Metrics.answers parse (read.take recordLimit) ++ more ∧
      (read.length < recordLimit → more = [])) :
    HandedOver parse (lines.filter Metrics.filled) calls ↔
      ∀ i (hi : i < lines.length), lines[i] ≠ [] → i + 1 ≤ read.length := by
  obtain ⟨more, rfl, hmore⟩ := hcalls
  have hnonempty : ∀ line ∈ lines.filter Metrics.filled, line ≠ [] :=
    fun line hline => Metrics.filled_iff.mp (List.mem_filter.mp hline).2
  rcases Nat.lt_or_ge read.length lines.length with hshort | hlong
  · obtain ⟨extra, rfl⟩ := List.prefix_of_prefix_length_le hread hlines hshort.le
    rw [List.take_of_length_le (by omega), hmore (by omega), List.append_nil]
    constructor
    · intro handed i hi hne
      by_contra hunread
      have hmem : (read ++ extra)[i] ∈ extra.filter Metrics.filled := by
        rw [List.getElem_append_right (by omega)] at hne ⊢
        exact List.mem_filter.mpr ⟨List.getElem_mem _, Metrics.filled_iff.mpr hne⟩
      have hpos := List.length_pos_of_mem hmem
      have hle := handed.length_le
      rw [Metrics.answers, List.filter_append, List.length_append, List.length_map] at hle
      omega
    · intro hall
      have hempty : extra.filter Metrics.filled = [] := by
        rw [List.filter_eq_nil_iff]
        intro line hline hne
        obtain ⟨k, hk, rfl⟩ := List.getElem_of_mem hline
        have hbound : read.length + k < (read ++ extra).length := by
          rw [List.length_append]
          omega
        have hget : (read ++ extra)[read.length + k] = extra[k] := by
          simp
        have := hall (read.length + k) hbound (by rw [hget]; exact Metrics.filled_iff.mp hne)
        omega
      have handed : HandedOver parse (read.filter Metrics.filled)
          (Metrics.answers parse read ++ []) :=
        handedOver_sublist List.filter_sublist
          (fun line hline => Metrics.filled_iff.mp (List.mem_filter.mp hline).2) []
      rw [List.append_nil] at handed
      rwa [List.filter_append, hempty, List.append_nil]
  · refine ⟨fun _ i hi _ => by omega, fun _ => ?_⟩
    have htaken : lines <+: read.take recordLimit :=
      List.prefix_take_iff.mpr ⟨List.prefix_of_prefix_length_le hlines hread hlong, hlimit⟩
    exact handedOver_sublist (List.filter_sublist.trans htaken.sublist) hnonempty more

variable {content : Bytes}

/-- The final poll reads a due line to its end exactly when the line ends within the budget. -/
theorem reaches (hs : (system parse).Reachable s) (hphase : s.phase = .flushing)
    (hexited : s.exited = some content) {i : Nat} (hi : i < (due content).length) :
    i + 1 ≤ (Lines.complete newline (s.metrics.content.take s.metrics.reader.offset)).length ↔
      Lines.extent newline (i + 1) content ≤ s.finalStart + pollBudget := by
  have supervised := supervised_reachable hs
  have hfollowing := following hs
  have final := supervised.final (.inr hphase)
  have hwithin := final.within
  have hlines : i + 1 ≤ (Lines.complete newline content).length ∧ i < recordLimit := by
    rw [due, List.length_take] at hi
    omega
  obtain ⟨later, hlater⟩ := supervised.grows content hexited
  have hextent : Lines.extent newline (i + 1) s.metrics.content =
      Lines.extent newline (i + 1) content := by
    rw [← hlater, Lines.extent_append newline hlines.1]
  have hwhole : i + 1 ≤ (Lines.complete newline s.metrics.content).length := by
    have hmore := (Lines.complete_prefix newline content later).length_le
    rw [hlater] at hmore
    omega
  have hread : i + 1 ≤ (Lines.complete newline
      (s.metrics.content.take s.metrics.reader.offset)).length ↔
        Lines.extent newline (i + 1) content ≤ s.metrics.reader.offset := by
    have hsplit := List.take_append_drop s.metrics.reader.offset s.metrics.content
    have hiff := Lines.le_length_complete_iff newline
      (s.metrics.content.take s.metrics.reader.offset)
      (s.metrics.content.drop s.metrics.reader.offset) (hsplit ▸ hwhole)
    rwa [hsplit, hextent, List.length_take, Nat.min_eq_left hfollowing.offset] at hiff
  constructor
  · exact fun h => (hread.mp h).trans hwithin
  · intro hbudget
    rcases final.ends (supervised.idle (by rw [hphase]; decide) (by rw [hphase]; decide)) with
      hlimit | hfull | hend
    · rcases hfollowing.knows with reading | stopped
      · exact absurd reading.below (Nat.not_lt.mpr hlimit)
      · have := stopped.lines
        omega
    · exact hread.mpr (hfull ▸ hbudget)
    · exact hread.mpr ((Lines.extent_le_length newline _).trans (hend content hexited))

theorem calls_cases (hs : (system parse).Reachable s) :
    ∃ more, s.metrics.calls = Metrics.answers parse ((Lines.complete newline
        (s.metrics.content.take s.metrics.reader.offset)).take recordLimit) ++ more ∧
      ((Lines.complete newline (s.metrics.content.take s.metrics.reader.offset)).length <
        recordLimit → more = []) := by
  rcases (following hs).knows with reading | stopped
  · have hbelow := reading.below
    rw [reading.records] at hbelow
    refine ⟨[], ?_, fun _ => rfl⟩
    rw [List.take_of_length_le hbelow.le, List.append_nil, reading.calls]
  · exact ⟨_, stopped.calls, fun hshort => absurd stopped.lines (Nat.not_le.mpr hshort)⟩

theorem handedOver_filled (hs : (system parse).Reachable s) (hphase : s.phase = .flushing)
    (hexited : s.exited = some content) :
    HandedOver parse ((due content).filter Metrics.filled) s.metrics.calls ↔
      ∀ i (hi : i < (due content).length), (due content)[i] ≠ [] →
        Lines.extent newline (i + 1) content ≤ s.finalStart + pollBudget := by
  obtain ⟨later, hlater⟩ := (supervised_reachable hs).grows content hexited
  have hdue : due content <+: Lines.complete newline s.metrics.content := by
    rw [← hlater]
    exact (List.take_prefix _ _).trans (Lines.complete_prefix newline content later)
  have hread : Lines.complete newline (s.metrics.content.take s.metrics.reader.offset) <+:
      Lines.complete newline s.metrics.content := by
    have hmore := Lines.complete_prefix newline
      (s.metrics.content.take s.metrics.reader.offset)
      (s.metrics.content.drop s.metrics.reader.offset)
    rwa [List.take_append_drop] at hmore
  rw [handedOver_iff hdue hread (List.length_take_le _ _) (calls_cases hs)]
  exact forall₂_congr fun i hi => imp_congr_right fun _ => reaches hs hphase hexited hi

theorem handedOver_due (hs : (system parse).Reachable s) (hphase : s.phase = .flushing)
    (hexited : s.exited = some content) :
    HandedOver parse (due content) s.metrics.calls ↔ (∀ line ∈ due content, line ≠ []) ∧
      Lines.extent newline (due content).length content ≤ s.finalStart + pollBudget := by
  have hiff := handedOver_filled hs hphase hexited
  have hall (hne : ∀ line ∈ due content, line ≠ []) :
      (due content).filter Metrics.filled = due content :=
    List.filter_eq_self.mpr fun line hline => Metrics.filled_iff.mpr (hne line hline)
  constructor
  · intro handed
    have hne := handed.nonempty
    rw [hall hne] at hiff
    refine ⟨hne, ?_⟩
    cases hcount : (due content).length with
    | zero => simp [Lines.extent]
    | succ n => exact hiff.mp handed n (by omega) (hne _ (List.getElem_mem _))
  · rintro ⟨hne, hbudget⟩
    rw [hall hne] at hiff
    exact hiff.mpr fun i hi _ => (Lines.extent_mono newline hi _).trans hbudget

/-- Before `flush` is called, all lines of the metrics file at the exit of the child, up to the
limit, have been handed over exactly when they end within one poll of where the final poll
started and none is empty. Without the empty lines it is the lines with content that have to end
there. -/
theorem final_poll (parse : Bytes → Json.Access (Json Number)) {s : State} {content : Bytes}
    (hs : (system parse).Reachable s) (hphase : s.phase = .flushing)
    (hexited : s.exited = some content) :
    (HandedOver parse (due content) s.metrics.calls ↔ (∀ line ∈ due content, line ≠ []) ∧
      Lines.extent newline (due content).length content ≤ s.finalStart + pollBudget) ∧
    (HandedOver parse ((due content).filter Metrics.filled) s.metrics.calls ↔
      ∀ i (hi : i < (due content).length), (due content)[i] ≠ [] →
        Lines.extent newline (i + 1) content ≤ s.finalStart + pollBudget) :=
  ⟨handedOver_due hs hphase hexited, handedOver_filled hs hphase hexited⟩

/-- One line is written while the first poll waits, and the child exits. -/
def lateEvents (content : Bytes) : List Act :=
  [.poll, .read, .returned, .append content, .exit, .check, .finalize]

def lateState (content : Bytes) : State where
  metrics := { content := content, batches := pollBatches }
  phase := .finalizing
  exited := some content

theorem lateState_reachable (content : Bytes) :
    (system parse).Reachable (lateState content) := by
  have hreplay : (system parse).replay (fun _ _ => true) {} (lateEvents content) =
      some (lateState content) := rfl
  exact System.replay_reachable hreplay

/-- The final poll returns. -/
theorem completes (hphase : s.phase = .finalizing) : ∃ s', (system parse).Later s s' ∧
    s'.phase = .flushing ∧ s'.exited = s.exited ∧ s'.finalStart = s.finalStart := by
  generalize hbatches : s.metrics.batches = batches
  induction batches using Nat.strong_induction_on generalizing s with
  | _ batches ih =>
    by_cases hidle : s.metrics.batches = 0
    · refine ⟨{ s with phase := .flushing }, .single (e := .returned) trivial ?_, rfl, rfl, rfl⟩
      change (if s.metrics.batches = 0 then _ else _) = _
      rw [if_pos hidle, hphase]
    · have hread : ∃ metrics, Metrics.step parse s.metrics .read = some metrics ∧
          metrics.batches < s.metrics.batches := by
        rw [Metrics.step, if_neg hidle]
        refine ⟨_, rfl, ?_⟩
        dsimp only
        split <;> omega
      obtain ⟨metrics, hstep, hless⟩ := hread
      have hnext : (system parse).step s .read = some { s with metrics := metrics } := by
        change (Metrics.step parse s.metrics .read).map _ = _
        rw [hstep]
        rfl
      obtain ⟨s', run, hdone⟩ := ih metrics.batches (hbatches ▸ hless)
        (s := { s with metrics := metrics }) hphase rfl
      have first : (system parse).Later s { s with metrics := metrics } := .single trivial hnext
      exact ⟨s', first.trans run, hdone⟩

theorem final_poll_within : ∃ s, (system Metrics.sampleParse).Reachable s ∧
    s.phase = .flushing ∧ s.exited = some (utf8 "oops\n") ∧
    HandedOver Metrics.sampleParse (due (utf8 "oops\n")) s.metrics.calls := by
  have start : (system Metrics.sampleParse).Reachable (lateState (utf8 "oops\n")) :=
    lateState_reachable _
  obtain ⟨s, run, hphase, hexited, hstart⟩ := completes (s := lateState (utf8 "oops\n")) rfl
  have hs := start.later run
  refine ⟨s, hs, hphase, hexited, ((final_poll _ hs hphase hexited).1).mpr ?_⟩
  rw [hstart]
  decide +kernel

/-- A line of the greatest length that a metric line may have. -/
def longLine : Bytes := List.replicate lineLimit 120

theorem complete_longLine : Lines.complete newline (longLine ++ [newline]) = [longLine] := by
  have hnone : newline ∉ longLine := by
    intro hmem
    cases List.eq_of_mem_replicate hmem
  obtain ⟨hcomplete, hrest⟩ := Lines.of_notMem newline hnone
  rw [(Lines.snoc_sep newline longLine).1, hcomplete, hrest]
  rfl

theorem final_poll_short : ∃ s, (system Metrics.sampleParse).Reachable s ∧
    s.phase = .flushing ∧ s.exited = some (longLine ++ [newline]) ∧
    due (longLine ++ [newline]) = [longLine] ∧
    ¬ HandedOver Metrics.sampleParse (due (longLine ++ [newline])) s.metrics.calls := by
  have start : (system Metrics.sampleParse).Reachable (lateState (longLine ++ [newline])) :=
    lateState_reachable _
  obtain ⟨s, run, hphase, hexited, hstart⟩ :=
    completes (s := lateState (longLine ++ [newline])) rfl
  have hs := start.later run
  have hdue : due (longLine ++ [newline]) = [longLine] := by
    rw [due, complete_longLine]
    rfl
  refine ⟨s, hs, hphase, hexited, hdue, fun handed => ?_⟩
  have hwithin := ((handedOver_due hs hphase hexited).mp handed).2
  rw [hdue, hstart, Lines.extent, complete_longLine] at hwithin
  have hlength : longLine.length = lineLimit := List.length_replicate
  simp [hlength, lateState, pollBudget, pollBatches, bufferSize, lineLimit] at hwithin

end Runs

end FinalPoll

end Runyard
