import Runyard.Run.Retry
import Runyard.Ledger.Aside
import Mathlib.Logic.Relation

/-!
# The lineage of a run

`rerun` copies the specification of a run that is over and remembers this run as the parent. Runs
are inserted after their parents, so every run descends from one that was submitted.
-/

universe u v

/-- Rows that come after the rows they descend from. -/
inductive Planted {α : Type u} {κ : Type v} (key : α → κ) (parent : α → Option κ)
    (link : α → α → Prop) : List α → Prop where
  | nil : Planted key parent link []
  | append {rows : List α} {row : α} (rest : Planted key parent link rows)
      (rooted : ∀ k, parent row = some k → ∃ r ∈ rows, key r = k ∧ link r row) :
      Planted key parent link (rows ++ [row])

namespace Planted

variable {α : Type u} {κ : Type v} {key : α → κ} {parent : α → Option κ} {link : α → α → Prop}
  {rows more : List α}

/-- One generation up. -/
def Child (key : α → κ) (parent : α → Option κ) (link : α → α → Prop) (rows : List α)
    (row r : α) : Prop :=
  r ∈ rows ∧ parent row = some (key r) ∧ link r row

theorem appends (planted : Planted key parent link rows)
    (rooted : ∀ row ∈ more, ∀ k, parent row = some k → ∃ r ∈ rows, key r = k ∧ link r row) :
    Planted key parent link (rows ++ more) := by
  induction more using List.reverseRecOn with
  | nil => rwa [List.append_nil]
  | append_singleton more row ih =>
    rw [← List.append_assoc]
    refine .append (ih fun r hr => rooted r (List.mem_append_left _ hr)) fun k hk => ?_
    obtain ⟨r, hr, same, linked⟩ := rooted row (List.mem_append_right _ List.mem_cons_self) k hk
    exact ⟨r, List.mem_append_left _ hr, same, linked⟩

/-- Rows may be rewritten as long as the links stay. -/
theorem map {f : α → α} (planted : Planted key parent link rows)
    (keys : ∀ r ∈ rows, key (f r) = key r ∧ parent (f r) = parent r)
    (links : ∀ r ∈ rows, ∀ row ∈ rows, link r row → link (f r) (f row)) :
    Planted key parent link (rows.map f) := by
  induction planted with
  | nil => exact .nil
  | @append rows row _ rooted ih =>
    have last : row ∈ rows ++ [row] := List.mem_append_right _ List.mem_cons_self
    rw [List.map_append, List.map_singleton]
    refine .append (ih (fun r hr => keys r (List.mem_append_left _ hr)) fun r hr q hq =>
      links r (List.mem_append_left _ hr) q (List.mem_append_left _ hq)) fun k hk => ?_
    rw [(keys row last).2] at hk
    obtain ⟨r, hr, same, linked⟩ := rooted k hk
    have old := List.mem_append_left [row] hr
    exact ⟨f r, List.mem_map_of_mem hr, (keys r old).1.trans same, links r old row last linked⟩

/-- Every row descends from one without a parent. -/
theorem root (planted : Planted key parent link rows) : ∀ row ∈ rows, ∃ r ∈ rows,
    parent r = none ∧ Relation.ReflTransGen (Child key parent link rows) row r := by
  induction planted with
  | nil => simp
  | @append rows row rest rooted ih =>
    have wider : ∀ {a b}, Relation.ReflTransGen (Child key parent link rows) a b →
        Relation.ReflTransGen (Child key parent link (rows ++ [row])) a b :=
      fun path => Relation.ReflTransGen.mono
        (fun a b child => ⟨List.mem_append_left _ child.1, child.2⟩) _ _ path
    intro a ha
    rcases List.mem_append.mp ha with ha | ha
    · obtain ⟨r, hr, none, path⟩ := ih a ha
      exact ⟨r, List.mem_append_left _ hr, none, wider path⟩
    · obtain rfl := List.mem_singleton.mp ha
      cases hparent : parent a with
      | none => exact ⟨a, List.mem_append_right _ ha, hparent, .refl⟩
      | some k =>
        obtain ⟨q, hq, rfl, linked⟩ := rooted k hparent
        obtain ⟨r, hr, none, path⟩ := ih q hq
        exact ⟨r, List.mem_append_left _ hr, none,
          .head ⟨List.mem_append_left _ hq, hparent, linked⟩ (wider path)⟩

theorem rooted (planted : Planted key parent link rows) :
    ∀ row ∈ rows, ∀ k, parent row = some k → ∃ r ∈ rows, key r = k ∧ link r row := by
  induction planted with
  | nil => simp
  | append rest rooted ih =>
    intro a ha k hk
    rcases List.mem_append.mp ha with ha | ha
    · obtain ⟨r, hr, linked⟩ := ih a ha k hk
      exact ⟨r, List.mem_append_left _ hr, linked⟩
    · obtain rfl := List.mem_singleton.mp ha
      obtain ⟨r, hr, linked⟩ := rooted k hk
      exact ⟨r, List.mem_append_left _ hr, linked⟩

/-- No row descends from itself. -/
theorem acyclic (planted : Planted key parent link rows) (keyed : Table.Keyed key rows) :
    ∀ row, ¬ Relation.TransGen (Child key parent link rows) row row := by
  induction planted with
  | nil =>
    intro row cycle
    obtain ⟨r, -, child⟩ := Relation.TransGen.tail'_iff.mp cycle
    exact absurd child.1 List.not_mem_nil
  | @append rows row rest rooted ih =>
    have old : Table.Keyed key rows :=
      (List.Sublist.map key (List.sublist_append_left _ _)).nodup keyed
    -- parents are older, so that only the first step can start at the new row
    have up : ∀ {b c}, b ∈ rows ++ [row] → Child key parent link (rows ++ [row]) b c →
        c ∈ rows ∧ (b ∈ rows → Child key parent link rows b c) := by
      intro b c hb child
      have known : ∃ r ∈ rows, key r = key c ∧ link r b := by
        rcases List.mem_append.mp hb with hb | hb
        · exact rest.rooted b hb _ child.2.1
        · obtain rfl := List.mem_singleton.mp hb
          exact rooted _ child.2.1
      obtain ⟨r, hr, same, -⟩ := known
      obtain rfl := keyed.eq (List.mem_append_left _ hr) child.1 same
      exact ⟨hr, fun _ => ⟨hr, child.2⟩⟩
    have climbs : ∀ {b c}, b ∈ rows ++ [row] →
        Relation.TransGen (Child key parent link (rows ++ [row])) b c →
        c ∈ rows ∧ (b ∈ rows → Relation.TransGen (Child key parent link rows) b c) := by
      intro b c hb path
      induction path with
      | single child => exact ⟨(up hb child).1, fun hb' => .single ((up hb child).2 hb')⟩
      | tail _ child ih =>
        have above := up (List.mem_append_left _ ih.1) child
        exact ⟨above.1, fun hb' => (ih.2 hb').tail (above.2 ih.1)⟩
    intro a cycle
    obtain ⟨r, -, child⟩ := Relation.TransGen.tail'_iff.mp cycle
    have looped := climbs child.1 cycle
    exact ih old a (looped.2 looped.1)

end Planted

namespace Runyard

/-- What every later row of a run keeps. -/
structure RunRow.Kept (r r' : RunRow) : Prop where
  id : r'.id = r.id
  spec : r'.spec = r.spec
  parent : r'.parentRunId = r.parentRunId
  created : r'.createdAt = r.createdAt
  terminal : r.status.terminal → r'.status.terminal

namespace RunRow.Kept

variable {r r' r'' : RunRow}

theorem refl (r : RunRow) : r.Kept r := ⟨rfl, rfl, rfl, rfl, fun ended => ended⟩

theorem trans (first : r.Kept r') (second : r'.Kept r'') : r.Kept r'' :=
  ⟨second.id.trans first.id, second.spec.trans first.spec, second.parent.trans first.parent,
    second.created.trans first.created, fun ended => second.terminal (first.terminal ended)⟩

end RunRow.Kept

/-- The parent of a run is over, is not younger and has its specification. -/
def RunRow.Repeats (parent r : RunRow) : Prop :=
  parent.status.terminal ∧ parent.spec = r.spec ∧ parent.createdAt ≤ r.createdAt

theorem RunRow.Repeats.kept {q q' r r' : RunRow} (repeats : q.Repeats r) (parent : q.Kept q')
    (child : r.Kept r') : q'.Repeats r' := by
  obtain ⟨ended, spec, created⟩ := repeats
  refine ⟨parent.terminal ended, parent.spec.trans (spec.trans child.spec.symm), ?_⟩
  rw [parent.created, child.created]
  exact created

/-- Runs after their parents. -/
abbrev Db.Descended (db : Db) : Prop :=
  Planted (·.id) (·.parentRunId) RunRow.Repeats db.runs

section Rows

variable {p : PostgresStore} {now : Int} {l l' : Ledger} {op : Op}

theorem replace_kept {rows : List RunRow} (keyed : Table.Keyed (·.id) rows) {r r' : RunRow}
    (hr : r ∈ rows) (kept : r.Kept r') :
    ∃ f, Table.replace (·.id) r' rows = rows.map f ∧ ∀ q ∈ rows, q.Kept (f q) := by
  refine ⟨fun q => if q.id = r'.id then r' else q, by simp [Table.replace, Table.update], ?_⟩
  intro q hq
  dsimp only
  split
  next same =>
    obtain rfl := keyed.eq hq hr (same.trans kept.id)
    exact kept
  · exact .refl q

/-- What a transaction does to the runs: it rewrites some, or inserts others. -/
theorem Effect.runs_rewritten (effect : Effect p now l op l') (wf : l.WellFormed)
    (coupled : ∀ r ∈ l.runs, (l.history r).Coupled) :
    (∃ f, l'.runs = l.runs.map f ∧ ∀ r ∈ l.runs, r.Kept (f r)) ∨
    ∃ rows, l'.runs = l.runs ++ rows := by
  have unchanged : ∃ f, l.runs = l.runs.map f ∧ ∀ r ∈ l.runs, r.Kept (f r) :=
    ⟨id, (List.map_id _).symm, fun r _ => .refl r⟩
  cases effect with
  | same | stopped | removed | registered | reregistered | marked | discovered =>
    exact .inl unchanged
  | submitted => exact .inr ⟨_, rfl⟩
  | @moved _ r r' a a' events attempt run move =>
    obtain ⟨hr, hrun⟩ := Table.lookup_mem run
    have ha := Journal.mem_attemptsOf.mpr ⟨(Table.lookup_mem attempt).1, hrun.symm⟩
    have kept : r.Kept r' := by
      refine ⟨move.run_identity.id, move.run_identity.spec, ?_, ?_, fun ended => ?_⟩
      · cases move <;> rfl
      · cases move <;> rfl
      · have same := History.terminal_step (Journal.history_proper wf.toWellFormed r)
          (coupled r hr) ended (.moved ha move)
        exact same ▸ ended
    exact .inl (replace_kept wf.runs hr kept)
  | assigned _ _ chosen | admitted _ chosen =>
    have hr := (Table.lookup_mem chosen.run).1
    refine .inl (replace_kept wf.runs hr ⟨rfl, rfl, rfl, rfl, fun ended => ?_⟩)
    rw [chosen.queued] at ended
    cases ended
  | cancelled run unfinished =>
    have hr := (Table.lookup_mem run).1
    exact .inl (replace_kept wf.runs hr ⟨rfl, rfl, rfl, rfl, fun ended => absurd ended unfinished⟩)
  | requeued =>
    refine .inl ⟨fun r => if retryDue now r then (r.enter .queued).count now else r, rfl, ?_⟩
    intro r _
    dsimp only
    split
    next due =>
      simp only [retryDue, Bool.and_eq_true, decide_eq_true_eq] at due
      refine ⟨rfl, rfl, rfl, rfl, fun ended => ?_⟩
      rw [due.1] at ended
      cases ended
    · exact .refl r

end Rows

/-- A run that a request inserts. -/
structure RunRow.Born (rows : List RunRow) (now : Int) (r : RunRow) : Prop where
  created : r.createdAt = now
  parent : ∀ k, r.parentRunId = some k →
    ∃ q ∈ rows, q.id = k ∧ q.status.terminal ∧ q.spec = r.spec

section Requests

variable {p : PostgresStore} {now : Int} {db db' : Db}

theorem submit_runs {randomId : RandomId} {spec : RunSpec} {key fingerprint : String} {x : RunRow}
    (h : submit now randomId spec key fingerprint db = .ok (db', x)) :
    db' = db ∨ db'.runs = db.runs ++ [(newRun now randomId spec).count now] := by
  obtain ⟨_, _, h⟩ := Result.bind_ok.mp h
  split at h
  · simp only [Result.bind_ok] at h
    obtain ⟨_, _, h⟩ := h
    split at h
    · cases h
    · cases h
      exact .inl rfl
  · simp only [Result.bind_ok, Result.pure_ok, Prod.mk.injEq] at h
    obtain ⟨db₁, hrun, db₂, hsubmission, db₃, hevent, rfl, _⟩ := h
    obtain ⟨fresh, rfl⟩ := insertRun_ok hrun
    have written := event_inserted fresh (insertSubmission_ledger hsubmission) hevent
    exact .inr (by rw [written])

theorem insertSweepRuns_runs {sweep : String} {randomId : Nat → RandomId} {i : Nat}
    {specs : List RunSpec} (h : insertSweepRuns now sweep randomId i specs db = .ok db') :
    ∃ rows, db'.runs = db.runs ++ rows ∧
      ∀ r ∈ rows, r.createdAt = now ∧ r.parentRunId = none := by
  induction specs generalizing i db with
  | nil =>
    cases h
    exact ⟨[], (List.append_nil _).symm, by simp⟩
  | cons spec rest ih =>
    simp only [insertSweepRuns, Result.bind_ok] at h
    obtain ⟨_, _, db₁, hrun, db₂, hevent, hrest⟩ := h
    obtain ⟨fresh, rfl⟩ := insertRun_ok hrun
    have written := event_inserted fresh rfl hevent
    obtain ⟨rows, hrows, new⟩ := ih hrest
    have first : db₂.runs = db.runs ++ [RunRow.count { newRun now (randomId i) spec with
        sweepId := some sweep } now] := by rw [written]
    refine ⟨_ :: rows, by rw [hrows, first, List.append_assoc, List.singleton_append], ?_⟩
    intro r hr
    rcases List.mem_cons.mp hr with rfl | hr
    · exact ⟨rfl, rfl⟩
    · exact new r hr

theorem submitSweep_runs {randomId : Nat → RandomId} {spec : SweepSpec} {runs : List RunSpec}
    {key fingerprint : String} {x : Sweep}
    (h : submitSweep now randomId spec runs key fingerprint db = .ok (db', x)) :
    ∃ rows, db'.runs = db.runs ++ rows ∧
      ∀ r ∈ rows, r.createdAt = now ∧ r.parentRunId = none := by
  rw [submitSweep] at h
  split at h
  · simp only [Result.bind_ok, Result.pure_ok, Prod.mk.injEq] at h
    obtain ⟨_, _, _, _, rfl, _⟩ := h
    exact ⟨[], (List.append_nil _).symm, by simp⟩
  · simp only [Result.bind_ok, Result.pure_ok, Prod.mk.injEq] at h
    obtain ⟨db₁, hsweep, db₂, hruns, _, _, rfl, _⟩ := h
    have unchanged := insertSweep_ledger hsweep
    obtain ⟨rows, hrows, new⟩ := insertSweepRuns_runs hruns
    exact ⟨rows, by rw [hrows, unchanged], new⟩

theorem rerun_runs {randomId : RandomId} {sha256 : String → String} {id key : String} {x : RunRow}
    (h : rerun now randomId sha256 id key db = .ok (db', x)) :
    db' = db ∨ ∃ old ∈ db.runs, old.id = id ∧ old.status.terminal ∧ db'.runs = db.runs ++
      [RunRow.count { newRun now randomId old.spec with parentRunId := some id } now] := by
  rw [rerun] at h
  split at h
  · simp only [Result.bind_ok] at h
    obtain ⟨_, _, h⟩ := h
    split at h
    · cases h
    · cases h
      exact .inl rfl
  · split at h
    · cases h
    · next old hold =>
      simp only [Result.bind_ok, Result.pure_ok, Prod.mk.injEq, Result.throwIf_ok] at h
      obtain ⟨_, ended, _, _, db₁, hrun, db₂, hsubmission, db₃, hevent, rfl, _⟩ := h
      obtain ⟨fresh, rfl⟩ := insertRun_ok hrun
      have written := event_inserted fresh (insertSubmission_ledger hsubmission) hevent
      obtain ⟨hmem, hid⟩ := Table.lookup_mem hold
      exact .inr ⟨old, hmem, hid, by simpa using ended, by rw [written]⟩

theorem born_none : ∃ rows, db.runs = db.runs ++ rows ∧ ∀ r ∈ rows, r.Born db.runs now :=
  ⟨[], (List.append_nil _).symm, by simp⟩

/-- Every transaction rewrites runs or inserts runs with their parents. -/
theorem apply_runs {op : Op} (wf : db.toLedger.WellFormed)
    (coupled : ∀ r ∈ db.runs, (db.history r).Coupled) (h : p.apply now op db = .ok db') :
    (∃ f, db'.runs = db.runs.map f ∧ ∀ r ∈ db.runs, r.Kept (f r)) ∨
    ∃ rows, db'.runs = db.runs ++ rows ∧ ∀ r ∈ rows, r.Born db.runs now := by
  cases hop : op.requests with
  | false =>
    obtain ⟨births, -, -⟩ := apply_requests hop h
    rcases (apply_effect wf h).runs_rewritten wf coupled with rewritten | ⟨rows, hrows⟩
    · exact .inl rewritten
    · have lengths := congrArg List.length births
      have grown := congrArg List.length hrows
      simp only [Db.births, List.length_map, List.length_append] at lengths grown
      obtain rfl : rows = [] := List.length_eq_zero_iff.mp (by omega)
      exact .inr ⟨[], hrows, by simp⟩
  | true =>
    cases op with
    | submit =>
      obtain ⟨⟨db₁, x⟩, hcall, rfl⟩ := Result.map_ok.mp h
      rcases submit_runs hcall with same | hrows
      · exact .inr (same ▸ born_none)
      · refine .inr ⟨_, hrows, fun r hr => ?_⟩
        obtain rfl := List.mem_singleton.mp hr
        exact ⟨rfl, fun k hk => by cases hk⟩
    | submitSweep =>
      obtain ⟨⟨db₁, x⟩, hcall, rfl⟩ := Result.map_ok.mp h
      obtain ⟨rows, hrows, new⟩ := submitSweep_runs hcall
      refine .inr ⟨rows, hrows, fun r hr => ⟨(new r hr).1, fun k hk => ?_⟩⟩
      rw [(new r hr).2] at hk
      cases hk
    | rerun =>
      obtain ⟨⟨db₁, x⟩, hcall, rfl⟩ := Result.map_ok.mp h
      rcases rerun_runs hcall with same | ⟨old, hold, hid, ended, hrows⟩
      · exact .inr (same ▸ born_none)
      · refine .inr ⟨_, hrows, fun r hr => ?_⟩
        obtain rfl := List.mem_singleton.mp hr
        exact ⟨rfl, fun k hk => ⟨old, hold, hid.trans (Option.some.inj hk), ended, rfl⟩⟩
    | _ => cases hop

theorem apply_kept {op : Op} (wf : db.toLedger.WellFormed)
    (coupled : ∀ r ∈ db.runs, (db.history r).Coupled) (h : p.apply now op db = .ok db') :
    ∀ r ∈ db.runs, ∃ r' ∈ db'.runs, r.Kept r' := by
  intro r hr
  rcases apply_runs wf coupled h with ⟨f, hruns, kept⟩ | ⟨rows, hruns, -⟩
  · refine ⟨f r, ?_, kept r hr⟩
    rw [hruns]
    exact List.mem_map_of_mem hr
  · refine ⟨r, ?_, .refl r⟩
    rw [hruns]
    exact List.mem_append_left _ hr

end Requests

section Runs

variable {p : PostgresStore} {s s' : PostgresStore.State}

/-- Runs come after their parents, and none is from the future. -/
structure PostgresStore.State.Rooted (s : PostgresStore.State) : Prop where
  descended : s.db.Descended
  past : ∀ r ∈ s.db.runs, r.createdAt ≤ s.clock

theorem PostgresStore.rooted_reachable (hs : p.system.Reachable s) : s.Rooted := by
  refine System.Leads.stable System.reachable_init hs ⟨.nil, by simp [system]⟩ ?_
  intro s e s' hs rooted _ h
  obtain ⟨hclock, rfl⟩ := p.step_eq h
  have later : ∀ r ∈ s.db.runs, r.createdAt ≤ e.now :=
    fun r hr => (rooted.past r hr).trans hclock
  rcases p.commit_cases e.now e.op s.db with same | committed
  · rw [same]
    exact ⟨rooted.descended, later⟩
  · rcases apply_runs (PostgresStore.reachable_wellFormed hs) (coupled_reachable hs) committed with
      ⟨f, hruns, kept⟩ | ⟨rows, hruns, born⟩
    · refine ⟨?_, fun r hr => ?_⟩
      · change Planted _ _ _ (p.commit e.now e.op s.db).runs
        rw [hruns]
        exact rooted.descended.map (fun r hr => ⟨(kept r hr).id, (kept r hr).parent⟩)
          fun q hq r hr repeats => repeats.kept (kept q hq) (kept r hr)
      · rw [hruns] at hr
        obtain ⟨q, hq, rfl⟩ := List.mem_map.mp hr
        exact (kept q hq).created ▸ later q hq
    · refine ⟨?_, fun r hr => ?_⟩
      · change Planted _ _ _ (p.commit e.now e.op s.db).runs
        rw [hruns]
        refine rooted.descended.appends fun r hr k hk => ?_
        obtain ⟨q, hq, hid, ended, spec⟩ := (born r hr).parent k hk
        exact ⟨q, hq, hid, ended, spec, (born r hr).created ▸ later q hq⟩
      · rw [hruns] at hr
        rcases List.mem_append.mp hr with hr | hr
        · exact later r hr
        · exact (born r hr).created.le

theorem PostgresStore.kept_later (hs : p.system.Reachable s) (later : p.system.Later s s') :
    ∀ r ∈ s.db.runs, ∃ r' ∈ s'.db.runs, r.Kept r' := by
  refine later.relation hs (R := fun s s' => ∀ r ∈ s.db.runs, ∃ r' ∈ s'.db.runs, r.Kept r') ?_ ?_ ?_
  · exact fun s r hr => ⟨r, hr, .refl r⟩
  · intro s₁ s₂ s₃ first second r hr
    obtain ⟨r₂, hr₂, kept₂⟩ := first r hr
    obtain ⟨r₃, hr₃, kept₃⟩ := second r₂ hr₂
    exact ⟨r₃, hr₃, kept₂.trans kept₃⟩
  · intro s e s' hs _ h r hr
    obtain ⟨-, rfl⟩ := p.step_eq h
    rcases p.commit_cases e.now e.op s.db with same | committed
    · exact ⟨r, by rwa [same], .refl r⟩
    · exact apply_kept (PostgresStore.reachable_wellFormed hs) (coupled_reachable hs) committed r hr

/-- The run of which `r` is a rerun. -/
def Db.Parent (db : Db) (r parent : RunRow) : Prop :=
  parent ∈ db.runs ∧ r.parentRunId = some parent.id ∧ parent.Repeats r

/-- Every run descends, through runs that are over, not younger and have its specification,
from one that was submitted; none descends from itself; and all of this stays. -/
theorem rerun_lineage (p : PostgresStore) {s : PostgresStore.State}
    (hs : p.system.Reachable s) :
    (∀ r ∈ s.db.runs,
      (∃ root ∈ s.db.runs, root.parentRunId = none ∧ root.spec = r.spec ∧
        Relation.ReflTransGen s.db.Parent r root) ∧
      ¬ Relation.TransGen s.db.Parent r r ∧
      ∀ k, r.parentRunId = some k → ∃! parent, s.db.Parent r parent) ∧
    ∀ s', p.system.Later s s' →
      ∀ r ∈ s.db.runs, ∃ r' ∈ s'.db.runs, r.Kept r' := by
  have descended := (PostgresStore.rooted_reachable hs).descended
  have keyed := (PostgresStore.reachable_wellFormed hs).runs
  refine ⟨fun r hr => ⟨?_, descended.acyclic keyed r, fun k hk => ?_⟩,
    fun s' later => PostgresStore.kept_later hs later⟩
  · obtain ⟨root, hroot, none, path⟩ := descended.root r hr
    refine ⟨root, hroot, none, ?_, path⟩
    clear none hroot
    induction path with
    | refl => rfl
    | tail _ child ih => exact child.2.2.2.1.trans ih
  · obtain ⟨q, hq, rfl, repeats⟩ := descended.rooted r hr k hk
    refine ⟨q, ⟨hq, hk, repeats⟩, fun q' child => ?_⟩
    exact keyed.eq child.1 hq (Option.some.inj (child.2.1.symm.trans hk))

end Runs

namespace Sample

def cancelled : PostgresStore.State := ⟨store.commit 5 (.cancel runId.text) started.db, 5⟩

def rerun : PostgresStore.State :=
  ⟨store.commit 6 (.rerun nextId runId.text "again") cancelled.db, 6⟩

theorem rerun_reachable : store.system.Reachable rerun :=
  store.reachable_commit (store.reachable_commit started_reachable _ (by decide)) _ (by decide)

end Sample

theorem rerun_lineage_once : ∃ r ∈ Sample.rerun.db.runs, r.parentRunId = some Sample.runId.text ∧
    ∃ root ∈ Sample.rerun.db.runs, root.parentRunId = none ∧ root.spec = r.spec := by
  have child : ∃ r ∈ Sample.rerun.db.runs, r.parentRunId = some Sample.runId.text := by
    decide +kernel
  obtain ⟨r, hr, hparent⟩ := child
  obtain ⟨⟨root, hroot, none, spec, -⟩, -⟩ :=
    (rerun_lineage Sample.store Sample.rerun_reachable).1 r hr
  exact ⟨r, hr, hparent, root, hroot, none, spec⟩

end Runyard
