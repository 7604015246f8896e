import Runyard.Ledger.Aside
import Runyard.Run.Fencing

/-!
# Quotas of artifacts

`publish_artifact` asks for an earlier row of the path first, for the quotas second and inserts
last. What it keeps along all runs in which no artifact is larger than the service lets pass.
-/

namespace Runyard

def Db.artifactsOf (db : Db) (attempt : String) : List Artifact :=
  db.artifacts.filter fun f => f.attemptId = attempt

def totalSize (rows : List Artifact) : Nat := (rows.map (·.size)).sum

section Publish

variable {now : Int} {value : Artifact} {generation : Int} {caller : String} {db db' : Db}

/-- A publication passes the ownership test and finds its run finalizing. -/
def Admits (now : Int) (value : Artifact) (generation : Int) (caller : String) (db : Db) : Prop :=
  ∃ a, owned now value.attemptId generation caller db = .ok a ∧ a.run.status = .finalizing

/-- What lets a publication insert its row. -/
structure Inserts (value : Artifact) (db db' : Db) : Prop where
  fresh : ∀ f ∈ db.artifacts, f.attemptId = value.attemptId → f.path ≠ value.path
  room : (totalSize (db.artifactsOf value.attemptId) + value.size) % 2 ^ 64 ≤ 1024 * 1024 * 1024
  count : (db.artifactsOf value.attemptId).length < 1000
  rows : db'.artifacts = db.artifacts ++ [value]

theorem publishArtifact_ok {result : Artifact}
    (h : publishArtifact now value generation caller db = .ok (db', result)) :
    Admits now value generation caller db ∧
    (db' = db ∧ result ∈ db.artifactsOf value.attemptId ∧ result.path = value.path ∧
        result.sha256 = value.sha256 ∧ result.size = value.size ∨
      result = value ∧ Inserts value db db') := by
  simp only [publishArtifact, Result.bind_ok, Result.throwIf_ok] at h
  obtain ⟨a, howned, _, hstatus, h⟩ := h
  refine ⟨⟨a, howned, by simpa using hstatus⟩, ?_⟩
  split at h
  next old found =>
    simp only [Result.bind_ok, Result.throwIf_ok, Result.pure_ok, Prod.mk.injEq] at h
    obtain ⟨_, same, rfl, rfl⟩ := h
    simp only [ne_eq, Bool.or_eq_true, decide_eq_true_eq, not_or, not_not] at same
    have path : old.path = value.path := by simpa using List.find?_some found
    exact .inl ⟨rfl, List.mem_of_find?_eq_some found, path, same.1, same.2⟩
  next none =>
    simp only [Result.bind_ok, Result.throwIf_ok, Result.pure_ok, Prod.mk.injEq, Bool.or_eq_true,
      decide_eq_true_eq, not_or, not_lt, not_le] at h
    obtain ⟨_, ⟨room, count⟩, db₂, inserted, rfl, rfl⟩ := h
    refine .inr ⟨rfl, ?_, room, count, congrArg Aside.artifacts (insertArtifact_aside inserted)⟩
    intro f hf hattempt hpath
    have absent := List.find?_eq_none.mp none f (by simpa using ⟨hf, hattempt⟩)
    simp [hpath] at absent

/-- The path is known: the answer does not depend on the quotas, and nothing is written. -/
theorem publishArtifact_known {old : Artifact}
    (keyed : Table.Keyed (fun f : Artifact => (f.attemptId, f.path)) db.artifacts)
    (known : old ∈ db.artifacts) (attempt : old.attemptId = value.attemptId)
    (path : old.path = value.path) (admits : Admits now value generation caller db) :
    (old.sha256 = value.sha256 → old.size = value.size →
      publishArtifact now value generation caller db = .ok (db, old)) ∧
    (old.sha256 ≠ value.sha256 ∨ old.size ≠ value.size →
      publishArtifact now value generation caller db =
        .error (.error .conflict "artifact path already contains different data")) := by
  obtain ⟨a, howned, hstatus⟩ := admits
  have found : (db.artifacts.filter fun f => f.attemptId = value.attemptId).find?
      (fun f => f.path = value.path) = some old := by
    cases found : (db.artifacts.filter fun f => f.attemptId = value.attemptId).find?
        (fun f => f.path = value.path) with
    | none =>
      have absent := List.find?_eq_none.mp found old (by simpa using ⟨known, attempt⟩)
      simp [path] at absent
    | some other =>
      have member : other ∈ db.artifacts ∧ other.attemptId = value.attemptId := by
        simpa using List.mem_of_find?_eq_some found
      have samePath : other.path = value.path := by simpa using List.find?_some found
      rw [keyed.eq member.1 known (by rw [member.2, samePath, attempt, path])]
  have gate : throwIf (a.run.status ≠ .finalizing) .conflict "artifacts require finalization" =
      .ok () := by
    rw [Result.throwIf_ok]
    simp [hstatus]
  constructor
  · intro sha256 size
    have same : throwIf (old.sha256 ≠ value.sha256 || old.size ≠ value.size) .conflict
        "artifact path already contains different data" = .ok () := by
      rw [Result.throwIf_ok]
      simp [sha256, size]
    simp only [publishArtifact, howned, bind, Except.bind, gate, found, same]
    rfl
  · intro other
    have differs : throwIf (old.sha256 ≠ value.sha256 || old.size ≠ value.size) .conflict
        "artifact path already contains different data" =
          .error (.error .conflict "artifact path already contains different data") := by
      rw [Result.throwIf_error]
      simpa using other
    simp only [publishArtifact, howned, bind, Except.bind, gate, found, differs]

end Publish

/-! ## Along a run -/

/-- What the rows of every attempt keep. -/
structure Quotas (db : Db) : Prop where
  keyed : Table.Keyed (fun f : Artifact => (f.attemptId, f.path)) db.artifacts
  count : ∀ attempt, (db.artifactsOf attempt).length ≤ 1000
  total : ∀ attempt, totalSize (db.artifactsOf attempt) ≤ 1024 * 1024 * 1024

theorem Quotas.congr {db db' : Db} (quotas : Quotas db) (same : db'.artifacts = db.artifacts) :
    Quotas db' := by
  have rows (attempt : String) : db'.artifactsOf attempt = db.artifactsOf attempt := by
    simp only [Db.artifactsOf, same]
  constructor
  · rw [same]
    exact quotas.keyed
  · intro attempt
    rw [rows]
    exact quotas.count attempt
  · intro attempt
    rw [rows]
    exact quotas.total attempt

/-- The sum that the quota test compares does not wrap around. -/
theorem Quotas.exact {db : Db} (quotas : Quotas db) (attempt : String) {size : Nat}
    (small : size ≤ 256 * 1024 * 1024) :
    totalSize (db.artifactsOf attempt) + size < 2 ^ 64 := by
  have total := quotas.total attempt
  omega

theorem Quotas.insert {value : Artifact} {db db' : Db} (quotas : Quotas db)
    (small : value.size ≤ 256 * 1024 * 1024) (inserts : Inserts value db db') : Quotas db' := by
  have rows (attempt : String) : db'.artifactsOf attempt =
      db.artifactsOf attempt ++ if value.attemptId = attempt then [value] else [] := by
    rw [Db.artifactsOf, inserts.rows, List.filter_append]
    by_cases own : value.attemptId = attempt
    · simp [Db.artifactsOf, own]
    · simp [Db.artifactsOf, own]
  constructor
  · rw [inserts.rows]
    apply quotas.keyed.append
    intro f hf same
    obtain ⟨attempt, path⟩ := Prod.mk.inj same
    exact inserts.fresh f hf attempt path
  · intro attempt
    have count := quotas.count attempt
    rw [rows]
    split
    next own =>
      have room := inserts.count
      rw [own] at room
      simp only [List.length_append, List.length_singleton]
      omega
    · simpa using count
  · intro attempt
    have total := quotas.total attempt
    rw [rows]
    split
    next own =>
      have room := inserts.room
      rw [Nat.mod_eq_of_lt (quotas.exact _ small), own] at room
      simpa [totalSize] using room
    · simpa [totalSize] using total

section Store

variable {p : PostgresStore}

/-- Every artifact that is published has passed the size check of the service. -/
def Inspected (e : PostgresStore.Event) : Prop :=
  ∀ value generation caller, e.op = .publishArtifact value generation caller →
    value.size ≤ 256 * 1024 * 1024

theorem commit_publications (now : Int) (op : Op) (db : Db) :
    (p.commit now op db).artifacts = db.artifacts ∨
    ∃ value generation caller, op = .publishArtifact value generation caller ∧
      Admits now value generation caller db ∧ Inserts value db (p.commit now op db) := by
  rcases p.commit_cases now op db with same | applied
  · exact .inl (congrArg Db.artifacts same)
  cases hop : op.publishes with
  | false => exact .inl (apply_artifacts hop applied)
  | true =>
    cases op with
    | publishArtifact value generation caller =>
      obtain ⟨⟨db', result⟩, published, same⟩ := Result.map_ok.mp applied
      dsimp only at same
      rw [← same]
      obtain ⟨admits, ⟨rfl, _⟩ | ⟨_, inserts⟩⟩ := publishArtifact_ok published
      · exact .inl rfl
      · exact .inr ⟨value, generation, caller, rfl, admits, inserts⟩
    | _ => cases hop

theorem quotas_reachable {s : PostgresStore.State}
    (run : p.system.Leads (fun _ e => Inspected e) p.system.init s) : Quotas s.db := by
  refine run.invariant (P := fun s => Quotas s.db) ?_ ?_
  · exact ⟨List.nodup_nil, fun _ => by simp [Db.artifactsOf, PostgresStore.system],
      fun _ => by simp [Db.artifactsOf, totalSize, PostgresStore.system]⟩
  · intro u e v quotas inspected h
    obtain ⟨_, rfl⟩ := p.step_eq h
    rcases commit_publications e.now e.op u.db with same | ⟨value, generation, caller, hop, _, ins⟩
    · exact quotas.congr same
    · exact quotas.insert (inspected value generation caller hop) ins

/-- The run and the attempt of a publication that is admitted. -/
theorem admitted {s : PostgresStore.State} (hs : p.system.Reachable s) {now : Int}
    {value : Artifact} {generation : Int} {caller : String}
    (admits : Admits now value generation caller s.db) :
    ∃ r ∈ s.db.runs, ∃ a ∈ s.db.attempts, a.id = value.attemptId ∧ r.activeAttempt = some a.id ∧
      r.status = .finalizing ∧ (∃ lease, a.leaseUntil = some lease ∧ now < lease) ∧
      ∃ deadline, a.finalizationDeadline = some deadline ∧ now < deadline := by
  obtain ⟨x, howned, status⟩ := admits
  have wf := (PostgresStore.reachable_wellFormed hs).toWellFormed
  obtain ⟨locked, owns, _⟩ := owned_ok wf howned
  obtain ⟨hr, ha⟩ := locked.history
  obtain ⟨coupled, phases⟩ := coupled_phased_reachable hs x.run hr
  have phased := phases x.attempt ha
  obtain ⟨agrees, phase⟩ := coupled.owned_status (Journal.history_proper wf x.run) ha owns
  have finalizing : x.attempt.status = .finalizing := by
    rcases phase with running | finalizing
    · have run : x.attempt.status.toRun = .finalizing := agrees.trans status
      rw [running] at run
      cases run
    · exact finalizing
  obtain ⟨lease, hlease⟩ := Option.isSome_iff_exists.mp (phased.leased phase)
  obtain ⟨deadline, hdeadline⟩ := Option.isSome_iff_exists.mp (phased.finalizing finalizing)
  refine ⟨x.run, hr, x.attempt, (Journal.mem_attemptsOf.mp ha).1, locked.same, owns.active, status,
    ⟨lease, hlease, ?_⟩, deadline, hdeadline, ?_⟩
  · simpa [AttemptRow.leaseValid, hlease] using owns.lease
  · simpa [AttemptRow.deadlineValid, AttemptRow.phaseDeadline, finalizing, hdeadline] using
      owns.deadline

/-- Quotas and distinct paths in every state; rows that were admitted when they were inserted;
publications of a known path, which write nothing; and sums that fit. -/
theorem artifact_quotas {s : PostgresStore.State}
    (run : p.system.Leads (fun _ e => Inspected e) p.system.init s) :
    (∀ attempt, (s.db.artifactsOf attempt).length ≤ 1000 ∧
      totalSize (s.db.artifactsOf attempt) ≤ 1024 * 1024 * 1024 ∧
      ((s.db.artifactsOf attempt).map (·.path)).Nodup) ∧
    (∀ row ∈ s.db.artifacts, ∃ u v now generation caller,
      p.system.Leads (fun _ e => Inspected e) p.system.init u ∧ row ∉ u.db.artifacts ∧
      p.system.step u ⟨now, .publishArtifact row generation caller⟩ = some v ∧
      row ∈ v.db.artifacts ∧ p.system.Leads (fun _ e => Inspected e) v s ∧
      ∃ r ∈ u.db.runs, ∃ a ∈ u.db.attempts, a.id = row.attemptId ∧ r.activeAttempt = some a.id ∧
        r.status = .finalizing ∧ (∃ lease, a.leaseUntil = some lease ∧ now < lease) ∧
        ∃ deadline, a.finalizationDeadline = some deadline ∧ now < deadline) ∧
    (∀ old ∈ s.db.artifacts, ∀ (now : Int) (value : Artifact) (generation : Int) (caller : String),
      old.attemptId = value.attemptId → old.path = value.path →
      p.commit now (.publishArtifact value generation caller) s.db = s.db ∧
      (old.sha256 = value.sha256 → old.size = value.size →
        Admits now value generation caller s.db →
          publishArtifact now value generation caller s.db = .ok (s.db, old)) ∧
      (old.sha256 ≠ value.sha256 ∨ old.size ≠ value.size →
        ∃ e, publishArtifact now value generation caller s.db = .error e)) ∧
    ∀ attempt size, size ≤ 256 * 1024 * 1024 →
      totalSize (s.db.artifactsOf attempt) + size < 2 ^ 64 := by
  have quotas := quotas_reachable run
  refine ⟨fun attempt => ⟨quotas.count attempt, quotas.total attempt, ?_⟩, ?_, ?_,
    fun attempt size small => quotas.exact attempt small⟩
  · have keys : ((s.db.artifactsOf attempt).map fun f => (f.attemptId, f.path)) =
        ((s.db.artifactsOf attempt).map (·.path)).map (Prod.mk attempt) := by
      rw [List.map_map]
      refine List.map_congr_left fun f hf => ?_
      have own : f.attemptId = attempt := by simpa using (List.mem_filter.mp hf).2
      simp [own]
    have distinct := quotas.keyed.filter fun f => f.attemptId = attempt
    rw [Table.Keyed] at distinct
    exact List.Nodup.of_map _ (keys ▸ distinct)
  · intro row hrow
    obtain ⟨u, ⟨now, op⟩, v, before, _, h, after, absent, present⟩ :=
      run.appears (P := fun s => row ∈ s.db.artifacts) (by simp [PostgresStore.system]) hrow
    obtain ⟨_, rfl⟩ := p.step_eq h
    dsimp only at present after h
    rcases commit_publications now op u.db with same | ⟨value, generation, caller, rfl, adm, ins⟩
    · rw [same] at present
      exact absurd present absent
    · have own : row = value := by simpa [ins.rows, absent] using present
      subst own
      exact ⟨u, _, now, generation, caller, before, absent, h, present, after,
        admitted before.later adm⟩
  · intro old known now value generation caller attempt path
    have repeated {result : Db × Artifact}
        (h : publishArtifact now value generation caller s.db = .ok (result.1, result.2)) :
        result.1 = s.db ∧ result.2 ∈ s.db.artifactsOf value.attemptId ∧
          result.2.path = value.path ∧ result.2.sha256 = value.sha256 ∧
          result.2.size = value.size := by
      rcases (publishArtifact_ok h).2 with found | ⟨_, inserts⟩
      · exact found
      · exact absurd path (inserts.fresh old known attempt)
    refine ⟨?_, fun sha256 size admits => ?_, fun differs => ?_⟩
    · rcases p.commit_cases now (.publishArtifact value generation caller) s.db with same | applied
      · exact same
      · obtain ⟨result, published, same⟩ := Result.map_ok.mp applied
        rw [← same]
        exact (repeated published).1
    · exact (publishArtifact_known quotas.keyed known attempt path admits).1 sha256 size
    · cases published : publishArtifact now value generation caller s.db with
      | error e => exact ⟨e, rfl⟩
      | ok result =>
        obtain ⟨_, member, samePath, sha256, size⟩ := repeated published
        have stored := List.mem_filter.mp member
        have sameAttempt : result.2.attemptId = value.attemptId := by simpa using stored.2
        have same := quotas.keyed.eq stored.1 known (by rw [sameAttempt, samePath, attempt, path])
        rw [same] at sha256 size
        exact absurd differs (by simp [sha256, size])

end Store

/-! ## An upload and its retransmission -/

namespace Sample

def uploaded : Artifact := ⟨"artifact", attemptId.text, "model.bin", "key", "checksum", 1048576⟩

def uploads : List PostgresStore.Event :=
  [⟨1, .submit runId spec "key" "fingerprint"⟩,
    ⟨2, .registerWorker "worker" "session" ⟨4000, 4096⟩ {}⟩,
    ⟨3, .assign attemptId [] "worker" "session"⟩, ⟨4, .start attemptId.text 1 "runner" ""⟩,
    ⟨5, .beginFinalization attemptId.text 1 "runner"⟩, ⟨6, .publishArtifact uploaded 1 "runner"⟩]

def inspected (e : PostgresStore.Event) : Bool :=
  match e.op with
  | .publishArtifact value _ _ => value.size ≤ 256 * 1024 * 1024
  | _ => true

theorem uploads_run : (store.system.replay (fun _ e => inspected e) store.system.init uploads).map
    (fun s => (s.db.artifacts,
      (owned 7 attemptId.text 1 "runner" s.db).toOption.map (·.run.status))) =
    some ([uploaded], some .finalizing) := by decide +kernel

end Sample

/-- The row is there, and the same upload again returns it. -/
theorem artifact_quotas_retransmitted :
    ∃ s, Sample.store.system.Leads (fun _ e => Inspected e) Sample.store.system.init s ∧
      s.db.artifacts = [Sample.uploaded] ∧
      publishArtifact 7 Sample.uploaded 1 "runner" s.db = .ok (s.db, Sample.uploaded) := by
  obtain ⟨s, replayed, facts⟩ := Option.map_eq_some_iff.mp Sample.uploads_run
  obtain ⟨rows, ownership⟩ := Prod.mk.inj facts
  have run : Sample.store.system.Leads (fun _ e => Inspected e) Sample.store.system.init s := by
    refine (System.replay_leads replayed).mono fun _ e ok value generation caller hop => ?_
    simpa [Sample.inspected, hop] using ok
  have admits : Admits 7 Sample.uploaded 1 "runner" s.db := by
    cases howned : owned 7 Sample.attemptId.text 1 "runner" s.db with
    | error e => simp [howned, Except.toOption] at ownership
    | ok a => exact ⟨a, howned, by simpa [howned, Except.toOption] using ownership⟩
  have known : Sample.uploaded ∈ s.db.artifacts := by
    rw [rows]
    exact List.mem_singleton_self _
  obtain ⟨_, _, again, _⟩ := artifact_quotas run
  exact ⟨s, run, rows, (again _ known 7 Sample.uploaded 1 "runner" rfl rfl).2.1 rfl rfl admits⟩

end Runyard
