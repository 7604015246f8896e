import Runyard.Artifacts.Service
import Runyard.Ledger.Aside

/-!
# Artifact integrity

A row is visible only when the store holds the bytes it describes. Two files share a storage key
only when they have the same digest, so that no upload can change the content of another row.
-/

namespace Runyard

namespace ArtifactService

/-- The bytes of a row are stored under its key, which ends with their digest. -/
def Backed (c : ArtifactService) (blobs : String → Option Bytes) (row : Artifact) : Prop :=
  ∃ bytes before, blobs row.storageKey = some bytes ∧
    row.storageKey = before ++ "-" ++ c.digest bytes ∧ row.sha256 = c.digest bytes ∧
    row.size = bytes.length

/-- What holds between the tables, the blobs and the calls. -/
structure Integral (c : ArtifactService) (files : String → Option Bytes) (s : State) : Prop where
  keyed : Table.Keyed (·.id) s.store.db.artifacts
  backed : ∀ row ∈ s.store.db.artifacts, Backed c s.blobs row
  uploaded : ∀ (n : Nat) (call : Publish), s.publishes[n]? = some call → call.stage = .stored →
    s.blobs (c.artifact call).storageKey = some call.file
  inserted : s.store.db.artifacts = s.inserted.map (·.2)
  returned : ∀ (n : Nat) (row : Artifact), (n, row) ∈ s.inserted →
    ∃ call, s.publishes[n]? = some call ∧ call.stage = .returned row
  cached : ∀ id bytes, s.files id = some bytes → files id = some bytes ∨
    ∃ row ∈ s.store.db.artifacts, row.id = id ∧ c.verified row bytes
  known : ∀ d ∈ s.downloads, d.artifact ∈ s.store.db.artifacts
  served : ∀ d ∈ s.downloads, d.stage = .returned →
    ∃ bytes, s.files d.artifact.id = some bytes ∧ c.verified d.artifact bytes

section Keys

variable {c : ArtifactService} {blobs : String → Option Bytes} {row : Artifact}

theorem takeWhile_key (before : List Char) {digest : List Char} (h : '-' ∉ digest) :
    (before ++ ['-'] ++ digest).reverse.takeWhile (· ≠ '-') = digest.reverse := by
  have hpass : ∀ ch ∈ digest.reverse, decide (ch ≠ '-') = true := by
    intro ch hch
    refine decide_eq_true ?_
    rintro rfl
    exact h (List.mem_reverse.mp hch)
  rw [List.reverse_append, List.reverse_append, List.takeWhile_append_of_pos hpass]
  simp

theorem digest_plain (c : ArtifactService) (bytes : Bytes) : '-' ∉ (c.digest bytes).toList :=
  fun h => absurd (c.hex bytes '-' h) (by decide)

/-- The digest is what follows the last `-` of a storage key. -/
theorem bytes_of_key {before before' : String} {a b : Bytes}
    (h : before ++ "-" ++ c.digest a = before' ++ "-" ++ c.digest b) : a = b := by
  have hlists := congrArg String.toList h
  simp only [String.toList_append] at hlists
  have hdash : "-".toList = ['-'] := by decide
  rw [hdash] at hlists
  have hdigests := takeWhile_key before.toList (digest_plain c a)
  rw [hlists, takeWhile_key before'.toList (digest_plain c b)] at hdigests
  exact (c.injective (String.toList_inj.mp (List.reverse_inj.mp hdigests))).symm

theorem Backed.write (backed : Backed c blobs row) (call : Publish) :
    Backed c (Function.update blobs (c.artifact call).storageKey (some call.file)) row := by
  obtain ⟨bytes, before, hblob, hkey, hsum, hsize⟩ := backed
  refine ⟨bytes, before, ?_, hkey, hsum, hsize⟩
  by_cases hsame : row.storageKey = (c.artifact call).storageKey
  · have hfile : bytes = call.file := bytes_of_key (hkey.symm.trans hsame)
    rw [hsame, Function.update_self, hfile]
  · rw [Function.update_of_ne hsame, hblob]

theorem backed_artifact {call : Publish}
    (h : blobs (c.artifact call).storageKey = some call.file) : Backed c blobs (c.artifact call) :=
  ⟨call.file, _, h, rfl, rfl, rfl⟩

end Keys

section Steps

variable {c : ArtifactService} {files : String → Option Bytes} {s s' : State}

theorem publishAt_some {n : Nat} {stage : PublishStage} {call : Publish}
    (h : s.publishAt n stage = some call) : s.publishes[n]? = some call ∧ call.stage = stage := by
  obtain ⟨hget, hstage⟩ := Option.filter_eq_some_iff.mp h
  exact ⟨hget, of_decide_eq_true hstage⟩

theorem downloadAt_some {n : Nat} {stage : DownloadStage} {d : Download}
    (h : s.downloadAt n stage = some d) : s.downloads[n]? = some d ∧ d.stage = stage := by
  obtain ⟨hget, hstage⟩ := Option.filter_eq_some_iff.mp h
  exact ⟨hget, of_decide_eq_true hstage⟩

/-- A transaction that leaves the table of artifacts alone. -/
theorem Integral.execute (integral : Integral c files s) {now : Int} {op : Op}
    (h : (c.store.commit now op s.store.db).artifacts = s.store.db.artifacts) :
    Integral c files (c.execute now op s) where
  keyed := by rw [ArtifactService.execute, h]; exact integral.keyed
  backed := by rw [ArtifactService.execute, h]; exact integral.backed
  uploaded := integral.uploaded
  inserted := by rw [ArtifactService.execute, h]; exact integral.inserted
  returned := integral.returned
  cached := by rw [ArtifactService.execute, h]; exact integral.cached
  known := by rw [ArtifactService.execute, h]; exact integral.known
  served := integral.served

theorem Integral.write (integral : Integral c files s) (call : Publish) :
    Integral c files (s.write (c.artifact call).storageKey call.file) where
  keyed := integral.keyed
  backed row hrow := (integral.backed row hrow).write call
  uploaded n other hget hstage := by
    have hblob := integral.uploaded n other hget hstage
    change Function.update s.blobs _ _ _ = _
    by_cases hsame : (c.artifact other).storageKey = (c.artifact call).storageKey
    · have hfile : other.file = call.file := bytes_of_key hsame
      rw [hsame, Function.update_self, hfile]
    · rw [Function.update_of_ne hsame, hblob]
  inserted := integral.inserted
  returned := integral.returned
  cached := integral.cached
  known := integral.known
  served := integral.served

/-- A call that is under way moves on; what is stored is there. -/
theorem Integral.advance (integral : Integral c files s) {n : Nat} {call : Publish}
    {stage : PublishStage} (hcall : s.publishes[n]? = some call)
    (pending : ∀ row, call.stage ≠ .returned row)
    (blob : stage = .stored → s.blobs (c.artifact call).storageKey = some call.file) :
    Integral c files (s.advance n stage) where
  keyed := integral.keyed
  backed := integral.backed
  uploaded m other hget hstage := by
    rw [State.advance, List.getElem?_modify] at hget
    by_cases hm : n = m
    · subst hm
      rw [hcall] at hget
      simp only [if_true, Option.map_eq_map, Option.map_some, Option.some.injEq] at hget
      subst hget
      exact blob hstage
    · simp only [hm, if_false, Option.map_eq_map, Option.map_id'] at hget
      exact integral.uploaded m other hget hstage
  inserted := integral.inserted
  returned m row hmem := by
    obtain ⟨other, hget, hstage⟩ := integral.returned m row hmem
    have hne : n ≠ m := by
      rintro rfl
      rw [hcall] at hget
      cases hget
      exact pending row hstage
    refine ⟨other, ?_, hstage⟩
    rw [State.advance, List.getElem?_modify]
    simpa [hne] using hget
  cached := integral.cached
  known := integral.known
  served := integral.served

theorem Integral.proceed (integral : Integral c files s) {n : Nat} {d : Download}
    {stage : DownloadStage} (hd : s.downloads[n]? = some d)
    (file : stage = .returned →
      ∃ bytes, s.files d.artifact.id = some bytes ∧ c.verified d.artifact bytes) :
    Integral c files (s.proceed n stage) := by
  have hmem : ∀ d' ∈ (s.proceed n stage).downloads,
      d' ∈ s.downloads ∨ d' = { d with stage := stage } := by
    intro d' hd'
    obtain ⟨m, hget⟩ := List.mem_iff_getElem?.mp hd'
    rw [State.proceed, List.getElem?_modify] at hget
    by_cases hm : n = m
    · subst hm
      rw [hd] at hget
      simp only [if_true, Option.map_eq_map, Option.map_some, Option.some.injEq] at hget
      exact .inr hget.symm
    · simp only [hm, if_false, Option.map_eq_map, Option.map_id'] at hget
      exact .inl (List.mem_iff_getElem?.mpr ⟨m, hget⟩)
  refine { integral with known := ?_, served := ?_ }
  · intro d' hd'
    rcases hmem d' hd' with hold | rfl
    · exact integral.known d' hold
    · exact integral.known d (List.mem_iff_getElem?.mpr ⟨n, hd⟩)
  · intro d' hd' hstage
    rcases hmem d' hd' with hold | rfl
    · exact integral.served d' hold hstage
    · exact file hstage

/-- A verified file replaces what is cached under the identity of its row. -/
theorem Integral.cache (integral : Integral c files s) {row : Artifact} {bytes : Bytes}
    (hrow : row ∈ s.store.db.artifacts) (hverified : c.verified row bytes) :
    Integral c files { s with files := Function.update s.files row.id (some bytes) } := by
  refine { integral with cached := ?_, served := ?_ }
  · intro id found hfound
    dsimp only at hfound
    by_cases hid : id = row.id
    · subst hid
      rw [Function.update_self] at hfound
      cases hfound
      exact .inr ⟨row, hrow, rfl, hverified⟩
    · rw [Function.update_of_ne hid] at hfound
      exact integral.cached id found hfound
  · intro d hd hstage
    dsimp only
    by_cases hid : d.artifact.id = row.id
    · have hsame := integral.keyed.eq (integral.known d hd) hrow hid
      refine ⟨bytes, ?_, ?_⟩
      · rw [hid, Function.update_self]
      · rw [hsame]
        exact hverified
    · rw [Function.update_of_ne hid]
      exact integral.served d hd hstage

/-- A transaction that publishes changes nothing or inserts its row under a new identity. -/
theorem commit_publish (c : ArtifactService) (now : Int) (value : Artifact) (generation : Int)
    (caller : String) (db : Db) :
    (c.store.commit now (.publishArtifact value generation caller) db).artifacts = db.artifacts ∨
      (c.store.commit now (.publishArtifact value generation caller) db).artifacts =
        db.artifacts ++ [value] ∧ (∀ row ∈ db.artifacts, row.id ≠ value.id) ∧
      ∃ db', publishArtifact now value generation caller db = .ok (db', value) := by
  rcases c.store.commit_cases now (.publishArtifact value generation caller) db with hsame | happly
  · exact .inl (by rw [hsame])
  obtain ⟨⟨db', row⟩, hpublish, heq⟩ := Result.map_ok.mp happly
  rw [← heq]
  rcases publishArtifact_cases hpublish with ⟨rfl, _⟩ | ⟨hinsert, rfl⟩
  · exact .inl rfl
  · refine .inr ⟨congrArg Aside.artifacts (insertArtifact_aside hinsert), ?_, db', hpublish⟩
    intro row' hrow' hid
    rw [Db.insertArtifact, if_pos (List.any_eq_true.mpr ⟨row', hrow', decide_eq_true hid⟩)]
      at hinsert
    cases hinsert

theorem Integral.record (integral : Integral c files s) {n : Nat} {call : Publish} {now : Int}
    (hcall : s.publishes[n]? = some call) (hstage : call.stage = .stored) (stage : PublishStage)
    (hnext : stage = match publishArtifact now (c.artifact call) call.generation call.caller
        s.store.db with
      | .ok (_, row) => .returned row
      | .error _ => .failed) :
    Integral c files ((c.execute now
      (.publishArtifact (c.artifact call) call.generation call.caller)
      (s.advance n stage)).note n (c.artifact call) s.store.db.artifacts) := by
  have pending : ∀ row, call.stage ≠ .returned row := by
    intro row
    rw [hstage]
    exact fun h => by cases h
  have moved : Integral c files (s.advance n stage) :=
    integral.advance hcall pending fun _ => integral.uploaded n call hcall hstage
  rcases commit_publish c now (c.artifact call) call.generation call.caller s.store.db with
      hsame | ⟨hgrown, hfresh, db', hok⟩
  · have hnote : (c.execute now (.publishArtifact (c.artifact call) call.generation call.caller)
        (s.advance n stage)).store.db.artifacts = s.store.db.artifacts := hsame
    rw [State.note, if_pos hnote]
    exact moved.execute hsame
  have hnote : (c.execute now (.publishArtifact (c.artifact call) call.generation call.caller)
      (s.advance n stage)).store.db.artifacts ≠ s.store.db.artifacts := by
    change (PostgresStore.commit _ _ _ s.store.db).artifacts ≠ _
    rw [hgrown]
    simp
  have hmem : ∀ row ∈ s.store.db.artifacts, row ∈ (c.store.commit now
      (.publishArtifact (c.artifact call) call.generation call.caller) s.store.db).artifacts := by
    rw [hgrown]
    exact fun row hrow => List.mem_append_left _ hrow
  rw [State.note, if_neg hnote]
  constructor
  · change Table.Keyed _ (PostgresStore.commit _ _ _ s.store.db).artifacts
    rw [hgrown]
    exact integral.keyed.append hfresh
  · intro row hrow
    change row ∈ (PostgresStore.commit _ _ _ s.store.db).artifacts at hrow
    rw [hgrown] at hrow
    rcases List.mem_append.mp hrow with hold | hnew
    · exact integral.backed row hold
    · rw [List.mem_singleton.mp hnew]
      exact backed_artifact (integral.uploaded n call hcall hstage)
  · exact moved.uploaded
  · change (PostgresStore.commit _ _ _ s.store.db).artifacts = _
    rw [hgrown, integral.inserted, List.map_append]
    rfl
  · intro m row hrow
    rcases List.mem_append.mp hrow with hold | hnew
    · exact moved.returned m row hold
    · cases List.mem_singleton.mp hnew
      refine ⟨{ call with stage := stage }, ?_, ?_⟩
      · change (s.publishes.modify _ _)[_]? = _
        rw [List.getElem?_modify, hcall]
        simp
      · rw [hnext, hok]
  · intro id bytes hfile
    exact (integral.cached id bytes hfile).imp_right
      fun ⟨row, hrow, hid, hverified⟩ => ⟨row, hmem row hrow, hid, hverified⟩
  · exact fun d hd => hmem _ (integral.known d hd)
  · exact integral.served

theorem Integral.step {act : Act} (integral : Integral c files s) (h : c.step s act = some s') :
    Integral c files s' := by
  have waiting : ∀ {n : Nat} {stage : PublishStage} {call : Publish},
      s.publishAt n stage = some call → (∀ row, stage ≠ .returned row) →
        s.publishes[n]? = some call ∧ ∀ row, call.stage ≠ .returned row := by
    intro n stage call hat hpending
    obtain ⟨hget, hstage⟩ := publishAt_some hat
    exact ⟨hget, fun row => hstage ▸ hpending row⟩
  cases act with
  | other now op =>
    obtain ⟨hguard, hnext⟩ := Option.ite_none_left_eq_some.mp h
    cases hnext
    refine integral.execute ?_
    rcases c.store.commit_cases now op s.store.db with hsame | happly
    · rw [hsame]
    · refine apply_artifacts ?_ happly
      simp only [Bool.or_eq_true, not_or, Bool.not_eq_true] at hguard
      exact hguard.1
  | publish call =>
    cases h
    refine { integral with uploaded := ?_, returned := ?_ }
    · intro n other hget hstage
      dsimp only at hget
      rw [List.getElem?_append] at hget
      split at hget
      · exact integral.uploaded n other hget hstage
      · have hmem := List.mem_of_getElem? hget
        rw [List.mem_singleton.mp hmem] at hstage
        dsimp only at hstage
        split at hstage <;> cases hstage
    · intro n row hrow
      obtain ⟨other, hget, hstage⟩ := integral.returned n row hrow
      exact ⟨other, (List.getElem?_append_left (List.getElem?_eq_some_iff.mp hget).1).trans hget,
        hstage⟩
  | verify now n =>
    obtain ⟨call, hcall, hnext⟩ := Option.bind_eq_some_iff.mp h
    obtain ⟨-, hnext⟩ := Option.ite_none_left_eq_some.mp hnext
    cases hnext
    obtain ⟨hget, hpending⟩ := waiting hcall (fun _ h => by cases h)
    refine (integral.advance hget hpending ?_).execute ?_
    · intro hstored
      split at hstored <;> cases hstored
    · rcases c.store.commit_cases now (.verifyOwner call.attempt call.generation call.caller)
        s.store.db with hsame | happly
      · exact congrArg Db.artifacts hsame
      · exact apply_artifacts rfl happly
  | put n =>
    obtain ⟨call, hcall, hnext⟩ := Option.bind_eq_some_iff.mp h
    cases hnext
    obtain ⟨hget, hpending⟩ := waiting hcall (fun _ h => by cases h)
    have hblob : (s.write (c.artifact call).storageKey call.file).blobs
        (c.artifact call).storageKey = some call.file := Function.update_self _ _ _
    exact (integral.write call).advance hget hpending fun _ => hblob
  | putFails n stored =>
    obtain ⟨call, hcall, hnext⟩ := Option.bind_eq_some_iff.mp h
    cases hnext
    obtain ⟨hget, hpending⟩ := waiting hcall (fun _ h => by cases h)
    split
    · exact (integral.write call).advance hget hpending fun h => by cases h
    · exact integral.advance hget hpending fun h => by cases h
  | record now n =>
    obtain ⟨call, hcall, hnext⟩ := Option.bind_eq_some_iff.mp h
    obtain ⟨-, hnext⟩ := Option.ite_none_left_eq_some.mp hnext
    cases hnext
    obtain ⟨hget, hstage⟩ := publishAt_some hcall
    exact integral.record hget hstage _ rfl
  | interrupt n =>
    obtain ⟨hany, hnext⟩ := Option.ite_none_right_eq_some.mp h
    cases hnext
    obtain ⟨stage, hmem, hsome⟩ := List.any_eq_true.mp hany
    obtain ⟨call, hcall⟩ := Option.isSome_iff_exists.mp hsome
    have hrow : ∀ row, stage ≠ .returned row := by
      rintro row rfl
      simp at hmem
    obtain ⟨hget, hpending⟩ := waiting hcall hrow
    exact integral.advance hget hpending fun h => by cases h
  | lookup id =>
    simp only [ArtifactService.step, getArtifact] at h
    cases hlookup : Table.lookup (·.id) id s.store.db.artifacts with
    | none =>
      rw [hlookup] at h
      cases h
      exact integral
    | some row =>
      rw [hlookup] at h
      cases h
      refine { integral with known := ?_, served := ?_ }
      · intro d hd
        rcases List.mem_append.mp hd with hd | hd
        · exact integral.known d hd
        · rw [List.mem_singleton.mp hd]
          exact (Table.lookup_mem hlookup).1
      · intro d hd hstage
        rcases List.mem_append.mp hd with hd | hd
        · exact integral.served d hd hstage
        · rw [List.mem_singleton.mp hd] at hstage
          cases hstage
  | check n =>
    obtain ⟨d, hd, hnext⟩ := Option.bind_eq_some_iff.mp h
    cases hnext
    refine integral.proceed (downloadAt_some hd).1 fun hstage => ?_
    split at hstage
    · next hhit =>
      cases hfile : s.files d.artifact.id with
      | none =>
        rw [hfile] at hhit
        cases hhit
      | some bytes =>
        rw [hfile] at hhit
        exact ⟨bytes, rfl, hhit⟩
    · cases hstage
  | get n bytes =>
    obtain ⟨d, hd, hnext⟩ := Option.bind_eq_some_iff.mp h
    cases hnext
    exact integral.proceed (downloadAt_some hd).1 fun h => by cases h
  | install n =>
    simp only [ArtifactService.step] at h
    split at h
    · next row bytes hd =>
      split at h
      · next hverified =>
        cases h
        have hrow := integral.known _ (List.mem_of_getElem? hd)
        have hfile : Function.update s.files row.id (some bytes) row.id = some bytes :=
          Function.update_self _ _ _
        exact (integral.cache hrow hverified).proceed hd fun _ => ⟨bytes, hfile, hverified⟩
      · cases h
        exact integral.proceed hd fun h => by cases h
    · cases h
  | abort n =>
    simp only [ArtifactService.step] at h
    split at h
    · next d hd =>
      obtain ⟨-, hnext⟩ := Option.ite_none_left_eq_some.mp h
      cases hnext
      exact integral.proceed hd fun h => by cases h
    · cases h

theorem integral_reachable {blobs : String → Option Bytes}
    (hs : (c.system blobs files).Reachable s) : Integral c files s := by
  refine hs.invariant ?_ fun s act s' integral h => integral.step h
  constructor
  · exact List.nodup_nil
  · exact fun _ h => nomatch h
  · exact fun _ _ h => nomatch h
  · rfl
  · exact fun _ _ h => nomatch h
  · exact fun _ _ h => .inl h
  · exact fun _ h => nomatch h
  · exact fun _ h => nomatch h

theorem note_store (n : Nat) (row : Artifact) (before : List Artifact) :
    (s.note n row before).store = s.store := by
  unfold State.note
  split
  · rfl
  · rfl

/-- The store of the service moves by transactions only. -/
theorem embeds (blobs : String → Option Bytes) :
    (c.system blobs files).Embeds c.store.system (·.store) where
  init := rfl
  step := by
    intro s act s' _ h
    change c.step s act = some s' at h
    have commits : ∀ {now : Int} (op : Op), ¬ now < s.store.clock →
        c.store.system.step s.store ⟨now, op⟩ = some ⟨c.store.commit now op s.store.db, now⟩ :=
      fun op hclock => if_pos (Int.not_lt.mp hclock)
    cases act with
    | other now op =>
      obtain ⟨hguard, hnext⟩ := Option.ite_none_left_eq_some.mp h
      cases hnext
      simp only [Bool.or_eq_true, not_or, decide_eq_true_eq] at hguard
      exact .inr ⟨_, commits op hguard.2⟩
    | publish call =>
      cases h
      exact .inl rfl
    | verify now n =>
      obtain ⟨call, -, hnext⟩ := Option.bind_eq_some_iff.mp h
      obtain ⟨hclock, hnext⟩ := Option.ite_none_left_eq_some.mp hnext
      cases hnext
      exact .inr ⟨_, commits _ hclock⟩
    | put n =>
      obtain ⟨call, -, hnext⟩ := Option.bind_eq_some_iff.mp h
      cases hnext
      exact .inl rfl
    | putFails n stored =>
      obtain ⟨call, -, hnext⟩ := Option.bind_eq_some_iff.mp h
      cases hnext
      split
      · exact .inl rfl
      · exact .inl rfl
    | record now n =>
      obtain ⟨call, -, hnext⟩ := Option.bind_eq_some_iff.mp h
      obtain ⟨hclock, hnext⟩ := Option.ite_none_left_eq_some.mp hnext
      cases hnext
      refine .inr ⟨⟨now, .publishArtifact (c.artifact call) call.generation call.caller⟩, ?_⟩
      rw [note_store]
      exact commits _ hclock
    | interrupt n =>
      obtain ⟨-, hnext⟩ := Option.ite_none_right_eq_some.mp h
      cases hnext
      exact .inl rfl
    | lookup id =>
      simp only [ArtifactService.step] at h
      split at h
      · cases h
        exact .inl rfl
      · cases h
        exact .inl rfl
    | check n =>
      obtain ⟨d, -, hnext⟩ := Option.bind_eq_some_iff.mp h
      cases hnext
      exact .inl rfl
    | get n bytes =>
      obtain ⟨d, -, hnext⟩ := Option.bind_eq_some_iff.mp h
      cases hnext
      exact .inl rfl
    | install n =>
      simp only [ArtifactService.step] at h
      split at h
      · split at h
        · cases h
          exact .inl rfl
        · cases h
          exact .inl rfl
      · cases h
    | abort n =>
      simp only [ArtifactService.step] at h
      split at h
      · obtain ⟨-, hnext⟩ := Option.ite_none_left_eq_some.mp h
        cases hnext
        exact .inl rfl
      · cases h

/-- Rows are only added. -/
theorem artifacts_later {blobs : String → Option Bytes} (hs : (c.system blobs files).Reachable s)
    (run : (c.system blobs files).Later s s') :
    s.store.db.artifacts <+: s'.store.db.artifacts :=
  PostgresStore.artifacts_later ((embeds blobs).reachable hs) ((embeds blobs).later hs run)

end Steps

/-- However publications and downloads interleave with each other and with everything else: a
visible row has its bytes in the store and stays as it is, only a call that returns leaves a row,
a cached file that was not there before is what its row says, and so is what a download returns. -/
theorem artifact_integrity (c : ArtifactService) {blobs files : String → Option Bytes} {s : State}
    (hs : (c.system blobs files).Reachable s) :
    (∀ row ∈ s.store.db.artifacts, ∃ bytes, s.blobs row.storageKey = some bytes ∧
      c.digest bytes = row.sha256 ∧ bytes.length = row.size) ∧
    (∀ s', (c.system blobs files).Later s s' → ∀ row ∈ s.store.db.artifacts,
      row ∈ s'.store.db.artifacts ∧ ∀ row' ∈ s'.store.db.artifacts, row'.id = row.id → row' = row) ∧
    (s.store.db.artifacts = s.inserted.map (·.2) ∧ ∀ n row, (n, row) ∈ s.inserted →
      ∃ call, s.publishes[n]? = some call ∧ call.stage = .returned row) ∧
    (∀ id bytes, files id = none → s.files id = some bytes →
      ∃ row ∈ s.store.db.artifacts, row.id = id ∧ c.digest bytes = row.sha256) ∧
    (∀ d ∈ s.downloads, d.stage = .returned → d.artifact ∈ s.store.db.artifacts ∧
      ∃ bytes, s.files d.artifact.id = some bytes ∧ c.digest bytes = d.artifact.sha256) := by
  have integral := integral_reachable hs
  refine ⟨?_, ?_, ⟨integral.inserted, integral.returned⟩, ?_, ?_⟩
  · intro row hrow
    obtain ⟨bytes, before, hblob, -, hsum, hsize⟩ := integral.backed row hrow
    exact ⟨bytes, hblob, hsum.symm, hsize.symm⟩
  · intro s' run row hrow
    have hrow' := (artifacts_later hs run).subset hrow
    exact ⟨hrow', fun other hother hid =>
      (integral_reachable (hs.later run)).keyed.eq hother hrow' hid⟩
  · intro id bytes hnone hfile
    rcases integral.cached id bytes hfile with hold | ⟨row, hrow, hid, hverified⟩
    · rw [hnone] at hold
      cases hold
    · exact ⟨row, hrow, hid, of_decide_eq_true hverified⟩
  · intro d hd hstage
    obtain ⟨bytes, hfile, hverified⟩ := integral.served d hd hstage
    exact ⟨integral.known d hd, bytes, hfile, of_decide_eq_true hverified⟩

/-! ## A publication and a download -/

namespace Sample

def digit (n : Nat) : Char := "0123456789abcdef".toList.getD n '0'

def hexText (bytes : Bytes) : List Char :=
  bytes.flatMap fun b => [digit (b.toNat / 16), digit (b.toNat % 16)]

theorem digit_inj : ∀ m < 16, ∀ n < 16, digit m = digit n → m = n := by decide

theorem digit_lowerHex : ∀ n < 16, lowerHex (digit n) := by decide

theorem hexText_injective : Function.Injective hexText := by
  intro a b h
  induction a generalizing b with
  | nil => cases b with
    | nil => rfl
    | cons y b => cases h
  | cons x a ih => cases b with
    | nil => cases h
    | cons y b =>
      obtain ⟨hhigh, hrest⟩ := List.cons.inj h
      obtain ⟨hlow, htail⟩ := List.cons.inj hrest
      have hx := x.toNat_lt
      have hy := y.toNat_lt
      have high := digit_inj _ (by omega) _ (by omega) hhigh
      have low := digit_inj _ (by omega) _ (by omega) hlow
      have hsame : x.toNat = y.toNat := by omega
      rw [UInt8.toNat_inj.mp hsame, ih htail]

def service : ArtifactService where
  store := Runyard.Sample.store
  digest bytes := String.ofList (hexText bytes)
  injective := fun _ _ h => hexText_injective (String.ofList_injective h)
  hex bytes ch hch := by
    rw [String.toList_ofList] at hch
    obtain ⟨b, -, hmem⟩ := List.mem_flatMap.mp hch
    have hb := b.toNat_lt
    rcases List.mem_cons.mp hmem with rfl | hmem
    · exact digit_lowerHex _ (by omega)
    · rw [List.mem_singleton.mp hmem]
      exact digit_lowerHex _ (by omega)

def attempt : String := Runyard.Sample.attemptId.text

def upload : Publish where
  attempt := attempt
  generation := 1
  caller := "runner"
  relative := "model.bin"
  expected := "0102ff"
  file := [1, 2, 255]

def events : List Act :=
  [.other 1 (.submit Runyard.Sample.runId Runyard.Sample.spec "key" "fingerprint"),
    .other 2 (.registerWorker "worker" "session" ⟨4000, 4096⟩ {}),
    .other 3 (.assign Runyard.Sample.attemptId [] "worker" "session"),
    .other 4 (.start attempt 1 "runner" ""), .other 5 (.beginFinalization attempt 1 "runner"),
    .publish upload, .verify 6 0, .put 0, .record 7 0,
    .lookup (attempt ++ ":model.bin"), .check 0, .get 0 [1, 2, 255], .install 0]

theorem served : ((service.system (fun _ => none) fun _ => none).replay (fun _ _ => true)
    (service.system (fun _ => none) fun _ => none).init events).map
      (fun s => (s.store.db.artifacts, s.downloads.map (·.stage))) =
    some ([service.artifact upload], [.returned]) := by decide +kernel

end Sample

theorem artifact_integrity_sample :
    ∃ s, (Sample.service.system (fun _ => none) fun _ => none).Reachable s ∧
      s.store.db.artifacts = [Sample.service.artifact Sample.upload] ∧
      ∃ bytes, s.blobs (Sample.service.artifact Sample.upload).storageKey = some bytes ∧
        Sample.service.digest bytes = "0102ff" := by
  obtain ⟨s, hreplay, hfacts⟩ := Option.map_eq_some_iff.mp Sample.served
  obtain ⟨hrows, -⟩ := Prod.mk.inj hfacts
  have hs := System.replay_reachable hreplay
  obtain ⟨bytes, hblob, hsum, -⟩ := (artifact_integrity Sample.service hs).1
    (Sample.service.artifact Sample.upload) (by rw [hrows]; exact List.mem_singleton_self _)
  refine ⟨s, hs, hrows, bytes, hblob, hsum.trans ?_⟩
  decide +kernel

end ArtifactService

end Runyard
