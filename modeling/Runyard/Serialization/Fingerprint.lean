import Runyard.Serialization.Canonical

/-!
# Fingerprints of requests

The handlers for runs and sweeps parse the body of a request, decode it and hash the printed
encoding. The printed encoding reads back as the specification, so with a hash without collisions
two requests share a fingerprint exactly when they ask for the same specification.
-/

namespace Runyard

/-! ## Texts and numbers of an encoding -/

def Scalar.EveryText (text : String → Prop) : Scalar → Prop
  | .string s => text s
  | _ => True

def Scalar.Finite : Scalar → Prop
  | .double x => x.isFinite
  | _ => True

structure RunSpec.EveryText (text : String → Prop) (s : RunSpec) : Prop where
  name : text s.name
  image : text s.image
  command : ∀ arg ∈ s.command, text arg
  parameters : ∀ e ∈ s.parameters.entries, text e.1 ∧ e.2.EveryText text
  environment : ∀ e ∈ s.environment.entries, text e.1 ∧ text e.2
  labels : ∀ e ∈ s.labels.entries, text e.1 ∧ text e.2
  sourceRepository : text s.sourceRepository
  sourceRevision : text s.sourceRevision

/-- The names that every encoding uses. -/
def documentKeys : List String :=
  specFields ++ ["cpu_millis", "memory_mib", "gpu_count", "max_attempts", "retry_exit",
    "retry_timeout", "repository", "revision", "base", "grid"]

section Valid

variable {text : String → Prop}

theorem encodeInt_valid (i : Int) : (encodeInt i).Valid (·.isFinite) text := .number rfl

theorem encodeScalar_valid {v : Scalar} (texts : v.EveryText text) (finite : v.Finite) :
    (encodeScalar v).Valid (·.isFinite) text := by
  cases v with
  | null => exact .null
  | bool b => exact .boolean b
  | int i => exact encodeInt_valid i
  | double x => exact .number finite
  | string s => exact .string texts

theorem encodeStrings_valid {m : StringMap String}
    (texts : ∀ e ∈ m.entries, text e.1 ∧ text e.2) :
    (encodeStrings m).Valid (·.isFinite) text := by
  refine .ofFields ?_ ?_
  · exact List.forall_mem_map.mpr fun e he => (texts e he).1
  · exact List.forall_mem_map.mpr fun e he => .string (texts e he).2

theorem resources_valid (keys : ∀ key ∈ documentKeys, text key) (r : Resources) :
    (Json.ofFields r.fields).Valid (·.isFinite) text := by
  refine .ofFields (fun e he => keys e.1 ?_) fun e he => ?_
  · have allowed : ∀ key ∈ ["cpu_millis", "memory_mib", "gpu_count"], key ∈ documentKeys := by
      decide
    exact allowed e.1 (resources_allowed he)
  · rcases List.mem_append.mp he with he | he
    · rcases List.mem_pair.mp he with rfl | rfl
      · exact encodeInt_valid _
      · exact encodeInt_valid _
    · split at he
      · rw [List.mem_singleton.mp he]
        exact encodeInt_valid _
      · cases he

theorem retry_valid (keys : ∀ key ∈ documentKeys, text key) (r : RetryPolicy) :
    (Json.ofFields r.fields).Valid (·.isFinite) text := by
  refine .ofFields (fun e he => keys e.1 ?_) ?_
  · have allowed : ∀ key ∈ r.fields.map (·.1), key ∈ documentKeys := by
      change ∀ key ∈ ["max_attempts", "retry_exit", "retry_timeout"], key ∈ documentKeys
      decide
    exact allowed e.1 (List.mem_map_of_mem he)
  · simp only [RetryPolicy.fields, List.forall_mem_cons, List.not_mem_nil, false_implies,
      implies_true, and_true]
    exact ⟨encodeInt_valid _, .boolean _, .boolean _⟩

theorem source_valid (keys : ∀ key ∈ documentKeys, text key) {s : RunSpec}
    (texts : s.EveryText text) : (Json.ofFields s.sourceFields).Valid (·.isFinite) text := by
  refine .ofFields (fun e he => keys e.1 ?_) ?_
  · have allowed : ∀ key ∈ s.sourceFields.map (·.1), key ∈ documentKeys := by
      change ∀ key ∈ ["repository", "revision"], key ∈ documentKeys
      decide
    exact allowed e.1 (List.mem_map_of_mem he)
  · simp only [RunSpec.sourceFields, List.forall_mem_cons, List.not_mem_nil, false_implies,
      implies_true, and_true]
    exact ⟨.string texts.sourceRepository, .string texts.sourceRevision⟩

theorem encode_valid (keys : ∀ key ∈ documentKeys, text key) {s : RunSpec}
    (texts : s.EveryText text) (finite : ∀ e ∈ s.parameters.entries, e.2.Finite) :
    s.encode.Valid (·.isFinite) text := by
  refine .ofFields (fun e he => keys e.1 ?_) ?_
  · have allowed : ∀ key ∈ s.fields.map (·.1), key ∈ documentKeys :=
      fun key hkey => List.mem_append_left _ hkey
    exact allowed e.1 (List.mem_map_of_mem he)
  · simp only [RunSpec.fields, List.forall_mem_cons, List.not_mem_nil, false_implies,
      implies_true, and_true]
    refine ⟨encodeInt_valid _, .string texts.name, .string texts.image, .array ?_, .ofFields ?_ ?_,
      encodeStrings_valid texts.environment, encodeStrings_valid texts.labels,
      resources_valid keys _, retry_valid keys _, encodeInt_valid _, encodeInt_valid _,
      source_valid keys texts⟩
    · exact List.forall_mem_map.mpr fun arg harg => .string (texts.command arg harg)
    · exact List.forall_mem_map.mpr fun e he => (texts.parameters e he).1
    · exact List.forall_mem_map.mpr fun e he =>
        encodeScalar_valid (texts.parameters e he).2 (finite e he)

structure SweepSpec.EveryText (text : String → Prop) (s : SweepSpec) : Prop where
  base : s.base.EveryText text
  grid : ∀ e ∈ s.grid.entries, text e.1 ∧ ∀ v ∈ e.2, v.EveryText text

structure SweepSpec.Finite (s : SweepSpec) : Prop where
  base : ∀ e ∈ s.base.parameters.entries, e.2.Finite
  grid : ∀ e ∈ s.grid.entries, ∀ v ∈ e.2, v.Finite

theorem sweep_encode_valid (keys : ∀ key ∈ documentKeys, text key) {s : SweepSpec}
    (texts : s.EveryText text) (finite : s.Finite) : s.encode.Valid (·.isFinite) text := by
  refine .ofFields (fun e he => keys e.1 ?_) ?_
  · have allowed : ∀ key ∈ s.fields.map (·.1), key ∈ documentKeys := by
      change ∀ key ∈ ["base", "grid"], key ∈ documentKeys
      decide
    exact allowed e.1 (List.mem_map_of_mem he)
  · simp only [SweepSpec.fields, List.forall_mem_cons, List.not_mem_nil, false_implies,
      implies_true, and_true]
    refine ⟨encode_valid keys texts.base finite.base, .ofFields ?_ ?_⟩
    · exact List.forall_mem_map.mpr fun e he => (texts.grid e he).1
    · refine List.forall_mem_map.mpr fun e he => .array ?_
      exact List.forall_mem_map.mpr fun v hv =>
        encodeScalar_valid ((texts.grid e he).2 v hv) (finite.grid e he v hv)

end Valid

theorem Scalar.everyText_true (v : Scalar) : v.EveryText fun _ => True := by
  cases v <;> trivial

theorem RunSpec.everyText_true (s : RunSpec) : s.EveryText fun _ => True where
  name := trivial
  image := trivial
  command _ _ := trivial
  parameters _ _ := ⟨trivial, Scalar.everyText_true _⟩
  environment _ _ := ⟨trivial, trivial⟩
  labels _ _ := ⟨trivial, trivial⟩
  sourceRepository := trivial
  sourceRevision := trivial

theorem SweepSpec.everyText_true (s : SweepSpec) : s.EveryText fun _ => True where
  base := s.base.everyText_true
  grid _ _ := ⟨trivial, fun _ _ => Scalar.everyText_true _⟩

theorem finite_of_validScalar {v : Scalar} (h : validScalar v = .ok ()) : v.Finite := by
  cases v with
  | double x => exact Result.require_ok.mp h
  | _ => trivial

theorem parameter_of_validate {s : RunSpec} (h : validate s = .ok ()) {e : String × Scalar}
    (he : e ∈ s.parameters.entries) : safeString e.1 ∧ validScalar e.2 = .ok () := by
  obtain ⟨_, hkey, hvalue⟩ := Result.bind_ok.mp ((validate_parameters.mp h).2.2 e he)
  simp only [Result.require_ok, Bool.and_eq_true] at hkey
  exact ⟨hkey.2, hvalue⟩

theorem finite_of_validate {s : RunSpec} (h : validate s = .ok ()) :
    ∀ e ∈ s.parameters.entries, e.2.Finite :=
  fun _ he => finite_of_validScalar (parameter_of_validate h he).2

theorem decodeScalar_finite {j : Json Number} {v : Scalar} (finite : FloatText.finiteNumbers j)
    (h : decodeScalar j = .ok v) : v.Finite := by
  unfold decodeScalar at h
  split at h
  · cases h
    trivial
  · cases h
    trivial
  · next n =>
    split at h
    · obtain ⟨_, _, h⟩ := Result.bind_ok.mp h
      cases h
      trivial
    · next hfloat =>
      cases h
      cases n with
      | float x => exact finite
      | integer v => exact (hfloat rfl).elim
      | unsigned v => exact (hfloat rfl).elim
  · cases h
    trivial
  · cases h

theorem decodeSweep_finite {j : Json Number} {s : SweepSpec} (finite : FloatText.finiteNumbers j)
    (h : decodeSweep j = .ok s) : s.Finite := by
  have accepts : (decodeSweep j).Ensures SweepSpec.Finite := by
    refine .bind fun _ _ => .bind fun _ _ => .bind fun base hbase => .bind fun grid hgrid => ?_
    rw [Decoding.lift_result_eq_ok] at hbase
    rw [Decoding.lift_access_ok] at hgrid
    have finiteGrid := Json.all_field finite hgrid
    split
    · refine .bind fun dimensions hdimensions => ?_
      rintro _ ⟨⟩
      refine ⟨finite_of_validate (decodeSpec_accepts hbase).1, fun e he v hv => ?_⟩
      obtain ⟨d, hd, hentry⟩ := Except.mem_mapM hdimensions (Entries.mem_collect he)
      obtain ⟨values, hvalues, hpair⟩ := Except.bind_eq_ok.mp hentry
      cases hpair
      rw [Decoding.lift_result_eq_ok] at hvalues
      have finiteValues := (Json.all_object.mp finiteGrid d hd).2
      unfold decodeDimension at hvalues
      split at hvalues
      · next items hitems =>
        simp only [Result.bind_ok, Result.pure_ok] at hvalues
        obtain ⟨_, hmap, _, _, rfl⟩ := hvalues
        obtain ⟨item, hitem, hitemValue⟩ := Except.mem_mapM hmap hv
        rw [hitems] at finiteValues
        exact decodeScalar_finite (Json.all_array.mp finiteValues item hitem) hitemValue
      · cases hvalues
    · rintro _ ⟨⟩
  exact accepts s h

/-! ## Printing and parsing an encoding -/

namespace FloatText

variable (t : FloatText)

theorem parse_dump_encode {s : RunSpec} (hs : validate s = .ok ()) (h : s.Representable) :
    ∃ j, t.parse (t.dump s.encode) = some j ∧ decodeSpec j = .ok s :=
  ⟨_, t.parse_dump (encode_valid (fun _ _ => trivial) s.everyText_true (finite_of_validate hs)),
    decodeSpec_encode keepsIntegers_reread hs h fun _ _ _ _ => rfl⟩

theorem parse_dump_sweep {s : SweepSpec} (h : s.Decodable) (finite : s.Finite) :
    ∃ j, t.parse (t.dump s.encode) = some j ∧ decodeSweep j = .ok s :=
  ⟨_, t.parse_dump (sweep_encode_valid (fun _ _ => trivial) s.everyText_true finite),
    decodeSweep_encode keepsIntegers_reread h (fun _ _ _ _ => rfl) fun _ _ _ _ _ _ => rfl⟩

/-- What the handler of `POST /v1/runs` decodes; `none` when it refuses the body. -/
def requestedRun (body : String) : Option RunSpec :=
  (t.parse body).bind fun j => (decodeSpec j).toOption

def requestedSweep (body : String) : Option SweepSpec :=
  (t.parse body).bind fun j => (decodeSweep j).toOption

def runFingerprint (sha256 : String → String) (s : RunSpec) : String := sha256 (t.dump s.encode)

def sweepFingerprint (sha256 : String → String) (s : SweepSpec) : String :=
  sha256 (t.dump s.encode)

variable {t}

theorem requestedRun_cases {body : String} {s : RunSpec} (h : t.requestedRun body = some s) :
    ∃ j, decodeSpec j = .ok s := by
  obtain ⟨j, _, hdecode⟩ := Option.bind_eq_some_iff.mp h
  exact ⟨j, Except.toOption_eq_some.mp hdecode⟩

theorem requestedSweep_cases {body : String} {s : SweepSpec} (h : t.requestedSweep body = some s) :
    ∃ j, FloatText.finiteNumbers j ∧ decodeSweep j = .ok s := by
  obtain ⟨j, hparse, hdecode⟩ := Option.bind_eq_some_iff.mp h
  obtain ⟨literals, _, hfinite⟩ := Option.bind_eq_some_iff.mp hparse
  obtain ⟨hall, hj⟩ := Option.ite_none_right_eq_some.mp hfinite
  cases hj
  exact ⟨_, hall, Except.toOption_eq_some.mp hdecode⟩

/-- Texts that are printed from accepted documents are equal only for equal specifications. -/
theorem dump_encode_iff {j₁ j₂ : Json Number} {s₁ s₂ : RunSpec} (h₁ : decodeSpec j₁ = .ok s₁)
    (h₂ : decodeSpec j₂ = .ok s₂) : t.dump s₁.encode = t.dump s₂.encode ↔ s₁ = s₂ := by
  refine ⟨fun same => ?_, fun same => by rw [same]⟩
  obtain ⟨hvalidate₁, hrepresentable₁⟩ := decodeSpec_accepts h₁
  obtain ⟨hvalidate₂, hrepresentable₂⟩ := decodeSpec_accepts h₂
  obtain ⟨j, hparse, hdecode⟩ := parse_dump_encode t hvalidate₁ hrepresentable₁
  obtain ⟨j', hparse', hdecode'⟩ := parse_dump_encode t hvalidate₂ hrepresentable₂
  rw [same, hparse'] at hparse
  cases hparse
  rw [hdecode'] at hdecode
  exact (Except.ok.inj hdecode).symm

theorem dump_sweep_iff {j₁ j₂ : Json Number} {s₁ s₂ : SweepSpec}
    (finite₁ : FloatText.finiteNumbers j₁) (finite₂ : FloatText.finiteNumbers j₂)
    (h₁ : decodeSweep j₁ = .ok s₁) (h₂ : decodeSweep j₂ = .ok s₂) :
    t.dump s₁.encode = t.dump s₂.encode ↔ s₁ = s₂ := by
  refine ⟨fun same => ?_, fun same => by rw [same]⟩
  obtain ⟨j, hparse, hdecode⟩ :=
    parse_dump_sweep t (decodeSweep_accepts h₁) (decodeSweep_finite finite₁ h₁)
  obtain ⟨j', hparse', hdecode'⟩ :=
    parse_dump_sweep t (decodeSweep_accepts h₂) (decodeSweep_finite finite₂ h₂)
  rw [same, hparse'] at hparse
  cases hparse
  rw [hdecode'] at hdecode
  exact (Except.ok.inj hdecode).symm

end FloatText

open FloatText in
/-- A specification is recovered from its encoding and from the printed text of it, so the text and
its hash tell specifications apart and nothing else. -/
theorem canonical_encoding (t : FloatText) {sha256 : String → String}
    (collisionFree : Function.Injective sha256) :
    (∀ s : RunSpec, validate s = .ok () → s.Representable →
      decodeSpec s.encode = .ok s ∧
        ∃ j, t.parse (t.dump s.encode) = some j ∧ decodeSpec j = .ok s) ∧
    (∀ (j₁ j₂ : Json Number) (s₁ s₂ : RunSpec), decodeSpec j₁ = .ok s₁ → decodeSpec j₂ = .ok s₂ →
      (t.dump s₁.encode = t.dump s₂.encode ↔ s₁ = s₂)) ∧
    (∀ s : SweepSpec, s.Decodable →
      decodeSweep s.encode = .ok s ∧
        (s.Finite → ∃ j, t.parse (t.dump s.encode) = some j ∧ decodeSweep j = .ok s)) ∧
    (∀ (j₁ j₂ : Json Number) (s₁ s₂ : SweepSpec),
      FloatText.finiteNumbers j₁ → FloatText.finiteNumbers j₂ →
        decodeSweep j₁ = .ok s₁ → decodeSweep j₂ = .ok s₂ →
          (t.dump s₁.encode = t.dump s₂.encode ↔ s₁ = s₂)) ∧
    (∀ (body₁ body₂ : String) (s₁ s₂ : RunSpec),
      t.requestedRun body₁ = some s₁ → t.requestedRun body₂ = some s₂ →
        (t.runFingerprint sha256 s₁ = t.runFingerprint sha256 s₂ ↔ s₁ = s₂)) ∧
    ∀ (body₁ body₂ : String) (s₁ s₂ : SweepSpec),
      t.requestedSweep body₁ = some s₁ → t.requestedSweep body₂ = some s₂ →
        (t.sweepFingerprint sha256 s₁ = t.sweepFingerprint sha256 s₂ ↔ s₁ = s₂) := by
  refine ⟨fun s hs h => ?_, fun _ _ _ _ h₁ h₂ => dump_encode_iff h₁ h₂, fun s h => ?_,
    fun _ _ _ _ finite₁ finite₂ h₁ h₂ => dump_sweep_iff finite₁ finite₂ h₁ h₂, ?_, ?_⟩
  · have direct := decodeSpec_encode keepsIntegers_id hs h fun _ _ _ _ => rfl
    rw [Json.map_id] at direct
    exact ⟨direct, parse_dump_encode t hs h⟩
  · have direct := decodeSweep_encode keepsIntegers_id h (fun _ _ _ _ => rfl)
      fun _ _ _ _ _ _ => rfl
    rw [Json.map_id] at direct
    exact ⟨direct, parse_dump_sweep t h⟩
  · intro body₁ body₂ s₁ s₂ h₁ h₂
    obtain ⟨j₁, hdecode₁⟩ := requestedRun_cases h₁
    obtain ⟨j₂, hdecode₂⟩ := requestedRun_cases h₂
    exact collisionFree.eq_iff.trans (dump_encode_iff hdecode₁ hdecode₂)
  · intro body₁ body₂ s₁ s₂ h₁ h₂
    obtain ⟨j₁, finite₁, hdecode₁⟩ := requestedSweep_cases h₁
    obtain ⟨j₂, finite₂, hdecode₂⟩ := requestedSweep_cases h₂
    exact collisionFree.eq_iff.trans (dump_sweep_iff finite₁ finite₂ hdecode₁ hdecode₂)

namespace Sample

/-- A request with one parameter, and with resources where they are given. -/
def request (resources : List (String × Json Number)) (parameter : Json Number) : Json Number :=
  .ofFields ([("name", .string "cpu"), ("command", .array [.string "true"]),
    ("image", .string ("fixture@sha256:" ++
      "aaaaaaaaaaaaaaaaaaaaaaaaaaaaaaaaaaaaaaaaaaaaaaaaaaaaaaaaaaaaaaaa")),
    ("parameters", .ofFields [("rate", parameter)])] ++ resources)

def requested (parameter : Scalar) : RunSpec where
  name := "cpu"
  image := "fixture@sha256:" ++ "aaaaaaaaaaaaaaaaaaaaaaaaaaaaaaaaaaaaaaaaaaaaaaaaaaaaaaaaaaaaaaaa"
  command := ["true"]
  parameters := .ofEntries [("rate", parameter)]

def one : Double := ⟨0x3ff0000000000000⟩

end Sample

/-- An explicit GPU count of zero changes nothing; `1` and `1.0` stay apart. -/
theorem canonical_encoding_requests :
    (decodeSpec (Sample.requested (.int 1)).encode = .ok (Sample.requested (.int 1)) ∧
      ∃ j, FloatText.exact.parse (FloatText.exact.dump (Sample.requested (.int 1)).encode) =
        some j ∧ decodeSpec j = .ok (Sample.requested (.int 1))) ∧
    (FloatText.exact.dump (Sample.requested (.int 1)).encode =
        FloatText.exact.dump (Sample.requested (.double Sample.one)).encode ↔
      Sample.requested (.int 1) = Sample.requested (.double Sample.one)) :=
  have encodings :=
    canonical_encoding FloatText.exact (fun _ _ same => same : Function.Injective id)
  ⟨encodings.1 (Sample.requested (.int 1)) (by decide +kernel) fun e he => by
      rw [List.mem_singleton.mp he]
      exact ⟨by decide, by decide⟩,
    encodings.2.1 (Sample.request [("resources", .ofFields [("gpu_count", .number (.unsigned 0))])]
      (.number (.unsigned 1))) (Sample.request [] (.number (.float Sample.one))) _ _
      (by decide +kernel) (by decide +kernel)⟩

end Runyard
