import Runyard.Serialization.Codec
import Runyard.Serialization.Text

/-!
# The canonical encoding

`decode_spec` inverts `encode`, also after the document was printed and parsed, where integers
change their kind.
-/

namespace Runyard

open Entries (Ascending)

variable {f : Number → Number}

/-! ## Numbers that keep their integers -/

/-- The numbers that replace signed integers have the same values. -/
structure KeepsIntegers (f : Number → Number) : Prop where
  isInteger : ∀ v : Int64, (f (.integer v)).isInteger
  toInt : ∀ v : Int64, (f (.integer v)).toInt = v.toInt
  above : ∀ (v : Int64) (bound : Nat), (f (.integer v)).above bound → bound < v.toInt

theorem keepsIntegers_id : KeepsIntegers id where
  isInteger _ := rfl
  toInt _ := rfl
  above _ _ h := nomatch h

theorem keepsIntegers_reread : KeepsIntegers Number.reread := by
  have kinds : ∀ v : Int64, Number.reread (.integer v) = .integer v ∨ 0 ≤ v.toInt ∧
      Number.reread (.integer v) = .unsigned (.ofNat v.toInt.toNat) := by
    intro v
    dsimp only [Number.reread]
    split
    · exact .inl rfl
    · next h => exact .inr ⟨Int.not_lt.mp h, rfl⟩
  refine ⟨fun v => ?_, fun v => ?_, fun v bound => ?_⟩
  · rcases kinds v with h | ⟨_, h⟩ <;> rw [h] <;> rfl
  · rcases kinds v with h | ⟨hpos, h⟩
    · rw [h]
      rfl
    · have hhigh := v.toInt_lt
      have hsame : (UInt64.ofNat v.toInt.toNat).toInt64 = v := by
        calc (UInt64.ofNat v.toInt.toNat).toInt64 = Int64.ofNat v.toInt.toNat := rfl
          _ = Int64.ofInt v.toInt := by rw [← Int64.ofInt_eq_ofNat, Int.toNat_of_nonneg hpos]
          _ = v := v.ofInt_toInt
      rw [h, Number.toInt, hsame]
  · rcases kinds v with h | ⟨hpos, h⟩
    · rw [h]
      exact fun h => nomatch h
    · have hhigh := v.toInt_lt
      have hvalue : (UInt64.ofNat v.toInt.toNat).toNat = v.toInt.toNat :=
        UInt64.toNat_ofNat_of_lt' (by
          change _ < 2 ^ 64
          omega)
      rw [h, Number.above, hvalue, decide_eq_true_eq]
      omega

/-! ## Parts of a specification -/

theorem ofFields_entries {α : Type} (m : StringMap α) (g : α → Json Number) :
    Json.ofFields (m.entries.map fun e => (e.1, g e.2)) =
      .object (m.entries.map fun e => (e.1, g e.2)) := by
  have ascending : Ascending m.entries := m.ordered
  rw [Json.ofFields, Entries.collect_map, ascending.collect_eq]

@[simp] theorem ofEntries_entries {α : Type} (m : StringMap α) : .ofEntries m.entries = m := by
  have ascending : Ascending m.entries := m.ordered
  rw [StringMap.ofEntries]
  congr
  exact ascending.collect_eq

theorem getStrings_map (command : List String) :
    ((Json.array (command.map .string)).map f).getStrings = .ok command := by
  rw [Json.map, Json.bind_array, Json.getStrings, List.map_map, List.mapM_map]
  exact List.mapM_pure.trans (congrArg _ (List.map_id' command))

theorem getEntries_map (m : StringMap String) :
    ((encodeStrings m).map f).getEntries = .ok m.entries := by
  rw [encodeStrings, ofFields_entries, Json.map, Json.bind_object, Json.getEntries, List.map_map,
    List.mapM_map]
  exact List.mapM_pure.trans (congrArg _ (List.map_id' m.entries))

theorem rejectOthers_ok {message : String} {allowed : List String}
    {entries : List (String × Json Number)} (h : ∀ e ∈ entries, e.1 ∈ allowed) :
    rejectOthers message allowed entries = .ok () := by
  induction entries with
  | nil => rfl
  | cons e rest ih =>
    have hfirst : throwIf (!allowed.contains e.1) .invalid (message ++ e.1) = .ok () := by
      simpa using h e List.mem_cons_self
    have hrest := ih fun d hd => h d (List.mem_cons_of_mem e hd)
    rw [rejectOthers] at hrest ⊢
    rw [List.forM_eq_forM, List.forM_cons, hfirst]
    exact hrest

theorem integer_encodeInt (keep : KeepsIntegers f) {j : Json Number} {key : String} {i : Int}
    (hfind : j.find? key = some ((encodeInt i).map f)) (hlow : intMin ≤ i) (hhigh : i ≤ intMax)
    (fallback : Int) : integer j key fallback = .ok i := by
  have hvalue : (Int64.ofInt i).toInt = i := by
    apply Int64.toInt_ofInt_of_le
    · simp only [intMin] at hlow
      omega
    · simp only [intMax] at hhigh
      omega
  have habove : (f (.integer (.ofInt i))).above intMax = false := by
    by_contra h
    have := keep.above (.ofInt i) intMax (by simpa using h)
    omega
  have hrange : (decide (i < intMin) || decide (intMax < i)) = false := by
    rw [decide_eq_false (Int.not_lt.mpr hlow), decide_eq_false (Int.not_lt.mpr hhigh)]
    rfl
  rw [integer, hfind]
  change (do
    throwIf (!(f (.integer (.ofInt i))).isInteger || (f (.integer (.ofInt i))).above intMax)
      .invalid (key ++ " must be an integer in range")
    throwIf ((f (.integer (.ofInt i))).toInt < intMin || intMax < (f (.integer (.ofInt i))).toInt)
      .invalid (key ++ " is out of range")
    return (f (.integer (.ofInt i))).toInt : Result Int) = .ok i
  rw [keep.isInteger, keep.toInt, habove, hvalue, hrange]
  rfl

theorem find?_map_ofFields (key : String) {fields : List (String × Json Number)}
    (distinct : (fields.map (·.1)).Nodup) :
    ((Json.ofFields fields).map f).find? key = (Entries.lookup key fields).map (Json.map f) := by
  have hkeys : ((fields.map fun e => (e.1, e.2.map f)).map (·.1)).Nodup := by
    rwa [List.map_map]
  rw [← Entries.lookup_map, ← Json.find?_ofFields key hkeys]
  exact congrArg _ (Json.bind_ofFields fields)

theorem fields_map_ofFields {entries : List (String × Json Number)} {allowed : List String}
    (h : ∀ e ∈ entries, e.1 ∈ allowed) :
    fields ((Json.ofFields entries).map f) allowed = .ok () := by
  rw [Json.map, Json.bind_ofFields]
  refine rejectOthers_ok fun e he => ?_
  obtain ⟨d, hd, rfl⟩ := List.mem_map.mp (Entries.mem_collect he)
  exact h d hd

structure RunSpec.InRange (s : RunSpec) : Prop where
  version : s.version = 1
  cpuMillis : 0 < s.resources.cpuMillis ∧ s.resources.cpuMillis ≤ 1000000
  memoryMib : 32 ≤ s.resources.memoryMib ∧ s.resources.memoryMib ≤ 1048576
  gpuCount : 0 ≤ s.resources.gpuCount ∧ s.resources.gpuCount ≤ 64
  timeoutSeconds : 0 < s.timeoutSeconds ∧ s.timeoutSeconds ≤ 604800
  priority : 0 ≤ s.priority ∧ s.priority ≤ 9
  maxAttempts : 1 ≤ s.retry.maxAttempts ∧ s.retry.maxAttempts ≤ 10

theorem inRange_of_validate {s : RunSpec} (h : validate s = .ok ()) : s.InRange := by
  simp only [validate, Result.bind_ok, Result.require_ok, Bool.and_eq_true, decide_eq_true_eq,
    exists_const] at h
  obtain ⟨version, _, _, _, _, cpuMillis, memoryMib, gpuCount, timeoutSeconds, priority,
    maxAttempts, _⟩ := h
  exact ⟨version, cpuMillis, memoryMib, gpuCount, timeoutSeconds, priority, maxAttempts⟩

theorem integer_field (keep : KeepsIntegers f) {entries : List (String × Json Number)}
    (distinct : (entries.map (·.1)).Nodup) {key : String} {i : Int}
    (hkey : Entries.lookup key entries = some (encodeInt i)) (hlow : intMin ≤ i)
    (hhigh : i ≤ intMax) (fallback : Int) :
    integer ((Json.ofFields entries).map f) key fallback = .ok i :=
  integer_encodeInt keep (by rw [find?_map_ofFields key distinct, hkey]; rfl) hlow hhigh fallback

section Fields

variable {entries : List (String × Json Number)} (distinct : (entries.map (·.1)).Nodup)
  {key : String} {value : Json Number}

include distinct

theorem field_map (hkey : Entries.lookup key entries = some value) :
    ((Json.ofFields entries).map f).field key = .ok (value.map f) := by
  have hobject : ((Json.ofFields entries).map f).isObject = true := rfl
  rw [Json.field, if_pos hobject, find?_map_ofFields key distinct, hkey]
  rfl

theorem valueOr_map {α : Type} {get : Json Number → Json.Access α} {a : α} (fallback : α)
    (hkey : Entries.lookup key entries = some value) (hget : get (value.map f) = .ok a) :
    ((Json.ofFields entries).map f).valueOr key fallback get = .ok a := by
  have hobject : ((Json.ofFields entries).map f).isObject = true := rfl
  rw [Json.valueOr, if_pos hobject, find?_map_ofFields key distinct, hkey, ← hget]
  rfl

end Fields

theorem specFields_nodup (s : RunSpec) : (s.fields.map (·.1)).Nodup :=
  show specFields.Nodup by decide

theorem gpuCount_field (keep : KeepsIntegers f) (r : Resources)
    (h : 0 ≤ r.gpuCount ∧ r.gpuCount ≤ 64) (distinct : (r.fields.map (·.1)).Nodup) :
    integer ((Json.ofFields r.fields).map f) "gpu_count" 0 = .ok r.gpuCount := by
  by_cases hzero : r.gpuCount = 0
  · have habsent : Entries.lookup "gpu_count" r.fields = none := by
      rw [Resources.fields, if_neg (not_not.mpr hzero)]
      rfl
    rw [integer, find?_map_ofFields _ distinct, habsent, hzero]
    rfl
  · have hkey : Entries.lookup "gpu_count" r.fields = some (encodeInt r.gpuCount) := by
      rw [Resources.fields, if_pos hzero]
      rfl
    exact integer_field keep distinct hkey (by rw [intMin]; omega) (by rw [intMax]; omega) 0

theorem resources_nodup (r : Resources) : (r.fields.map (·.1)).Nodup := by
  rw [Resources.fields]
  split <;> simp

theorem resources_allowed {r : Resources} {e : String × Json Number} (h : e ∈ r.fields) :
    e.1 ∈ ["cpu_millis", "memory_mib", "gpu_count"] := by
  rcases List.mem_append.mp h with h | h
  · rcases List.mem_pair.mp h with rfl | rfl
    · exact List.mem_cons_self
    · exact List.mem_cons_of_mem _ List.mem_cons_self
  · split at h
    · rw [List.mem_singleton.mp h]
      exact List.mem_cons_of_mem _ (List.mem_cons_of_mem _ List.mem_cons_self)
    · cases h

section DecodeSpec

variable (keep : KeepsIntegers f) {s : RunSpec}

/-- A value between zero and the largest bound of `validate`. -/
theorem integer_small (keep : KeepsIntegers f) {entries : List (String × Json Number)}
    (distinct : (entries.map (·.1)).Nodup) {key : String} {i : Int}
    (hkey : Entries.lookup key entries = some (encodeInt i)) (hlow : 0 ≤ i) (hhigh : i ≤ 1048576)
    (fallback : Int) : integer ((Json.ofFields entries).map f) key fallback = .ok i :=
  integer_field keep distinct hkey (by rw [intMin]; omega) (by rw [intMax]; omega) fallback

theorem decodeSpecFields_encode_map (keep : KeepsIntegers f) (h : s.InRange)
    {parameters : Result (StringMap Scalar)}
    (hparameters : decodeParameters ((Json.ofFields
      (s.parameters.entries.map fun e => (e.1, encodeScalar e.2))).map f) = parameters) :
    decodeSpecFields (s.encode.map f) = (do
      let parameters ← parameters
      validate { s with parameters }
      return { s with parameters } : Decoding RunSpec) := by
  have distinct := specFields_nodup s
  have hresources := resources_nodup s.resources
  have hretry : (s.retry.fields.map (·.1)).Nodup :=
    show ["max_attempts", "retry_exit", "retry_timeout"].Nodup by decide
  have hsource : (s.sourceFields.map (·.1)).Nodup :=
    show ["repository", "revision"].Nodup by decide
  obtain ⟨hversion, hcpu, hmemory, hgpu, htimeout, hpriority, hattempts⟩ := h
  have hobject : s.encode.map f =
      .object (Entries.collect (s.fields.map fun e => (e.1, e.2.map f))) :=
    Json.bind_ofFields s.fields
  have hothers : rejectOthers "unknown specification field: " specFields
      (Entries.collect (s.fields.map fun e => (e.1, e.2.map f))) = .ok () := by
    refine rejectOthers_ok fun e he => ?_
    obtain ⟨d, hd, rfl⟩ := List.mem_map.mp (Entries.mem_collect he)
    exact (List.mem_map_of_mem hd : d.1 ∈ s.fields.map (·.1))
  have version : integer (s.encode.map f) "version" 1 = .ok s.version :=
    integer_small keep distinct rfl (by omega) (by omega) 1
  have name : (s.encode.map f).field "name" = .ok ((Json.string s.name).map f) :=
    field_map distinct rfl
  have image : (s.encode.map f).field "image" = .ok ((Json.string s.image).map f) :=
    field_map distinct rfl
  have command : (s.encode.map f).field "command" =
      .ok ((Json.array (s.command.map .string)).map f) := field_map distinct rfl
  have scalars : (s.encode.map f).valueOr "parameters" (.object []) .ok = .ok ((Json.ofFields
      (s.parameters.entries.map fun e => (e.1, encodeScalar e.2))).map f) :=
    valueOr_map distinct _ rfl rfl
  have environment : (s.encode.map f).valueOr "environment" [] Json.getEntries =
      .ok s.environment.entries :=
    valueOr_map distinct _ rfl (getEntries_map s.environment)
  have labels : (s.encode.map f).valueOr "labels" [] Json.getEntries = .ok s.labels.entries :=
    valueOr_map distinct _ rfl (getEntries_map s.labels)
  have resources : (s.encode.map f).valueOr "resources" (.object []) .ok =
      .ok ((Json.ofFields s.resources.fields).map f) := valueOr_map distinct _ rfl rfl
  have resourceFields : fields ((Json.ofFields s.resources.fields).map f)
      ["cpu_millis", "memory_mib", "gpu_count"] = .ok () := by
    exact fields_map_ofFields fun e he => resources_allowed he
  have cpuMillis : integer ((Json.ofFields s.resources.fields).map f) "cpu_millis" 1000 =
      .ok s.resources.cpuMillis :=
    integer_small keep hresources rfl (by omega) (by omega) 1000
  have memoryMib : integer ((Json.ofFields s.resources.fields).map f) "memory_mib" 512 =
      .ok s.resources.memoryMib :=
    integer_small keep hresources rfl (by omega) (by omega) 512
  have gpuCount := gpuCount_field keep s.resources hgpu hresources
  have retry : (s.encode.map f).valueOr "retry" (.object []) .ok =
      .ok ((Json.ofFields s.retry.fields).map f) := valueOr_map distinct _ rfl rfl
  have retryFields : fields ((Json.ofFields s.retry.fields).map f)
      ["max_attempts", "retry_exit", "retry_timeout"] = .ok () := by
    refine fields_map_ofFields fun e he => ?_
    exact (List.mem_map_of_mem he : e.1 ∈ s.retry.fields.map (·.1))
  have maxAttempts : integer ((Json.ofFields s.retry.fields).map f) "max_attempts" 3 =
      .ok s.retry.maxAttempts :=
    integer_small keep hretry rfl (by omega) (by omega) 3
  have retryExit : ((Json.ofFields s.retry.fields).map f).valueOr "retry_exit" false
      Json.getBoolean = .ok s.retry.retryExit := valueOr_map hretry _ rfl rfl
  have retryTimeout : ((Json.ofFields s.retry.fields).map f).valueOr "retry_timeout" false
      Json.getBoolean = .ok s.retry.retryTimeout := valueOr_map hretry _ rfl rfl
  have timeoutSeconds : integer (s.encode.map f) "timeout_seconds" 1800 = .ok s.timeoutSeconds :=
    integer_small keep distinct rfl (by omega) (by omega) 1800
  have priority : integer (s.encode.map f) "priority" 0 = .ok s.priority :=
    integer_small keep distinct rfl (by omega) (by omega) 0
  have source : (s.encode.map f).valueOr "source" (.object []) .ok =
      .ok ((Json.ofFields s.sourceFields).map f) := valueOr_map distinct _ rfl rfl
  have sourceFields : fields ((Json.ofFields s.sourceFields).map f) ["repository", "revision"] =
      .ok () := by
    refine fields_map_ofFields fun e he => ?_
    exact (List.mem_map_of_mem he : e.1 ∈ s.sourceFields.map (·.1))
  have sourceRepository : ((Json.ofFields s.sourceFields).map f).valueOr "repository" ""
      Json.getString = .ok s.sourceRepository := valueOr_map hsource _ rfl rfl
  have sourceRevision : ((Json.ofFields s.sourceFields).map f).valueOr "revision" ""
      Json.getString = .ok s.sourceRevision := valueOr_map hsource _ rfl rfl
  have string : ∀ text : String, ((Json.string text : Json Number).map f).getString = .ok text :=
    fun _ => rfl
  unfold decodeSpecFields
  simp only [version, name, image, command, string, getStrings_map, scalars, hparameters,
    environment, labels, resources, resourceFields, cpuMillis, memoryMib, gpuCount, retry,
    retryFields, maxAttempts, retryExit, retryTimeout, timeoutSeconds, priority, source,
    sourceFields, sourceRepository, sourceRevision, Decoding.lift_ok, Decoding.lift_result_ok,
    Except.ok_bind, ofEntries_entries]
  rw [hobject]
  simp only [hothers, Decoding.lift_result_ok, Except.ok_bind]

end DecodeSpec

/-! ## What a decoder accepts -/

/-- An integer parameter is an `std::int64_t`. -/
def Scalar.Representable : Scalar → Prop
  | .int i => -2 ^ 63 ≤ i ∧ i < 2 ^ 63
  | _ => True

def RunSpec.Representable (s : RunSpec) : Prop :=
  ∀ e ∈ s.parameters.entries, e.2.Representable

theorem toInt_range (n : Number) : -2 ^ 63 ≤ n.toInt ∧ n.toInt < 2 ^ 63 := by
  cases n with
  | integer v => exact ⟨v.le_toInt, v.toInt_lt⟩
  | unsigned v => exact ⟨v.toInt64.le_toInt, v.toInt64.toInt_lt⟩
  | float x =>
    rw [Number.toInt]
    decide

theorem decodeScalar_representable {j : Json Number} {v : Scalar} (h : decodeScalar j = .ok v) :
    v.Representable := by
  unfold decodeScalar at h
  split at h
  · cases h
    trivial
  · cases h
    trivial
  · next n =>
    split at h
    · obtain ⟨_, _, h⟩ := Result.bind_ok.mp h
      cases h
      exact toInt_range n
    · cases h
      trivial
  · cases h
    trivial
  · cases h

theorem decodeParameters_representable {j : Json Number} {m : StringMap Scalar}
    (h : decodeParameters j = .ok m) : ∀ e ∈ m.entries, e.2.Representable := by
  intro e he
  unfold decodeParameters at h
  split at h
  · obtain ⟨entries, hentries, h⟩ := Result.bind_ok.mp h
    cases h
    obtain ⟨d, _, hd⟩ := Except.mem_mapM hentries (Entries.mem_collect he)
    obtain ⟨v, hv, hpair⟩ := Result.bind_ok.mp hd
    cases hpair
    exact decodeScalar_representable hv
  · cases h

theorem decodeSpec_fields {j : Json Number} {s : RunSpec} (h : decodeSpec j = .ok s) :
    decodeSpecFields j = .ok s := by
  unfold decodeSpec at h
  split at h
  · next hfields =>
    cases h
    exact hfields
  · cases h
  · cases h

theorem decodeSpecFields_accepts (j : Json Number) :
    (decodeSpecFields j).Ensures fun s => validate s = .ok () ∧ s.Representable := by
  unfold decodeSpecFields
  split
  · iterate 9 refine .bind fun _ _ => ?_
    refine .bind fun parameters hparameters => ?_
    iterate 18 refine .bind fun _ _ => ?_
    refine .bind fun _ hvalidate => ?_
    rintro _ ⟨⟩
    rw [Decoding.lift_result_eq_ok] at hparameters hvalidate
    exact ⟨hvalidate, decodeParameters_representable hparameters⟩
  · refine .bind fun _ hfault => ?_
    cases hfault

/-- `decode_spec` ends with `validate`. -/
theorem decodeSpec_accepts {j : Json Number} {s : RunSpec} (h : decodeSpec j = .ok s) :
    validate s = .ok () ∧ s.Representable :=
  decodeSpecFields_accepts j s (decodeSpec_fields h)

/-! ## Round trips -/

theorem decodeParameters_map (m : StringMap Scalar) :
    decodeParameters ((Json.ofFields (m.entries.map fun e => (e.1, encodeScalar e.2))).map f) = do
      let entries ← m.entries.mapM fun e => return (e.1, ← decodeScalar ((encodeScalar e.2).map f))
      return .ofEntries entries := by
  rw [ofFields_entries, Json.map, Json.bind_object, decodeParameters, List.map_map, List.mapM_map]
  rfl

theorem decodeSpec_encode_map (keep : KeepsIntegers f) {s : RunSpec} (h : s.InRange)
    {parameters : Result (StringMap Scalar)}
    (hparameters : decodeParameters ((Json.ofFields
      (s.parameters.entries.map fun e => (e.1, encodeScalar e.2))).map f) = parameters) :
    decodeSpec (s.encode.map f) = do
      let parameters ← parameters
      validate { s with parameters }
      return { s with parameters } := by
  rw [decodeSpec, decodeSpecFields_encode_map keep h hparameters]
  cases parameters with
  | error e => rfl
  | ok parameters =>
    rw [Decoding.lift_result_ok, Except.ok_bind, Except.ok_bind]
    cases validate { s with parameters } with
    | error e => rfl
    | ok u => rfl

theorem decodeScalar_int (keep : KeepsIntegers f) {i : Int} (h : -2 ^ 63 ≤ i ∧ i < 2 ^ 63) :
    decodeScalar ((encodeInt i).map f) = .ok (.int i) := by
  have hvalue : (Int64.ofInt i).toInt = i := Int64.toInt_ofInt_of_le h.1 h.2
  have hsmall : (f (.integer (.ofInt i))).above int64Max = false := by
    by_contra habove
    have hlarge := keep.above (.ofInt i) int64Max (by simpa using habove)
    rw [hvalue, int64Max] at hlarge
    omega
  rw [encodeInt, Json.map, Json.bind_number, decodeScalar, if_pos (keep.isInteger _), hsmall,
    keep.toInt, hvalue]
  rfl

/-- The numbers that replace a double are read as that double. -/
def KeepsDouble (f : Number → Number) (x : Double) : Prop :=
  decodeScalar ((encodeScalar (.double x)).map f) = .ok (.double x)

theorem decodeScalar_encodeScalar (keep : KeepsIntegers f) {v : Scalar} (h : v.Representable)
    (doubles : ∀ x, v = .double x → KeepsDouble f x) :
    decodeScalar ((encodeScalar v).map f) = .ok v := by
  cases v with
  | null => rfl
  | bool b => rfl
  | int i => exact decodeScalar_int keep h
  | double x => exact doubles x rfl
  | string s => rfl

theorem decodeParameters_encode (keep : KeepsIntegers f) {m : StringMap Scalar}
    (h : ∀ e ∈ m.entries, e.2.Representable)
    (doubles : ∀ e ∈ m.entries, ∀ x, e.2 = .double x → KeepsDouble f x) :
    decodeParameters ((Json.ofFields (m.entries.map fun e => (e.1, encodeScalar e.2))).map f) =
      .ok m := by
  have hentries : (m.entries.mapM fun e =>
      return (e.1, ← decodeScalar ((encodeScalar e.2).map f)) : Result (List (String × Scalar))) =
        .ok (m.entries.map id) := by
    refine Except.mapM_eq_ok fun e he => ?_
    rw [decodeScalar_encodeScalar keep (h e he) (doubles e he)]
    rfl
  rw [decodeParameters_map, hentries, List.map_id, Except.ok_bind, ofEntries_entries,
    Except.pure_eq]

/-- `decode_spec` inverts `encode` where the numbers of the document are kept. -/
theorem decodeSpec_encode (keep : KeepsIntegers f) {s : RunSpec} (hs : validate s = .ok ())
    (h : s.Representable)
    (doubles : ∀ e ∈ s.parameters.entries, ∀ x, e.2 = .double x → KeepsDouble f x) :
    decodeSpec (s.encode.map f) = .ok s := by
  rw [decodeSpec_encode_map keep (inRange_of_validate hs) (decodeParameters_encode keep h doubles),
    Except.ok_bind]
  change (do validate s; return s : Result RunSpec) = .ok s
  rw [hs]
  rfl

/-! ## Sweeps -/

/-- What `decode_sweep` guarantees of a sweep. -/
structure SweepSpec.Decodable (s : SweepSpec) : Prop where
  base : validate s.base = .ok ()
  representable : s.base.Representable
  dimensions : ∀ e ∈ s.grid.entries, e.2 ≠ [] ∧ ∀ v ∈ e.2, v.Representable

theorem decodeDimension_accepts {j : Json Number} {values : List Scalar}
    (h : decodeDimension j = .ok values) : values ≠ [] ∧ ∀ v ∈ values, v.Representable := by
  unfold decodeDimension at h
  split at h
  · next items =>
    simp only [Result.bind_ok, Result.throwIf_ok, Result.pure_ok] at h
    obtain ⟨decoded, hdecoded, _, hempty, rfl⟩ := h
    refine ⟨?_, fun v hv => ?_⟩
    · rintro rfl
      cases items with
      | nil => exact hempty rfl
      | cons item rest => simp [List.mapM_cons, Result.bind_ok] at hdecoded
    · obtain ⟨item, _, hitem⟩ := Except.mem_mapM hdecoded hv
      exact decodeScalar_representable hitem
  · cases h

theorem decodeSweep_accepts {j : Json Number} {s : SweepSpec} (h : decodeSweep j = .ok s) :
    s.Decodable := by
  have accepts : (decodeSweep j).Ensures SweepSpec.Decodable := by
    refine .bind fun _ _ => .bind fun _ _ => .bind fun base hbase => .bind fun grid hgrid => ?_
    rw [Decoding.lift_result_eq_ok] at hbase
    obtain ⟨hvalidate, hrepresentable⟩ := decodeSpec_accepts hbase
    split
    · refine .bind fun dimensions hdimensions => ?_
      rintro _ ⟨⟩
      refine ⟨hvalidate, hrepresentable, fun e he => ?_⟩
      obtain ⟨d, _, hd⟩ := Except.mem_mapM hdimensions (Entries.mem_collect he)
      obtain ⟨values, hvalues, hpair⟩ := Except.bind_eq_ok.mp hd
      cases hpair
      exact decodeDimension_accepts (Decoding.lift_result_eq_ok.mp hvalues)
    · rintro _ ⟨⟩
  exact accepts s h

theorem decodeDimension_encode_map (values : List Scalar) :
    decodeDimension ((Json.array (values.map encodeScalar)).map f) = do
      let decoded ← values.mapM fun v => decodeScalar ((encodeScalar v).map f)
      throwIf values.isEmpty .invalid "grid dimensions cannot be empty"
      return decoded := by
  have hempty : (List.map (Json.bind fun n => .number (f n)) (values.map encodeScalar)).isEmpty =
      values.isEmpty := by
    cases values <;> rfl
  rw [Json.map, Json.bind_array, decodeDimension, hempty, List.map_map, List.mapM_map]
  rfl

theorem decodeDimension_encode (keep : KeepsIntegers f) {values : List Scalar}
    (nonempty : values ≠ []) (h : ∀ v ∈ values, v.Representable)
    (doubles : ∀ v ∈ values, ∀ x, v = .double x → KeepsDouble f x) :
    decodeDimension ((Json.array (values.map encodeScalar)).map f) = .ok values := by
  have hvalues : (values.mapM fun v => decodeScalar ((encodeScalar v).map f)) =
      .ok (values.map id) :=
    Except.mapM_eq_ok fun v hv => decodeScalar_encodeScalar keep (h v hv) (doubles v hv)
  rw [decodeDimension_encode_map, hvalues, List.map_id, List.isEmpty_eq_false_iff.mpr nonempty]
  rfl

theorem decodeSweep_encode_map (s : SweepSpec) :
    decodeSweep (s.encode.map f) = do
      let base ← decodeSpec (s.base.encode.map f)
      let dimensions ← s.grid.entries.mapM fun e => return (e.1, ← decodeDimension
        ((Json.array (e.2.map encodeScalar)).map f))
      return ⟨base, .ofEntries dimensions⟩ := by
  have distinct : (s.fields.map (·.1)).Nodup := show ["base", "grid"].Nodup by decide
  have allowed : fields (s.encode.map f) ["base", "grid"] = .ok () := by
    refine fields_map_ofFields fun e he => ?_
    exact (List.mem_map_of_mem he : e.1 ∈ s.fields.map (·.1))
  have base : (s.encode.map f).field "base" = .ok (s.base.encode.map f) := field_map distinct rfl
  have grid : (s.encode.map f).field "grid" = .ok (.object (s.grid.entries.map fun e =>
      (e.1, (Json.array (e.2.map encodeScalar)).map f))) := by
    refine (field_map distinct rfl).trans ?_
    rw [ofFields_entries s.grid fun values => .array (values.map encodeScalar), Json.map,
      Json.bind_object, List.map_map]
    rfl
  rw [decodeSweep, allowed, base, Decoding.lift_result_ok, Except.ok_bind, Decoding.lift_ok,
    Except.ok_bind]
  refine bind_congr fun base => ?_
  rw [grid, Decoding.lift_ok, Except.ok_bind]
  dsimp only
  rw [List.mapM_map]
  rfl

theorem decodeSweep_encode (keep : KeepsIntegers f) {s : SweepSpec} (h : s.Decodable)
    (doubles : ∀ e ∈ s.base.parameters.entries, ∀ x, e.2 = .double x → KeepsDouble f x)
    (gridDoubles : ∀ e ∈ s.grid.entries, ∀ v ∈ e.2, ∀ x, v = .double x → KeepsDouble f x) :
    decodeSweep (s.encode.map f) = .ok s := by
  have dimensions : (s.grid.entries.mapM fun e => return (e.1, ← decodeDimension
      ((Json.array (e.2.map encodeScalar)).map f)) : Decoding (List (String × List Scalar))) =
        .ok (s.grid.entries.map id) := by
    refine Except.mapM_eq_ok fun e he => ?_
    rw [decodeDimension_encode keep (h.dimensions e he).1 (h.dimensions e he).2
      (gridDoubles e he)]
    rfl
  rw [decodeSweep_encode_map, decodeSpec_encode keep h.base h.representable doubles,
    Decoding.lift_result_ok, Except.ok_bind, dimensions, Except.ok_bind, List.map_id,
    ofEntries_entries, Except.pure_eq]

end Runyard
