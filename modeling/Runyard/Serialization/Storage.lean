import Runyard.Requests.Sweeps
import Runyard.Serialization.Fingerprint
import Runyard.Serialization.Jsonb

/-!
# Stored specifications

A run or a sweep is written to a `jsonb` column as printed text and read back by `pg::run` and
`load_sweep`. A double survives unless it comes out of the column as an integer: then it is read
as an integer parameter, or refused where it does not fit one.
-/

namespace Runyard

/-! ## Values up to the sign of zero -/

namespace Double

/-- The double with one zero in the place of both. -/
def value (x : Double) : Double := if x.magnitude = 0 then ⟨0⟩ else x

theorem isFinite_of_magnitude {x : Double} (h : x.magnitude = 0) : x.isFinite := by
  rw [magnitude] at h
  rw [isFinite_iff]
  omega

theorem isFinite_value (x : Double) : x.value.isFinite = x.isFinite := by
  rw [value]
  split
  · next h => rw [isFinite_of_magnitude h]; rfl
  · rfl

theorem value_value (x : Double) : x.value.value = x.value := by
  by_cases h : x.magnitude = 0
  · rw [value, value, if_pos h]
    rfl
  · rw [value, value, if_neg h, if_neg h]

end Double

/-- Equal values are those that compare equal as `Scalar` objects do. -/
def Scalar.value : Scalar → Scalar
  | .double x => .double x.value
  | v => v

theorem Scalar.value_value (v : Scalar) : v.value.value = v.value := by
  cases v with
  | double x => exact congrArg Scalar.double x.value_value
  | _ => rfl

def StringMap.mapValues {α β : Type} (f : α → β) (m : StringMap α) : StringMap β :=
  ⟨m.entries.map fun e => (e.1, f e.2), List.pairwise_map.mpr m.ordered⟩

section Entrywise

variable {ε α β : Type} {m : StringMap α} (decode : α → Except ε α) {value : α → β}

/-- A map whose entries are decoded one by one keeps its values when every entry does. -/
theorem mapM_entries {f : α → α} (h : ∀ e ∈ m.entries, decode e.2 = .ok (f e.2)) :
    (m.entries.mapM fun e => return (e.1, ← decode e.2) : Except ε (List (String × α))) =
      .ok (m.mapValues f).entries := by
  refine Except.mapM_eq_ok fun e he => ?_
  rw [h e he]
  rfl

/-- The converse: the keys stay, so entries of equal maps are compared one by one. -/
theorem entries_of_mapM {entries : List (String × α)}
    (h : (m.entries.mapM fun e => return (e.1, ← decode e.2) : Except ε (List (String × α))) =
      .ok entries)
    (same : (StringMap.ofEntries entries).mapValues value = m.mapValues value) :
    ∀ e ∈ m.entries, ∃ a, decode e.2 = .ok a ∧ value a = value e.2 := by
  have hkeys : entries.map (·.1) = m.entries.map (·.1) := by
    refine Except.mapM_map h fun e d hd => ?_
    obtain ⟨a, _, hpair⟩ := Except.bind_eq_ok.mp hd
    cases hpair
    rfl
  have ascending : Entries.Ascending entries := by
    have hordered : (entries.map (·.1)).Pairwise (· < ·) :=
      hkeys ▸ List.pairwise_map.mpr m.ordered
    exact List.pairwise_map.mp hordered
  have hentries := congrArg StringMap.entries same
  rw [StringMap.mapValues, StringMap.ofEntries] at hentries
  simp only [ascending.collect_eq] at hentries
  intro e he
  obtain ⟨d, hd, hsame⟩ := Except.mapM_pointwise h hentries e he
  obtain ⟨a, ha, hpair⟩ := Except.bind_eq_ok.mp hd
  cases hpair
  exact ⟨a, ha, (Prod.mk.inj hsame).2⟩

end Entrywise

def RunSpec.value (s : RunSpec) : RunSpec :=
  { s with parameters := s.parameters.mapValues Scalar.value }

def SweepSpec.value (s : SweepSpec) : SweepSpec :=
  ⟨s.base.value, s.grid.mapValues fun values => values.map Scalar.value⟩

theorem mapValues_eq_self {α : Type} {f : α → α} {m : StringMap α}
    (same : ∀ e ∈ m.entries, f e.2 = e.2) : m.mapValues f = m := by
  have hentries : (m.entries.map fun e => (e.1, f e.2)) = m.entries := by
    refine (List.map_congr_left fun e he => ?_).trans (List.map_id _)
    rw [same e he]
    rfl
  simp only [StringMap.mapValues, hentries]

theorem mapValues_mapValues {α : Type} {f : α → α} (idempotent : ∀ a, f (f a) = f a)
    (m : StringMap α) : (m.mapValues f).mapValues f = m.mapValues f := by
  rw [StringMap.mapValues, StringMap.mapValues]
  simp only [List.map_map, Function.comp_def, idempotent]

theorem RunSpec.value_value (s : RunSpec) : s.value.value = s.value := by
  rw [RunSpec.value, RunSpec.value, mapValues_mapValues Scalar.value_value]

theorem SweepSpec.value_value (s : SweepSpec) : s.value.value = s.value := by
  have hvalues : ∀ values : List Scalar, (values.map Scalar.value).map Scalar.value =
      values.map Scalar.value := by
    intro values
    rw [List.map_map]
    exact List.map_congr_left fun v _ => v.value_value
  rw [SweepSpec.value, SweepSpec.value, RunSpec.value_value, mapValues_mapValues hvalues]

theorem validScalar_value (v : Scalar) : validScalar v.value = validScalar v := by
  cases v with
  | double x => rw [Scalar.value, validScalar, validScalar, x.isFinite_value]
  | _ => rfl

theorem validate_value (s : RunSpec) : validate s.value = validate s := by
  have hsize : s.value.parameters.size = s.parameters.size := List.length_map _
  rw [validate, validate, hsize]
  simp only [RunSpec.value, StringMap.mapValues, List.forM_eq_forM, List.forM_map,
    validScalar_value]
  rfl

/-! ## Texts of an accepted specification -/

theorem safeString_iff {s : String} : safeString s ↔ '\x00' ∉ s.toList := by
  simp only [safeString, List.all_eq_true, decide_eq_true_eq]
  exact ⟨fun h hnul => h _ hnul rfl, fun h c hc hnul => h (hnul ▸ hc)⟩

theorem safe_of_imagePattern {image : String} (h : imagePattern image) : safeString image := by
  rw [safeString_iff]
  intro hnul
  unfold imagePattern at h
  dsimp only at h
  split at h
  · next first rest digest hsplit =>
    rw [List.splitAt_eq, Prod.mk.injEq] at hsplit
    simp only [Bool.and_eq_true, decide_eq_true_eq, List.all_eq_true] at h
    obtain ⟨⟨⟨⟨hfirst, hrest⟩, hmark⟩, _⟩, hdigest⟩ := h
    rw [← List.take_append_drop (image.toList.length - 72) image.toList, hsplit.1, hsplit.2,
      List.mem_append, ← List.take_append_drop 8 digest, List.mem_append, hmark] at hnul
    rcases hnul with hname | hnul | hnul
    · rcases List.mem_cons.mp hname with rfl | hname
      · cases hfirst
      · cases hrest _ hname
    · revert hnul
      decide
    · cases hdigest _ hnul
  · cases h

theorem safe_of_envNamePattern {name : String} (h : envNamePattern name) : safeString name := by
  rw [safeString_iff]
  intro hnul
  unfold envNamePattern at h
  split at h
  · next first rest hname =>
    simp only [Bool.and_eq_true, List.all_eq_true] at h
    rw [hname] at hnul
    rcases List.mem_cons.mp hnul with rfl | hnul
    · cases h.1
    · cases h.2 _ hnul
  · cases h

theorem everyText_of_validScalar {v : Scalar} (h : validScalar v = .ok ()) :
    v.EveryText fun s => safeString s := by
  cases v with
  | string s =>
    simp only [validScalar, Result.require_ok, Bool.and_eq_true] at h
    exact h.2
  | _ => trivial

theorem everyText_of_validate {s : RunSpec} (h : validate s = .ok ()) :
    s.EveryText fun s => safeString s := by
  have hparameters := fun e he => parameter_of_validate h (e := e) he
  simp only [validate, Result.bind_ok, Result.require_ok, Bool.and_eq_true, decide_eq_true_eq,
    exists_const, List.all_eq_true, StringMap.all] at h
  obtain ⟨_, hname, himage, _, hcommand, _, _, _, _, _, _, _, hsource, hlabels, _, henvironment,
    _⟩ := h
  refine ⟨hname.2, safe_of_imagePattern himage.2, fun arg harg => (hcommand arg harg).2,
    fun e he => ?_, fun e he => ?_, fun e he => ?_, hsource.1.1.2, hsource.2⟩
  · exact ⟨(hparameters e he).1, everyText_of_validScalar (hparameters e he).2⟩
  · have hvalid := Result.forM_ok.mp henvironment e he
    simp only [Result.bind_ok, Result.require_ok, Bool.and_eq_true, exists_const] at hvalid
    exact ⟨safe_of_envNamePattern hvalid.1.1, hvalid.2.2⟩
  · exact ⟨(hlabels e he).1.2, (hlabels e he).2⟩

/-! ## Numbers that were stored -/

namespace FloatText

open Jsonb (positional integerValue LosesPoint)

variable (t : FloatText)

/-- A number of a document after the document was stored and parsed. -/
def restored (n : Number) : Number :=
  match t.print n with
  | .number literal => t.classify (positional literal)
  | _ => n

/-- The printed double comes back from the column as an integer that the parser can hold. -/
def BecomesInteger (x : Double) : Prop :=
  LosesPoint (t.digits x) ∧
    integerValue (t.digits x) ≤ if x.negative then 2 ^ 63 else 2 ^ 64 - 1

instance : DecidablePred t.BecomesInteger := fun _ => inferInstanceAs (Decidable (_ ∧ _))

theorem restored_integer (v : Int64) : t.restored (.integer v) = Number.reread (.integer v) := by
  have hsame : positional ⟨v.toInt < 0, v.toInt.natAbs, 0, none⟩ =
      ⟨v.toInt < 0, v.toInt.natAbs, 0, none⟩ := by
    refine Jsonb.positional_of_integer fun hnegative => ?_
    rw [decide_eq_true_eq] at hnegative
    omega
  have hread := t.classify_print (n := .integer v) rfl
  rw [print, Json.map, Json.bind_number] at hread
  rw [restored, print]
  dsimp only
  rw [hsame]
  exact Json.number.inj hread

theorem restored_unsigned (v : UInt64) : t.restored (.unsigned v) = .unsigned v := by
  rw [restored, print]
  dsimp only
  rw [Jsonb.positional_of_integer (by simp), t.classify_unsigned v.toNat_lt, UInt64.ofNat_toNat]

theorem keepsIntegers_restored : KeepsIntegers t.restored where
  isInteger v := t.restored_integer v ▸ keepsIntegers_reread.isInteger v
  toInt v := t.restored_integer v ▸ keepsIntegers_reread.toInt v
  above v bound := t.restored_integer v ▸ keepsIntegers_reread.above v bound

theorem strtod_zero : t.strtod false .zero = ⟨0⟩ := by
  have hread := t.strtod_digits ⟨0⟩ (by decide)
  rwa [(t.digits_zero ⟨0⟩ (by decide)).mpr (by decide)] at hread

theorem restored_float {x : Double} (h : x.isFinite) :
    t.restored (.float x) = t.classify (positional (format x.negative (t.digits x))) := by
  have hprint : t.print (.float x) = .number (format x.negative (t.digits x)) := if_pos h
  rw [restored, hprint]

/-- A double that does not become an integer keeps its value. -/
theorem restored_keeps {x : Double} (h : x.isFinite) (keeps : ¬ t.BecomesInteger x) :
    t.restored (.float x) = .float x.value := by
  have hnormal := t.digits_normal x h
  have hdecimal : (positional (format x.negative (t.digits x))).decimal = t.digits x :=
    (Jsonb.decimal_positional _).trans (decimal_format _ hnormal)
  rw [t.restored_float h]
  by_cases hzero : x.magnitude = 0
  · have hdigits := (t.digits_zero x h).mpr hzero
    rw [hdigits] at hdecimal ⊢
    have hfloat : (positional (format x.negative .zero)).isInteger = false :=
      Jsonb.positional_format_float _ (.inl rfl)
    have hsign : (positional (format x.negative .zero)).negative = false := Bool.and_false _
    rw [classify, hfloat, if_neg Bool.false_ne_true, hsign, hdecimal, t.strtod_zero, Double.value,
      if_pos hzero]
  · have hcoefficient : (t.digits x).coefficient ≠ 0 :=
      fun hc => hzero ((t.digits_zero x h).mp (hnormal.eq_zero hc))
    rw [Double.value, if_neg hzero]
    by_cases hloses : LosesPoint (t.digits x)
    · have hlarge : ¬ integerValue (t.digits x) ≤ if x.negative then 2 ^ 63 else 2 ^ 64 - 1 :=
        fun hfits => keeps ⟨hloses, hfits⟩
      have hliteral := Jsonb.positional_format_integer x.negative hcoefficient hloses
      have hinteger : Numeral.isInteger ⟨x.negative, integerValue (t.digits x), 0, none⟩ := rfl
      rw [hliteral] at hdecimal ⊢
      have hread := t.strtod_digits x h
      rw [classify, if_pos hinteger, hdecimal]
      dsimp only
      cases hnegative : x.negative with
      | true =>
        rw [hnegative, if_pos rfl] at hlarge
        rw [hnegative] at hread
        rw [if_pos rfl, if_neg hlarge, hread]
      | false =>
        rw [hnegative, if_neg Bool.false_ne_true] at hlarge
        rw [hnegative] at hread
        rw [if_neg Bool.false_ne_true, if_neg (by omega), hread]
    · have hfloat : (positional (format x.negative (t.digits x))).isInteger = false :=
        Jsonb.positional_format_float _ (.inr hloses)
      have hsign : (positional (format x.negative (t.digits x))).negative = x.negative :=
        (Jsonb.positional_negative (Jsonb.format_coefficient _ hcoefficient)).trans
          (format_negative _ _)
      rw [classify, hfloat, if_neg Bool.false_ne_true, hsign, hdecimal, t.strtod_digits x h]

theorem becomesInteger_value {x : Double} : t.BecomesInteger x.value ↔ t.BecomesInteger x := by
  rw [Double.value]
  split
  · next hzero =>
    have hsmall : ∀ {y : Double}, y.magnitude = 0 → ¬ t.BecomesInteger y := by
      intro y hy becomes
      have hlarge := becomes.1.2
      rw [(t.digits_zero y (Double.isFinite_of_magnitude hy)).mpr hy] at hlarge
      revert hlarge
      decide
    exact iff_of_false (hsmall rfl) (hsmall hzero)
  · rfl

/-- A double that becomes an integer is not read as a double. -/
theorem restored_becomes {x : Double} (h : x.isFinite) (becomes : t.BecomesInteger x) :
    (t.restored (.float x)).isInteger := by
  obtain ⟨hloses, hfits⟩ := becomes
  have hcoefficient : (t.digits x).coefficient ≠ 0 := by
    intro hc
    have hlarge := hloses.2
    rw [integerValue, hc, Nat.zero_mul] at hlarge
    omega
  have hinteger : Numeral.isInteger ⟨x.negative, integerValue (t.digits x), 0, none⟩ := rfl
  rw [t.restored_float h, Jsonb.positional_format_integer x.negative hcoefficient hloses, classify,
    if_pos hinteger]
  dsimp only
  split at hfits
  · next hnegative =>
    rw [if_pos hnegative, if_pos hfits]
    rfl
  · next hpositive =>
    rw [if_neg hpositive, if_pos (by omega)]
    rfl

theorem restored_finite {n : Number} (h : n.isFinite) : (t.restored n).isFinite := by
  have finite_of_integer : ∀ {n : Number}, n.isInteger → n.isFinite := by
    intro n hn
    cases n with
    | float x => cases hn
    | _ => rfl
  cases n with
  | integer v => exact finite_of_integer (t.keepsIntegers_restored.isInteger v)
  | unsigned v =>
    rw [t.restored_unsigned]
    rfl
  | float x =>
    by_cases becomes : t.BecomesInteger x
    · exact finite_of_integer (t.restored_becomes h becomes)
    · rw [t.restored_keeps h becomes]
      exact x.isFinite_value.trans h

/-! ## Documents that were stored -/

/-- The document of a column that was written with `dump` and is parsed again. -/
def storedDocument (j : Json Number) : Option (Json Number) :=
  (Jsonb.stored (t.dump j)).bind t.parse

/-- `pg::run` on the row that an insertion wrote. -/
def storedRun (s : RunSpec) : Option (Result RunSpec) := (t.storedDocument s.encode).map decodeSpec

/-- `load_sweep` on the row that an insertion wrote. -/
def storedSweep (s : SweepSpec) : Option (Decoding SweepSpec) :=
  (t.storedDocument s.encode).map decodeSweep

theorem storedDocument_eq {j : Json Number} (h : j.Valid (·.isFinite) fun s => safeString s) :
    t.storedDocument j = some (j.map t.restored) := by
  have hread : ((j.bind t.print).map positional).map t.classify = j.map t.restored := by
    rw [Json.map_bind, Json.map_bind]
    refine h.bind_congr fun n hn => ?_
    obtain ⟨literal, hliteral⟩ := t.print_finite hn
    rw [restored, hliteral]
    rfl
  have hfinite : finiteNumbers (j.map t.restored) := by
    have hvalid : j.Valid (·.isFinite) fun _ => (true : Prop) := h.mono fun _ _ => rfl
    have hrestored : (j.map t.restored).Valid (·.isFinite) fun _ => (true : Prop) :=
      hvalid.bind fun n hn => .number (t.restored_finite hn)
    exact hrestored.all
  have hprint := t.print_valid h
  rw [storedDocument, dump, Jsonb.stored_eq hprint, Option.bind_some, parse, String.toList_ofList,
    Json.read_render (by simp [Json.isSpace]), Option.bind_eq_bind, Option.bind_some,
    Jsonb.settle_normalize hprint, hread, if_pos hfinite]

/-! ## Parameters that were stored -/

def Survives (v : Scalar) : Prop := ∀ x, v = .double x → ¬ t.BecomesInteger x

theorem decodeScalar_restored {v : Scalar} (h : v.Representable) (finite : v.Finite)
    (survives : t.Survives v) : decodeScalar ((encodeScalar v).map t.restored) = .ok v.value := by
  cases v with
  | double x =>
    rw [encodeScalar, Json.map, Json.bind_number, t.restored_keeps finite (survives x rfl)]
    rfl
  | int i => exact decodeScalar_int t.keepsIntegers_restored h
  | _ => rfl

theorem survives_int (i : Int) : t.Survives (.int i) := by
  intro x hdouble
  cases hdouble

/-- What was read back once survives from then on. -/
theorem survives_again {v w : Scalar} (finite : v.Finite)
    (h : decodeScalar ((encodeScalar v).map t.restored) = .ok w) :
    t.Survives w ∧ w.value = w := by
  cases v with
  | double x =>
    by_cases becomes : t.BecomesInteger x
    · rw [encodeScalar, Json.map, Json.bind_number, decodeScalar,
        if_pos (t.restored_becomes finite becomes)] at h
      obtain ⟨_, _, hint⟩ := Result.bind_ok.mp h
      cases hint
      exact ⟨t.survives_int _, rfl⟩
    · rw [encodeScalar, Json.map, Json.bind_number, t.restored_keeps finite becomes] at h
      cases h
      refine ⟨fun y hdouble => ?_, congrArg Scalar.double x.value_value⟩
      cases hdouble
      exact t.becomesInteger_value.not.mpr becomes
  | int i =>
    rw [encodeScalar, encodeInt, Json.map, Json.bind_number, decodeScalar,
      if_pos (t.keepsIntegers_restored.isInteger _)] at h
    obtain ⟨_, _, hint⟩ := Result.bind_ok.mp h
    cases hint
    exact ⟨t.survives_int _, rfl⟩
  | _ =>
    cases h
    refine ⟨fun y hdouble => ?_, rfl⟩
    cases hdouble

theorem survives_of_decode {v w : Scalar} (finite : v.Finite)
    (h : decodeScalar ((encodeScalar v).map t.restored) = .ok w) (same : w.value = v.value) :
    t.Survives v := by
  rintro x rfl becomes
  have hinteger := t.restored_becomes finite becomes
  rw [encodeScalar, Json.map, Json.bind_number, decodeScalar, if_pos hinteger] at h
  obtain ⟨_, _, hint⟩ := Result.bind_ok.mp h
  cases hint
  cases same

/-! ## Specifications that were stored -/

theorem safe_documentKeys : ∀ key ∈ documentKeys, (safeString key : Prop) := by decide

section Run

variable {s : RunSpec} (hs : validate s = .ok ())

include hs

theorem storedRun_eq : t.storedRun s = some (decodeSpec (s.encode.map t.restored)) := by
  have hvalid := encode_valid safe_documentKeys (everyText_of_validate hs) (finite_of_validate hs)
  rw [storedRun, t.storedDocument_eq hvalid]
  rfl

theorem decodeSpec_restored (h : s.Representable)
    (survives : ∀ e ∈ s.parameters.entries, t.Survives e.2) :
    decodeSpec (s.encode.map t.restored) = .ok s.value := by
  have hentries := mapM_entries (fun v => decodeScalar ((encodeScalar v).map t.restored))
    fun e he => t.decodeScalar_restored (h e he) (finite_of_validate hs e he) (survives e he)
  rw [decodeSpec_encode_map t.keepsIntegers_restored (inRange_of_validate hs)
    (decodeParameters_map _), hentries, Except.ok_bind, ofEntries_entries, Except.pure_eq,
    Except.ok_bind]
  change (do validate s.value; return s.value : Result RunSpec) = .ok s.value
  rw [validate_value, hs]
  rfl

/-- What is read back has the entries that are read back. -/
theorem decodeSpec_entries {s' : RunSpec}
    (hdecode : decodeSpec (s.encode.map t.restored) = .ok s') :
    ∃ entries, (s.parameters.entries.mapM fun e =>
        return (e.1, ← decodeScalar ((encodeScalar e.2).map t.restored))) = .ok entries ∧
      s' = { s with parameters := .ofEntries entries } := by
  rw [decodeSpec_encode_map t.keepsIntegers_restored (inRange_of_validate hs)
    (decodeParameters_map _)] at hdecode
  obtain ⟨parameters, hparameters, hdecode⟩ := Result.bind_ok.mp hdecode
  obtain ⟨entries, hentries, hmap⟩ := Result.bind_ok.mp hparameters
  obtain ⟨_, _, hspec⟩ := Result.bind_ok.mp hdecode
  cases hmap
  cases hspec
  exact ⟨entries, hentries, rfl⟩

theorem survives_of_decodeSpec {s' : RunSpec}
    (hdecode : decodeSpec (s.encode.map t.restored) = .ok s') (same : s'.value = s.value) :
    ∀ e ∈ s.parameters.entries, t.Survives e.2 := by
  obtain ⟨entries, hentries, rfl⟩ := t.decodeSpec_entries hs hdecode
  intro e he
  obtain ⟨w, hw, hvalue⟩ := entries_of_mapM
    (fun v => decodeScalar ((encodeScalar v).map t.restored)) hentries
    (congrArg RunSpec.parameters same) e he
  exact t.survives_of_decode (finite_of_validate hs e he) hw hvalue

/-- A specification that was read back is read back unchanged. -/
theorem storedRun_again {s' : RunSpec} (hread : t.storedRun s = some (.ok s')) :
    t.storedRun s' = some (.ok s') := by
  have hdecode := Option.some.inj ((t.storedRun_eq hs).symm.trans hread)
  obtain ⟨hvalidate, hrepresentable⟩ := decodeSpec_accepts hdecode
  have again : ∀ e ∈ s'.parameters.entries, t.Survives e.2 ∧ e.2.value = e.2 := by
    obtain ⟨entries, hentries, rfl⟩ := t.decodeSpec_entries hs hdecode
    intro e he
    obtain ⟨d, hd, hentry⟩ := Except.mem_mapM hentries (Entries.mem_collect he)
    obtain ⟨w, hw, hpair⟩ := Result.bind_ok.mp hentry
    cases hpair
    exact t.survives_again (finite_of_validate hs d hd) hw
  have hvalue : s'.value = s' := by
    rw [RunSpec.value, mapValues_eq_self fun e he => (again e he).2]
  rw [t.storedRun_eq hvalidate, t.decodeSpec_restored hvalidate hrepresentable
    fun e he => (again e he).1, hvalue]

end Run

end FloatText

/-! ## Sweeps that were stored -/

/-- What `RunService::sweep` and the loop of `submit_sweep` check. -/
def SweepSpec.Accepted (s : SweepSpec) : Prop :=
  ∃ runs, expandSweep s.base s.grid = .ok runs ∧ ∀ run ∈ runs, validateSubmission run = .ok ()

structure SweepSpec.Representable (s : SweepSpec) : Prop where
  base : s.base.Representable
  grid : ∀ e ∈ s.grid.entries, ∀ v ∈ e.2, v.Representable

section Expanded

variable {s : SweepSpec} {runs : List RunSpec} (expanded : expandSweep s.base s.grid = .ok runs)

include expanded

/-- Every value of the grid was checked as a parameter of a run. -/
theorem validScalar_of_expanded {e : String × List Scalar} (he : e ∈ s.grid.entries) :
    e.2 ≠ [] ∧ safeString e.1 ∧ ∀ v ∈ e.2, validScalar v = .ok () := by
  obtain ⟨nonempty, checked⟩ := (expandSweep_values expanded).2 e he
  refine ⟨nonempty, ?_, fun v hv => ?_⟩
  · obtain ⟨v, hv⟩ := List.exists_mem_of_ne_nil _ nonempty
    obtain ⟨item, hitem, hmem⟩ := checked v hv
    exact (parameter_of_validate hitem hmem).1
  · obtain ⟨item, hitem, hmem⟩ := checked v hv
    exact (parameter_of_validate hitem hmem).2

theorem everyText_of_expanded : s.EveryText fun text => safeString text where
  base := everyText_of_validate (expandSweep_values expanded).1
  grid _ he :=
    have checked := validScalar_of_expanded expanded he
    ⟨checked.2.1, fun v hv => everyText_of_validScalar (checked.2.2 v hv)⟩

theorem finite_of_expanded : s.Finite where
  base := finite_of_validate (expandSweep_values expanded).1
  grid _ he v hv := finite_of_validScalar ((validScalar_of_expanded expanded he).2.2 v hv)

theorem decodable_of_expanded (h : s.Representable) : s.Decodable where
  base := (expandSweep_values expanded).1
  representable := h.base
  dimensions e he := ⟨(validScalar_of_expanded expanded he).1, h.grid e he⟩

end Expanded

namespace FloatText

variable (t : FloatText) {s : SweepSpec} {runs : List RunSpec}
  (expanded : expandSweep s.base s.grid = .ok runs)

/-- Every parameter of the base and every value of the grid survives. -/
structure SweepSurvives (s : SweepSpec) : Prop where
  base : ∀ e ∈ s.base.parameters.entries, t.Survives e.2
  grid : ∀ e ∈ s.grid.entries, ∀ v ∈ e.2, t.Survives v

include expanded

theorem storedSweep_eq : t.storedSweep s = some (decodeSweep (s.encode.map t.restored)) := by
  have hvalid := sweep_encode_valid safe_documentKeys (everyText_of_expanded expanded)
    (finite_of_expanded expanded)
  rw [storedSweep, t.storedDocument_eq hvalid]
  rfl

theorem decodeSweep_restored (h : s.Representable) (survives : t.SweepSurvives s) :
    decodeSweep (s.encode.map t.restored) = .ok s.value := by
  have finite := finite_of_expanded expanded
  have hdimension : ∀ e ∈ s.grid.entries,
      decodeDimension ((Json.array (e.2.map encodeScalar)).map t.restored) =
        .ok (e.2.map Scalar.value) := by
    intro e he
    have hvalues := Except.mapM_eq_ok fun v hv => t.decodeScalar_restored (h.grid e he v hv)
      (finite.grid e he v hv) (survives.grid e he v hv)
    rw [decodeDimension_encode_map, hvalues,
      List.isEmpty_eq_false_iff.mpr (validScalar_of_expanded expanded he).1]
    rfl
  have hgrid := mapM_entries (fun values => (liftM (decodeDimension
    ((Json.array (values.map encodeScalar)).map t.restored)) : Decoding (List Scalar)))
      fun _ he => Decoding.lift_result_eq_ok.mpr (hdimension _ he)
  rw [decodeSweep_encode_map, t.decodeSpec_restored (expandSweep_values expanded).1 h.base
    survives.base, Decoding.lift_result_ok, Except.ok_bind, hgrid, Except.ok_bind,
    ofEntries_entries, Except.pure_eq]
  rfl

theorem survives_of_decodeSweep {s' : SweepSpec}
    (hdecode : decodeSweep (s.encode.map t.restored) = .ok s') (same : s'.value = s.value) :
    t.SweepSurvives s := by
  rw [decodeSweep_encode_map] at hdecode
  obtain ⟨base, hbase, hdecode⟩ := Except.bind_eq_ok.mp hdecode
  obtain ⟨dimensions, hdimensions, hspec⟩ := Except.bind_eq_ok.mp hdecode
  cases hspec
  rw [Decoding.lift_result_eq_ok] at hbase
  refine ⟨t.survives_of_decodeSpec (expandSweep_values expanded).1 hbase
    (congrArg SweepSpec.base same), fun e he => ?_⟩
  obtain ⟨values, hvalues, hsame⟩ := entries_of_mapM (fun values => (liftM (decodeDimension
    ((Json.array (values.map encodeScalar)).map t.restored)) : Decoding (List Scalar)))
      hdimensions (congrArg SweepSpec.grid same) e he
  rw [Decoding.lift_result_eq_ok, decodeDimension_encode_map] at hvalues
  obtain ⟨decoded, hdecoded, hrest⟩ := Result.bind_ok.mp hvalues
  obtain ⟨_, _, hresult⟩ := Result.bind_ok.mp hrest
  cases hresult
  intro v hv
  obtain ⟨w, hw, hvalue⟩ := Except.mapM_pointwise hdecoded hsame v hv
  exact t.survives_of_decode ((finite_of_expanded expanded).grid e he v hv) hw hvalue

end FloatText

/-- A reading that gives the value where something survives, and the value there only. -/
theorem reads_back {ε α : Type} {read : Option (Except ε α)} {s : α} {survives : Prop}
    (value : α → α) (idempotent : value (value s) = value s)
    (keeps : survives → read = some (.ok (value s)))
    (only : ∀ s', read = some (.ok s') → value s' = value s → survives) :
    ((∃ s', read = some (.ok s') ∧ value s' = value s) ↔ survives) ∧
      (read = some (.ok s) ↔ survives ∧ value s = s) := by
  refine ⟨⟨?_, ?_⟩, ⟨?_, ?_⟩⟩
  · rintro ⟨s', hread, same⟩
    exact only s' hread same
  · exact fun hall => ⟨value s, keeps hall, idempotent⟩
  · intro hread
    have hall := only s hread rfl
    have hvalue := (keeps hall).symm.trans hread
    exact ⟨hall, Except.ok.inj (Option.some.inj hvalue)⟩
  · rintro ⟨hall, hvalue⟩
    rw [keeps hall, hvalue]

/-- A specification survives its column exactly when no double of it becomes an integer there;
apart from the sign of zeros it is then read back unchanged. What was read back once is kept, so
writing it for a rerun changes nothing. -/
theorem stored_specification (t : FloatText) :
    (∀ s : RunSpec, validateSubmission s = .ok () → s.Representable →
      ((∃ s', t.storedRun s = some (.ok s') ∧ s'.value = s.value) ↔
        ∀ e ∈ s.parameters.entries, t.Survives e.2) ∧
      (t.storedRun s = some (.ok s) ↔
        (∀ e ∈ s.parameters.entries, t.Survives e.2) ∧ s.value = s) ∧
      ∀ s', t.storedRun s = some (.ok s') → t.storedRun s' = some (.ok s')) ∧
    ∀ s : SweepSpec, s.Accepted → s.Representable →
      ((∃ s', t.storedSweep s = some (.ok s') ∧ s'.value = s.value) ↔ t.SweepSurvives s) ∧
      (t.storedSweep s = some (.ok s) ↔ t.SweepSurvives s ∧ s.value = s) := by
  refine ⟨fun s hs h => ?_, fun s accepted h => ?_⟩
  · obtain ⟨_, hvalidate, _⟩ := Result.bind_ok.mp hs
    have hread := t.storedRun_eq hvalidate
    have keeps := fun survives => congrArg some (t.decodeSpec_restored hvalidate h survives)
    have survives : ∀ s', t.storedRun s = some (.ok s') → s'.value = s.value →
        ∀ e ∈ s.parameters.entries, t.Survives e.2 :=
      fun s' hs' => t.survives_of_decodeSpec hvalidate (Option.some.inj (hread.symm.trans hs'))
    obtain ⟨value, same⟩ :=
      reads_back RunSpec.value s.value_value (fun hall => hread.trans (keeps hall)) survives
    exact ⟨value, same, fun s' hs' => t.storedRun_again hvalidate hs'⟩
  · obtain ⟨runs, expanded, _⟩ := accepted
    have hread := t.storedSweep_eq expanded
    have keeps := fun survives => congrArg some (t.decodeSweep_restored expanded h survives)
    have survives : ∀ s', t.storedSweep s = some (.ok s') → s'.value = s.value →
        t.SweepSurvives s :=
      fun s' hs' => t.survives_of_decodeSweep expanded (Option.some.inj (hread.symm.trans hs'))
    exact reads_back SweepSpec.value s.value_value (fun hall => hread.trans (keeps hall)) survives

namespace Sample

/-- `1e15` and `1e19`. -/
def quadrillion : Double := ⟨0x430c6bf526340000⟩

def tenQuintillion : Double := ⟨0x43e158e460913d00⟩

def requestedSweep (values : List Scalar) : SweepSpec :=
  ⟨requested .null, .ofEntries [("rate", values)]⟩

theorem requested_representable (x : Double) : (requested (.double x)).Representable :=
  fun _ he => List.mem_singleton.mp he ▸ trivial

end Sample

theorem stored_specification_small :
    FloatText.exact.storedRun (Sample.requested (.double Sample.one)) =
        some (.ok (Sample.requested (.double Sample.one))) ∧
      FloatText.exact.storedSweep (Sample.requestedSweep [.double Sample.one, .int 1]) =
        some (.ok (Sample.requestedSweep [.double Sample.one, .int 1])) := by
  have small : ¬ FloatText.exact.BecomesInteger Sample.one := by decide +kernel
  have survives : FloatText.exact.Survives (.double Sample.one) := by
    rintro _ ⟨⟩
    exact small
  have accepted : (Sample.requestedSweep [.double Sample.one, .int 1]).Accepted :=
    ⟨[Sample.requested (.double Sample.one), Sample.requested (.int 1)], by decide +kernel⟩
  have stored := stored_specification FloatText.exact
  constructor
  · refine (stored.1 _ (by decide +kernel) (Sample.requested_representable _)).2.1.mpr ⟨?_, rfl⟩
    exact fun e he => List.mem_singleton.mp he ▸ survives
  · refine (stored.2 _ accepted ⟨?_, ?_⟩).2.mpr ⟨⟨?_, ?_⟩, rfl⟩
    · exact fun e he => List.mem_singleton.mp he ▸ trivial
    · intro e he v hv
      rw [List.mem_singleton.mp he] at hv
      rcases List.mem_pair.mp hv with rfl | rfl
      · trivial
      · exact ⟨by decide, by decide⟩
    · exact fun e he => List.mem_singleton.mp he ▸ nofun
    · intro e he v hv
      rw [List.mem_singleton.mp he] at hv
      rcases List.mem_pair.mp hv with rfl | rfl
      · exact survives
      · nofun

/-- `1e15` comes back as an integer and `1e19` makes the row unreadable. -/
theorem stored_specification_large :
    validateSubmission (Sample.requested (.double Sample.quadrillion)) = .ok () ∧
    FloatText.exact.storedRun (Sample.requested (.double Sample.quadrillion)) =
      some (.ok (Sample.requested (.int 1000000000000000))) ∧
    validateSubmission (Sample.requested (.double Sample.tenQuintillion)) = .ok () ∧
    FloatText.exact.storedRun (Sample.requested (.double Sample.tenQuintillion)) =
      some (fault .invalid "integer parameter is too large") ∧
    ¬ ∀ s : RunSpec, validateSubmission s = .ok () → s.Representable →
      ∃ s', FloatText.exact.storedRun s = some (.ok s') ∧ s'.value = s.value := by
  have quadrillion :
      validateSubmission (Sample.requested (.double Sample.quadrillion)) = .ok () := by
    decide +kernel
  have tenQuintillion :
      validateSubmission (Sample.requested (.double Sample.tenQuintillion)) = .ok () := by
    decide +kernel
  obtain ⟨_, valid₁, _⟩ := Result.bind_ok.mp quadrillion
  obtain ⟨_, valid₂, _⟩ := Result.bind_ok.mp tenQuintillion
  have integer : FloatText.exact.storedRun (Sample.requested (.double Sample.quadrillion)) =
      some (.ok (Sample.requested (.int 1000000000000000))) := by
    rw [FloatText.storedRun_eq _ valid₁]
    decide +kernel
  have refused : FloatText.exact.storedRun (Sample.requested (.double Sample.tenQuintillion)) =
      some (fault .invalid "integer parameter is too large") := by
    rw [FloatText.storedRun_eq _ valid₂]
    decide +kernel
  refine ⟨quadrillion, integer, tenQuintillion, refused, fun keeps => ?_⟩
  obtain ⟨s', hread, same⟩ := keeps _ quadrillion (Sample.requested_representable _)
  cases integer.symm.trans hread
  revert same
  decide +kernel

end Runyard
