import Runyard.Serialization.Text
import Mathlib.Data.List.Sort

/-!
# `jsonb` columns

PostgreSQL keeps a document with its numbers as `numeric` values and its keys in an order of its
own. It writes every number positionally, with the digits after the point that the literal asked
for, and has no negative zero. Texts with NUL are refused.
-/

namespace Runyard

namespace Jsonb

/-- The literal as `numeric` gives it back. -/
def positional (n : Numeral) : Numeral :=
  let exponent := n.exponent.getD 0
  ⟨n.negative && n.coefficient ≠ 0, n.coefficient * 10 ^ (exponent - n.scale).toNat,
    (n.scale - exponent).toNat, none⟩

/-- Keys are ordered by their length and then by their bytes. -/
def before (e d : String × Json Numeral) : Prop :=
  e.1.utf8ByteSize < d.1.utf8ByteSize ∨ e.1.utf8ByteSize = d.1.utf8ByteSize ∧ e.1 ≤ d.1

instance : DecidableRel before := fun _ _ => inferInstanceAs (Decidable (_ ∨ _ ∧ _))

mutual

def normalize : Json Numeral → Json Numeral
  | .number n => .number (positional n)
  | .array items => .array (normalizeItems items)
  | .object fields => .object ((normalizeFields fields).insertionSort before)
  | j => j

def normalizeItems : List (Json Numeral) → List (Json Numeral)
  | [] => []
  | j :: rest => normalize j :: normalizeItems rest

def normalizeFields : List (String × Json Numeral) → List (String × Json Numeral)
  | [] => []
  | (key, value) :: rest => (key, normalize value) :: normalizeFields rest

end

/-- The text of a column that was written from `text`; `none` when PostgreSQL refuses it. -/
def stored (text : String) : Option String := do
  let j ← Json.read text.toList
  if j.all (fun _ => true) safeString then some (String.ofList ((normalize j).render [' ']))
  else none

theorem normalize_array (items : List (Json Numeral)) :
    normalize (.array items) = .array (items.map normalize) := by
  have each : normalizeItems items = items.map normalize := by
    induction items with
    | nil => rfl
    | cons j rest ih => rw [normalizeItems, ih, List.map_cons]
  rw [normalize, each]

theorem normalize_object (fields : List (String × Json Numeral)) :
    normalize (.object fields) =
      .object ((fields.map fun e => (e.1, normalize e.2)).insertionSort before) := by
  have each : normalizeFields fields = fields.map fun e => (e.1, normalize e.2) := by
    induction fields with
    | nil => rfl
    | cons e rest ih => rw [normalizeFields, ih, List.map_cons]
  rw [normalize, each]

/-- A parser that orders the keys again finds only the numbers changed. -/
theorem settle_normalize {number : Numeral → Prop} {text : String → Prop} {j : Json Numeral}
    (h : j.Valid number text) : (normalize j).settle = j.map positional := by
  induction h with
  | null | boolean | number | string => rfl
  | array _ ih =>
    rw [normalize_array, Json.settle_array, List.map_map, Json.map, Json.bind_array]
    exact congrArg _ (List.map_congr_left ih)
  | @object fields ascending _ _ ih =>
    have ordered : Entries.Ascending (fields.map fun e => (e.1, e.2.map positional)) :=
      List.pairwise_map.mpr ascending
    have sorted : (((fields.map fun e => (e.1, normalize e.2)).insertionSort before).map
        fun e => (e.1, e.2.settle)).Perm (fields.map fun e => (e.1, e.2.map positional)) := by
      refine ((List.perm_insertionSort before _).map _).trans (.of_eq ?_)
      rw [List.map_map]
      exact List.map_congr_left fun e he => congrArg (Prod.mk e.1) (ih e he)
    rw [normalize_object, Json.settle_object, ordered.collect_of_perm sorted, Json.map,
      Json.bind_object]
    rfl

theorem stored_eq {j : Json Numeral} (h : j.Valid (fun _ => True) fun s => safeString s) :
    stored (String.ofList (j.render [])) = some (String.ofList ((normalize j).render [' '])) := by
  have hall : j.all (fun _ => true) safeString := by
    have hvalid : j.Valid (fun _ => (true : Prop)) fun s => safeString s := by
      have htrue : (fun _ : Numeral => ((true : Bool) : Prop)) = fun _ => True := by simp
      rwa [htrue]
    exact hvalid.all
  rw [stored, String.toList_ofList, Json.read_render (by simp), Option.bind_eq_bind,
    Option.bind_some, h.settle_eq, if_pos hall]

/-- The column keeps the value of a number. -/
theorem decimal_positional (n : Numeral) : (positional n).decimal = n.decimal := by
  by_cases hzero : n.coefficient = 0
  · simp [positional, Numeral.decimal, Decimal.normalize, hzero]
  · obtain ⟨places, hcoefficient, hexponent⟩ :=
      Decimal.normalize_spec hzero (n.exponent.getD 0 - n.scale)
    rw [← Numeral.decimal] at hcoefficient hexponent
    have hnormal : n.decimal.Normal := Decimal.normalize_normal _ _
    have hshift := hnormal.normalize_shift (places + (n.exponent.getD 0 - n.scale).toNat)
    have hpoint : n.decimal.exponent - (places + (n.exponent.getD 0 - n.scale).toNat : Nat) =
        0 - (n.scale - n.exponent.getD 0 : Int).toNat := by omega
    rwa [hpoint, Nat.pow_add, ← Nat.mul_assoc, ← hcoefficient] at hshift

theorem positional_negative {n : Numeral} (h : n.coefficient ≠ 0) :
    (positional n).negative = n.negative := by
  simp [positional, h]

theorem positional_of_integer {negative : Bool} {c : Nat} (h : negative → c ≠ 0) :
    positional ⟨negative, c, 0, none⟩ = ⟨negative, c, 0, none⟩ := by
  cases negative with
  | true => simp [positional, h rfl]
  | false => simp [positional]

/-! ## Doubles that `dump` printed -/

def integerValue (d : Decimal) : Nat := d.coefficient * 10 ^ d.exponent.toNat

/-- From the sixteenth digit on an integer is printed with an exponent, which `jsonb` drops
together with the point. -/
def LosesPoint (d : Decimal) : Prop := 0 ≤ d.exponent ∧ 10 ^ 15 ≤ integerValue d

instance : DecidablePred LosesPoint := fun _ => inferInstanceAs (Decidable (_ ∧ _))

theorem losesPoint_iff {d : Decimal} (hzero : d.coefficient ≠ 0) :
    LosesPoint d ↔ 0 ≤ d.exponent ∧ 15 < d.digits + d.exponent := by
  refine and_congr_right fun hexponent => ?_
  obtain ⟨places, hplaces⟩ := Int.eq_ofNat_of_zero_le hexponent
  rw [integerValue, hplaces, Int.toNat_natCast]
  by_cases hlarge : 15 ≤ places
  · have hdigits := d.digits_pos
    have hpower : 10 ^ 15 ≤ 10 ^ places := Nat.pow_le_pow_right (by decide) hlarge
    have hvalue : 10 ^ places ≤ d.coefficient * 10 ^ places :=
      Nat.le_mul_of_pos_left _ (Nat.pos_of_ne_zero hzero)
    exact iff_of_true (hpower.trans hvalue) (by omega)
  · have hdigits : d.digits ≤ 15 - places ↔ d.coefficient < 10 ^ (15 - places) :=
      Nat.length_toDigits_le_iff (by decide) (by omega)
    have hpower : 10 ^ 15 = 10 ^ (15 - places) * 10 ^ places := by
      rw [← Nat.pow_add, Nat.sub_add_cancel (by omega)]
    rw [hpower, Nat.mul_le_mul_right_iff (Nat.pow_pos (by decide)), ← not_lt, ← hdigits]
    omega

theorem format_coefficient (negative : Bool) {d : Decimal} (hzero : d.coefficient ≠ 0) :
    (format negative d).coefficient ≠ 0 := by
  dsimp only [format]
  rw [if_neg hzero]
  split_ifs with hfixed
  · exact Nat.mul_ne_zero hzero (Nat.pow_pos (by decide)).ne'
  · exact hzero
  · exact hzero

/-- Zero and the numbers that keep their point are no integers for the parser. -/
theorem positional_format_float (negative : Bool) {d : Decimal}
    (keeps : d.coefficient = 0 ∨ ¬ LosesPoint d) :
    (positional (format negative d)).isInteger = false := by
  have hpositive := d.digits_pos
  have hscale : (positional (format negative d)).scale ≠ 0 := by
    dsimp only [format]
    split_ifs with hzero hfixed hpoint
    · change ((1 : Nat) - 0 : Int).toNat ≠ 0
      decide
    · change ((1 : Nat) - 0 : Int).toNat ≠ 0
      decide
    · change ((d.digits - (d.digits + d.exponent) : Int).toNat - 0 : Int).toNat ≠ 0
      omega
    · have hkeeps := keeps.resolve_left hzero
      rw [losesPoint_iff hzero] at hkeeps
      change ((d.digits - 1 : Nat) - (d.digits + d.exponent - 1) : Int).toNat ≠ 0
      omega
  rw [Numeral.isInteger, decide_eq_false hscale, Bool.false_and]

theorem positional_format_integer (negative : Bool) {d : Decimal} (hzero : d.coefficient ≠ 0)
    (loses : LosesPoint d) :
    positional (format negative d) = ⟨negative, integerValue d, 0, none⟩ := by
  have hpositive := d.digits_pos
  obtain ⟨hexponent, hlong⟩ := (losesPoint_iff hzero).mp loses
  have hformat : format negative d =
      ⟨negative, d.coefficient, d.digits - 1, some (d.digits + d.exponent - 1)⟩ := by
    dsimp only [format]
    rw [if_neg hzero, if_neg (by omega), if_neg (by omega)]
  have hplaces : (d.digits + d.exponent - 1 : Int) - (d.digits - 1 : Nat) = d.exponent := by omega
  have hscale : ((d.digits - 1 : Nat) - (d.digits + d.exponent - 1) : Int).toNat = 0 := by omega
  simp only [positional, hformat, Option.getD_some, hplaces, hscale, integerValue]
  simp [hzero]

end Jsonb

end Runyard
