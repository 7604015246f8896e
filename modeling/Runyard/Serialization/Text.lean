import Runyard.Decimal
import Runyard.JsonText
import Runyard.Serialization.Number
import Mathlib.Tactic.Ring

/-!
# Printing and parsing documents

`dump()` and `Json::parse` on the numbers that the program uses. The digits of a double and
`strtod` come from the C++ library; a finite double reads back from its own digits.
-/

namespace Runyard

def Double.negative (x : Double) : Bool := x.bits.msb

def Double.magnitude (x : Double) : Nat := x.bits.toNat % 2 ^ 63

structure FloatText where
  /-- The shortest digits of the magnitude that read back as the same double. -/
  digits : Double → Decimal
  /-- `strtod`, by the sign and the value of its argument. -/
  strtod : Bool → Decimal → Double
  digits_normal : ∀ x, x.isFinite → (digits x).Normal
  digits_zero : ∀ x, x.isFinite → (digits x = .zero ↔ x.magnitude = 0)
  strtod_digits : ∀ x, x.isFinite → strtod x.negative (digits x) = x

namespace Number

def isFinite : Number → Bool
  | .float x => x.isFinite
  | _ => true

/-- The number as the parser gives it back: it keeps signed integers for negative ones. -/
def reread : Number → Number
  | .integer value =>
    if value.toInt < 0 then .integer value else .unsigned (.ofNat value.toInt.toNat)
  | n => n

end Number

/-- The layout of the digits of a double, with the point after digit `point`. -/
def format (negative : Bool) (d : Decimal) : Numeral :=
  let point := d.digits + d.exponent
  if d.coefficient = 0 then ⟨negative, 0, 1, none⟩
  else if d.digits ≤ point ∧ point ≤ 15 then
    ⟨negative, d.coefficient * 10 ^ (d.exponent.toNat + 1), 1, none⟩
  else if -4 < point ∧ point ≤ 15 then ⟨negative, d.coefficient, (d.digits - point).toNat, none⟩
  else ⟨negative, d.coefficient, d.digits - 1, some (point - 1)⟩

theorem format_negative (negative : Bool) (d : Decimal) :
    (format negative d).negative = negative := by
  dsimp only [format]
  split_ifs <;> rfl

/-- A double is always printed with a point or an exponent. -/
theorem format_not_integer (negative : Bool) (d : Decimal) :
    (format negative d).isInteger = false := by
  dsimp only [format]
  split_ifs with hzero hfixed hpoint
  · rfl
  · rfl
  · have hscale : (d.digits - (d.digits + d.exponent) : Int).toNat ≠ 0 := by omega
    rw [Numeral.isInteger, decide_eq_false hscale, Bool.false_and]
  · simp [Numeral.isInteger]

theorem decimal_format (negative : Bool) {d : Decimal} (h : d.Normal) :
    (format negative d).decimal = d := by
  have hpositive := d.digits_pos
  dsimp only [format, Numeral.decimal]
  split_ifs with hzero hfixed hpoint
  · rw [h.eq_zero hzero]
    rfl
  · have hexponent : (0 : Int) - (1 : Nat) = d.exponent - (d.exponent.toNat + 1 : Nat) := by omega
    rw [Option.getD_none, hexponent]
    exact h.normalize_shift _
  · have hexponent : (0 : Int) - ((d.digits - (d.digits + d.exponent) : Int).toNat : Nat) =
        d.exponent := by omega
    rw [Option.getD_none, hexponent]
    exact h.normalize_self
  · have hexponent : (d.digits + d.exponent - 1 : Int) - (d.digits - 1 : Nat) = d.exponent := by
      omega
    rw [Option.getD_some, hexponent]
    exact h.normalize_self

namespace FloatText

variable (t : FloatText)

/-- What `dump` writes for a number; JSON has no infinities and no NaN. -/
def print : Number → Json Numeral
  | .integer value => .number ⟨value.toInt < 0, value.toInt.natAbs, 0, none⟩
  | .unsigned value => .number ⟨false, value.toNat, 0, none⟩
  | .float x => if x.isFinite then .number (format x.negative (t.digits x)) else .null

/-- The kind of number that the parser makes of a literal. An integer that does not fit is read
as a double. -/
def classify (n : Numeral) : Number :=
  if n.isInteger then
    if n.negative then
      if n.coefficient ≤ 2 ^ 63 then .integer (.ofInt (-n.coefficient))
      else .float (t.strtod true n.decimal)
    else if n.coefficient < 2 ^ 64 then .unsigned (.ofNat n.coefficient)
    else .float (t.strtod false n.decimal)
  else .float (t.strtod n.negative n.decimal)

/-- JSON text has no infinities and no NaN. -/
def finiteNumbers (j : Json Number) : Bool := j.all Number.isFinite fun _ => true

def dump (j : Json Number) : String := String.ofList ((j.bind t.print).render [])

/-- `Json::parse`; `none` when it throws, also for a number that overflows. -/
def parse (text : String) : Option (Json Number) := do
  let j ← Json.read text.toList
  if finiteNumbers (j.map t.classify) then some (j.map t.classify) else none

theorem print_finite {n : Number} (h : n.isFinite) : ∃ literal, t.print n = .number literal := by
  cases n with
  | integer value => exact ⟨_, rfl⟩
  | unsigned value => exact ⟨_, rfl⟩
  | float x => exact ⟨_, if_pos h⟩

theorem classify_negative {c : Nat} (h : c ≤ 2 ^ 63) :
    t.classify ⟨true, c, 0, none⟩ = .integer (.ofInt (-c)) := by
  have hinteger : Numeral.isInteger ⟨true, c, 0, none⟩ := rfl
  rw [classify, if_pos hinteger, if_pos rfl, if_pos h]

theorem classify_unsigned {c : Nat} (h : c < 2 ^ 64) :
    t.classify ⟨false, c, 0, none⟩ = .unsigned (.ofNat c) := by
  have hinteger : Numeral.isInteger ⟨false, c, 0, none⟩ := rfl
  rw [classify, if_pos hinteger, if_neg Bool.false_ne_true, if_pos h]

/-- A number that was printed is read as the same number. -/
theorem classify_print {n : Number} (h : n.isFinite) :
    (t.print n).map t.classify = .number n.reread := by
  cases n with
  | integer value =>
    have hlow := value.le_toInt
    have hhigh := value.toInt_lt
    by_cases hnegative : value.toInt < 0
    · have hvalue : -(value.toInt.natAbs : Int) = value.toInt := by omega
      have hread := t.classify_negative (c := value.toInt.natAbs) (by omega)
      rw [hvalue, Int64.ofInt_toInt] at hread
      simp [print, Json.map, Number.reread, hnegative, hread]
    · have hvalue : value.toInt.toNat = value.toInt.natAbs := by omega
      have hread := t.classify_unsigned (c := value.toInt.natAbs) (by omega)
      simp [print, Json.map, Number.reread, hnegative, hvalue, hread]
  | unsigned value =>
    have hread := t.classify_unsigned value.toNat_lt
    simp [print, Json.map, Number.reread, hread]
  | float x =>
    have hread : t.classify (format x.negative (t.digits x)) = .float x := by
      rw [classify, format_not_integer, format_negative,
        decimal_format _ (t.digits_normal x h), t.strtod_digits x h]
      rfl
    have hprint : t.print (.float x) = .number (format x.negative (t.digits x)) := if_pos h
    rw [hprint, Json.map, Json.bind_number, hread]
    rfl

theorem print_valid {j : Json Number} {text : String → Prop} (h : j.Valid (·.isFinite) text) :
    (j.bind t.print).Valid (fun _ => True) text := by
  refine h.bind fun n hn => ?_
  obtain ⟨literal, hliteral⟩ := t.print_finite hn
  rw [hliteral]
  exact .number trivial

/-- A document without infinities reads back with the same numbers. -/
theorem parse_dump {j : Json Number} {text : String → Prop} (h : j.Valid (·.isFinite) text) :
    t.parse (t.dump j) = some (j.map Number.reread) := by
  have hread : (j.bind t.print).map t.classify = j.map Number.reread := by
    rw [Json.map_bind]
    exact h.bind_congr fun n hn => t.classify_print hn
  have hfinite : finiteNumbers (j.map Number.reread) := by
    have hvalid : j.Valid (·.isFinite) fun _ => (true : Prop) := h.mono fun _ _ => rfl
    refine (hvalid.bind fun n hn => .number ?_).all
    cases n with
    | integer value =>
      dsimp only [Number.reread]
      split <;> rfl
    | unsigned value => rfl
    | float x => exact hn
  rw [parse, dump, String.toList_ofList, Json.read_render (by simp), Option.bind_eq_bind,
    Option.bind_some, (t.print_valid h).settle_eq, hread, if_pos hfinite]

end FloatText

/-! ## Exact decimals

Every finite double has a finite decimal expansion. The printer that writes all its digits is an
instance of `FloatText`, and on numbers with few digits they are the shortest ones. -/

namespace Double

/-- The smallest positive double is `2 ^ (-precision)`. -/
def precision : Nat := 1074

/-- How far the significand is shifted above the spacing of the smallest numbers. -/
def shift (x : Double) : Nat := x.magnitude / 2 ^ 52 - 1

/-- The magnitude in units of the smallest positive double. -/
def units (x : Double) : Nat := (x.magnitude - x.shift * 2 ^ 52) * 2 ^ x.shift

/-- The double of a magnitude in those units, rounded towards zero. -/
def ofUnits (negative : Bool) (units : Nat) : Double :=
  let places := units.log2 - 52
  ⟨BitVec.ofNat 64 ((if negative then 2 ^ 63 else 0) + (places * 2 ^ 52 + units / 2 ^ places))⟩

def exactDigits (x : Double) : Decimal := .normalize (x.units * 5 ^ precision) (-precision)

def ofDecimal (negative : Bool) (d : Decimal) : Double :=
  ofUnits negative
    (d.coefficient * 10 ^ d.exponent.toNat * 2 ^ precision / 10 ^ (-d.exponent).toNat)

theorem magnitude_eq (x : Double) : x.shift * 2 ^ 52 ≤ x.magnitude ∧
    x.magnitude - x.shift * 2 ^ 52 < 2 ^ 53 ∧
      (x.shift = 0 ∨ 2 ^ 52 ≤ x.magnitude - x.shift * 2 ^ 52) := by
  dsimp only [shift]
  omega

/-- The significand has 53 bits where it is shifted, so its length gives the shift. -/
theorem log2_units (x : Double) : x.units.log2 - 52 = x.shift := by
  obtain ⟨_, hhigh, hshift | hlow⟩ := x.magnitude_eq
  · by_cases hzero : x.units = 0
    · rw [hzero, hshift]
      rfl
    · have hsmall : x.units < 2 ^ 53 := by rwa [units, hshift, pow_zero, Nat.mul_one, ← hshift]
      have hlog := (Nat.log2_lt hzero).mpr hsmall
      omega
  · have hlower : 2 ^ (52 + x.shift) ≤ x.units := by
      rw [Nat.pow_add]
      exact Nat.mul_le_mul_right _ hlow
    have hupper : x.units < 2 ^ (53 + x.shift) := by
      rw [Nat.pow_add]
      exact Nat.mul_lt_mul_of_pos_right hhigh (Nat.two_pow_pos _)
    have hzero : x.units ≠ 0 := (Nat.lt_of_lt_of_le (Nat.two_pow_pos _) hlower).ne'
    have hle := (Nat.le_log2 hzero).mpr hlower
    have hlt := (Nat.log2_lt hzero).mpr hupper
    omega

theorem ofUnits_units (x : Double) : ofUnits x.negative x.units = x := by
  have hmagnitude := x.magnitude_eq.1
  have hunits : x.units / 2 ^ x.shift = x.magnitude - x.shift * 2 ^ 52 :=
    Nat.mul_div_cancel _ (Nat.two_pow_pos _)
  have hbits : (if x.negative then 2 ^ 63 else 0) + x.magnitude = x.bits.toNat := by
    have hbound := x.bits.isLt
    rw [magnitude, negative, BitVec.msb_eq_decide]
    split
    · next h =>
      simp only [decide_eq_true_eq] at h
      omega
    · next h =>
      simp only [decide_eq_true_eq] at h
      omega
  rw [ofUnits, log2_units, hunits, Nat.add_sub_cancel' hmagnitude, hbits, BitVec.ofNat_toNat]
  rfl

theorem exactDigits_eq_zero_iff (x : Double) : x.exactDigits = .zero ↔ x.magnitude = 0 := by
  have hunits : x.units = 0 ↔ x.magnitude - x.shift * 2 ^ 52 = 0 := by
    rw [units, Nat.mul_eq_zero, or_iff_left (Nat.two_pow_pos _).ne']
  rw [exactDigits, Decimal.normalize_eq_zero_iff, Nat.mul_eq_zero,
    or_iff_left (Nat.pow_pos (by decide)).ne', hunits]
  obtain ⟨hle, _, hshift | hlow⟩ := x.magnitude_eq
  · rw [hshift, Nat.zero_mul, Nat.sub_zero]
  · omega

theorem ofDecimal_exactDigits (x : Double) : ofDecimal x.negative x.exactDigits = x := by
  by_cases hzero : x.units = 0
  · have hread := x.ofUnits_units
    rw [hzero] at hread
    rw [exactDigits, hzero, Nat.zero_mul, Decimal.normalize, if_pos rfl, ofDecimal, Decimal.zero,
      Nat.zero_mul, Nat.zero_mul, Nat.zero_div, hread]
  · have hpositive : x.units * 5 ^ precision ≠ 0 :=
      Nat.mul_ne_zero hzero (Nat.pow_pos (by decide)).ne'
    obtain ⟨places, hdigits, hexponent⟩ := Decimal.normalize_spec hpositive (-precision)
    rw [← exactDigits] at hdigits hexponent
    have hplaces : precision + x.exactDigits.exponent.toNat =
        (-x.exactDigits.exponent).toNat + places := by omega
    have hunits : x.exactDigits.coefficient * 10 ^ x.exactDigits.exponent.toNat * 2 ^ precision =
        x.units * 10 ^ (-x.exactDigits.exponent).toNat := by
      refine Nat.eq_of_mul_eq_mul_right (Nat.pow_pos (by decide : 0 < 10) (n := places)) ?_
      generalize x.exactDigits.exponent.toNat = above at hplaces ⊢
      generalize (-x.exactDigits.exponent).toNat = below at hplaces ⊢
      calc x.exactDigits.coefficient * 10 ^ above * 2 ^ precision * 10 ^ places
          = x.exactDigits.coefficient * 10 ^ places * 2 ^ precision * 10 ^ above := by ring
        _ = x.units * (5 ^ precision * 2 ^ precision * 10 ^ above) := by rw [← hdigits]; ring
        _ = x.units * 10 ^ (precision + above) := by rw [← Nat.mul_pow, ← Nat.pow_add]
        _ = x.units * 10 ^ below * 10 ^ places := by rw [hplaces, Nat.pow_add, Nat.mul_assoc]
    rw [ofDecimal, hunits, Nat.mul_div_cancel _ (Nat.pow_pos (by decide)), ofUnits_units]

end Double

def FloatText.exact : FloatText where
  digits := Double.exactDigits
  strtod := Double.ofDecimal
  digits_normal _ _ := Decimal.normalize_normal _ _
  digits_zero x _ := x.exactDigits_eq_zero_iff
  strtod_digits x _ := x.ofDecimal_exactDigits

example : format false (Double.exactDigits ⟨0x430c6bf526340000⟩) = ⟨false, 1, 0, some 15⟩ ∧
    format true (Double.exactDigits ⟨0xbfe4000000000000⟩) = ⟨true, 625, 3, none⟩ := by
  decide +kernel

end Runyard
