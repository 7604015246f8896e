import Runyard.Decimal
import Runyard.Json
import Mathlib.Tactic.Ring

/-!
# JSON text

A number as it is written, the text of a document and a reader of that text. A printer may put
blanks after commas and colons. The reader builds ordered maps: where a key occurs twice in an
object, it keeps the last value. What is written for an ordered document reads back as that document
(`read_render`).
-/

/-- A number literal: `coefficient * 10 ^ (exponent - scale)`, with `scale` digits after the
point and the exponent only where it is written. -/
structure Numeral where
  negative : Bool
  coefficient : Nat
  scale : Nat := 0
  exponent : Option Int := none
  deriving DecidableEq, Repr

/-- What may follow a value inside a document. -/
def Ends (rest : List Char) : Prop := ∀ c ∈ rest.head?, c = ',' ∨ c = ']' ∨ c = '}'

namespace Numeral

/-! ## Number literals -/

/-- The magnitude of the number. -/
def decimal (n : Numeral) : Decimal :=
  .normalize n.coefficient (n.exponent.getD 0 - n.scale)

/-- A literal without point and exponent. -/
def isInteger (n : Numeral) : Bool := n.scale = 0 && n.exponent = none

/-- The digits of `n` after as many zeros as give `places` digits. -/
def padded (places n : Nat) : List Char :=
  List.replicate (places - (Nat.toDigits 10 n).length) '0' ++ Nat.toDigits 10 n

def renderFraction (scale n : Nat) : List Char :=
  if scale = 0 then [] else '.' :: padded scale n

/-- At least two digits, always with a sign. -/
def renderExponent : Option Int → List Char
  | none => []
  | some e => 'e' :: (if e < 0 then '-' else '+') :: padded 2 e.natAbs

def render (n : Numeral) : List Char :=
  (if n.negative then ['-'] else []) ++ (Nat.toDigits 10 (n.coefficient / 10 ^ n.scale) ++
    (renderFraction n.scale (n.coefficient % 10 ^ n.scale) ++ renderExponent n.exponent))

def readSign : List Char → Bool × List Char
  | '-' :: rest => (true, rest)
  | rest => (false, rest)

def readDigits (cs : List Char) : List Char × List Char :=
  (cs.takeWhile Char.isDigit, cs.dropWhile Char.isDigit)

def readFraction : List Char → Option (List Char × List Char)
  | '.' :: rest =>
    let (digits, rest) := readDigits rest
    if digits = [] then none else some (digits, rest)
  | rest => some ([], rest)

def readExponentSign : List Char → Bool × List Char
  | '+' :: rest => (false, rest)
  | rest => readSign rest

def readExponent : List Char → Option (Option Int × List Char)
  | [] => some (none, [])
  | c :: rest =>
    if c = 'e' ∨ c = 'E' then
      let (negative, rest) := readExponentSign rest
      let (digits, rest) := readDigits rest
      let magnitude : Int := Nat.ofDigitChars 10 digits 0
      if digits = [] then none else some (some (if negative then -magnitude else magnitude), rest)
    else some (none, c :: rest)

/-- A literal has no superfluous zero in front. -/
def read (cs : List Char) : Option (Numeral × List Char) :=
  let (negative, cs) := readSign cs
  let (whole, cs) := readDigits cs
  if whole = ['0'] ∨ whole ≠ [] ∧ whole.head? ≠ some '0' then do
    let (fraction, cs) ← readFraction cs
    let (exponent, cs) ← readExponent cs
    some (⟨negative, Nat.ofDigitChars 10 (whole ++ fraction) 0, fraction.length, exponent⟩, cs)
  else none

theorem isDigit_toDigits {n : Nat} {c : Char} (h : c ∈ Nat.toDigits 10 n) : c.isDigit :=
  Nat.isDigit_of_mem_toDigits (by decide) (by decide) h

theorem isDigit_padded {places n : Nat} {c : Char} (h : c ∈ padded places n) : c.isDigit := by
  rcases List.mem_append.mp h with hzero | hdigit
  · rw [List.eq_of_mem_replicate hzero]
    rfl
  · exact isDigit_toDigits hdigit

theorem padded_ne_nil (places n : Nat) : padded places n ≠ [] :=
  List.append_ne_nil_of_right_ne_nil _ Nat.toDigits_ne_nil

theorem length_padded {places n : Nat} (hplaces : 0 < places) (hn : n < 10 ^ places) :
    (padded places n).length = places := by
  have hdigits : (Nat.toDigits 10 n).length ≤ places :=
    (Nat.length_toDigits_le_iff (by decide) hplaces).mpr hn
  rw [padded, List.length_append, List.length_replicate]
  omega

theorem ofDigitChars_padded (places n : Nat) : Nat.ofDigitChars 10 (padded places n) 0 = n := by
  rw [padded, Nat.ofDigitChars_append, Nat.ofDigitChars_replicate_zero, Nat.mul_zero,
    Nat.ofDigitChars_ten_toDigits]

theorem head_toDigits (n : Nat) :
    Nat.toDigits 10 n = ['0'] ∨
      Nat.toDigits 10 n ≠ [] ∧ (Nat.toDigits 10 n).head? ≠ some '0' := by
  induction n using Nat.strongRecOn with
  | ind n ih =>
    by_cases hsmall : n < 10
    · have digit : ∀ d < 10, [Nat.digitChar d] = ['0'] ∨
          [Nat.digitChar d] ≠ [] ∧ [Nat.digitChar d].head? ≠ some '0' := by decide
      rw [Nat.toDigits_of_lt_base hsmall]
      exact digit n hsmall
    · refine .inr ⟨Nat.toDigits_ne_nil, ?_⟩
      rw [Nat.toDigits_of_base_le (by decide) (Nat.not_lt.mp hsmall),
        List.head?_append_of_ne_nil _ Nat.toDigits_ne_nil]
      rcases ih (n / 10) (by omega) with hzero | ⟨_, hhead⟩
      · have hvalue := Nat.ofDigitChars_ten_toDigits (n := n / 10)
        rw [hzero] at hvalue
        have : n / 10 = 0 := hvalue.symm
        omega
      · exact hhead

/-- The digits end where another character follows. -/
theorem readDigits_append {digits rest : List Char} (hdigits : ∀ c ∈ digits, c.isDigit)
    (hrest : ∀ c ∈ rest.head?, c.isDigit = false) :
    readDigits (digits ++ rest) = (digits, rest) := by
  rw [readDigits, List.takeWhile_append_of_pos hdigits, List.dropWhile_append_of_pos hdigits]
  cases rest with
  | nil => rw [List.takeWhile_nil, List.dropWhile_nil, List.append_nil]
  | cons c rest => simp [hrest c rfl]

theorem not_isDigit_of_ends {rest : List Char} (h : Ends rest) :
    ∀ c ∈ rest.head?, c.isDigit = false := by
  intro c hc
  rcases h c hc with rfl | rfl | rfl <;> rfl

theorem readExponent_render (e : Option Int) {rest : List Char} (h : Ends rest) :
    readExponent (renderExponent e ++ rest) = some (e, rest) := by
  cases e with
  | none =>
    cases rest with
    | nil => rfl
    | cons c rest =>
      have hmark : ¬ (c = 'e' ∨ c = 'E') := by
        rcases h c rfl with rfl | rfl | rfl <;> decide
      simp [renderExponent, readExponent, hmark]
  | some e =>
    have hdigits : readDigits (padded 2 e.natAbs ++ rest) = (padded 2 e.natAbs, rest) :=
      readDigits_append (fun c hc => isDigit_padded hc) (not_isDigit_of_ends h)
    rcases Int.lt_or_le e 0 with hneg | hpos
    · have hvalue : -(e.natAbs : Int) = e := by omega
      simp [renderExponent, readExponent, readExponentSign, readSign, hneg, hdigits,
        padded_ne_nil, ofDigitChars_padded, hvalue, -Nat.cast_natAbs]
    · have hvalue : (e.natAbs : Int) = e := by omega
      simp [renderExponent, readExponent, readExponentSign, Int.not_lt.mpr hpos, hdigits,
        padded_ne_nil, ofDigitChars_padded, hvalue, -Nat.cast_natAbs]

/-- What follows the fraction of a literal is neither a digit nor a point. -/
theorem head_exponent (e : Option Int) {rest : List Char} (h : Ends rest) :
    ∀ c ∈ (renderExponent e ++ rest).head?, c.isDigit = false ∧ c ≠ '.' := by
  intro c hc
  cases e with
  | none =>
    rcases h c hc with rfl | rfl | rfl <;> decide
  | some e =>
    cases hc
    decide

theorem readFraction_render {scale n : Nat} {rest : List Char}
    (h : ∀ c ∈ rest.head?, c.isDigit = false ∧ c ≠ '.') :
    readFraction (renderFraction scale n ++ rest) =
      some (if scale = 0 then [] else padded scale n, rest) := by
  by_cases hscale : scale = 0
  · rw [renderFraction, if_pos hscale, if_pos hscale, List.nil_append]
    cases rest with
    | nil => rfl
    | cons c rest =>
      rw [readFraction]
      rintro _ hpoint
      cases hpoint
      exact (h '.' rfl).2 rfl
  · have hdigits : readDigits (padded scale n ++ rest) = (padded scale n, rest) :=
      readDigits_append (fun c hc => isDigit_padded hc) fun c hc => (h c hc).1
    simp [renderFraction, readFraction, hscale, hdigits, padded_ne_nil]

theorem head_fraction (n : Numeral) {rest : List Char} (h : Ends rest) :
    ∀ c ∈ (renderFraction n.scale (n.coefficient % 10 ^ n.scale) ++
      (renderExponent n.exponent ++ rest)).head?, c.isDigit = false := by
  intro c hc
  by_cases hscale : n.scale = 0
  · rw [renderFraction, if_pos hscale, List.nil_append] at hc
    exact (head_exponent n.exponent h c hc).1
  · rw [renderFraction, if_neg hscale] at hc
    cases hc
    rfl

/-- A literal starts with its sign or with a digit. -/
theorem render_head (n : Numeral) : ∃ c rest, n.render = c :: rest ∧ (c = '-' ∨ c.isDigit) := by
  rw [render]
  split
  · exact ⟨_, _, rfl, .inl rfl⟩
  · obtain ⟨c, rest, hdigits⟩ := List.exists_cons_of_ne_nil
      (Nat.toDigits_ne_nil (n := n.coefficient / 10 ^ n.scale) (b := 10))
    have hc : c.isDigit := isDigit_toDigits (hdigits ▸ List.mem_cons_self)
    rw [hdigits]
    exact ⟨c, _, rfl, .inr hc⟩

theorem readSign_render (n : Numeral) (rest : List Char) :
    readSign (n.render ++ rest) =
      (n.negative, Nat.toDigits 10 (n.coefficient / 10 ^ n.scale) ++
        (renderFraction n.scale (n.coefficient % 10 ^ n.scale) ++
          (renderExponent n.exponent ++ rest))) := by
  cases hnegative : n.negative with
  | true => simp [render, hnegative, readSign]
  | false =>
    obtain ⟨c, digits, hdigits⟩ := List.exists_cons_of_ne_nil
      (Nat.toDigits_ne_nil (n := n.coefficient / 10 ^ n.scale) (b := 10))
    have hc : c.isDigit := isDigit_toDigits (hdigits ▸ List.mem_cons_self)
    simp only [render, hnegative, hdigits, Bool.false_eq_true, if_false, List.nil_append,
      List.cons_append, List.append_assoc]
    rw [readSign]
    rintro _ hsign
    cases hsign
    cases hc

theorem read_render (n : Numeral) {rest : List Char} (h : Ends rest) :
    read (n.render ++ rest) = some (n, rest) := by
  have hwhole : ∀ c ∈ Nat.toDigits 10 (n.coefficient / 10 ^ n.scale), c.isDigit :=
    fun c hc => isDigit_toDigits hc
  have htail := head_fraction n h
  have hfraction : (if n.scale = 0 then []
      else padded n.scale (n.coefficient % 10 ^ n.scale)).length = n.scale := by
    split
    · next hscale => rw [hscale, List.length_nil]
    · next hscale =>
      exact length_padded (Nat.pos_of_ne_zero hscale) (Nat.mod_lt _ (Nat.pow_pos (by decide)))
  have hdigits : Nat.ofDigitChars 10 (if n.scale = 0 then []
      else padded n.scale (n.coefficient % 10 ^ n.scale)) 0 = n.coefficient % 10 ^ n.scale := by
    split
    · next hscale => rw [hscale, pow_zero, Nat.mod_one, Nat.ofDigitChars_nil]
    · exact ofDigitChars_padded _ _
  have hvalue : Nat.ofDigitChars 10 (Nat.toDigits 10 (n.coefficient / 10 ^ n.scale) ++
      if n.scale = 0 then [] else padded n.scale (n.coefficient % 10 ^ n.scale)) 0 =
        n.coefficient := by
    rw [Nat.ofDigitChars_append, Nat.ofDigitChars_ten_toDigits,
      Nat.ofDigitChars_eq_ofDigitChars_zero, hfraction, hdigits, Nat.div_add_mod]
  rw [read, readSign_render]
  simp only [readDigits_append hwhole htail, head_toDigits, if_true, Option.bind_eq_bind,
    Option.bind_some, readFraction_render (head_exponent n.exponent h),
    readExponent_render n.exponent h, hfraction, hvalue]

end Numeral

namespace Json

/-! ## Strings -/

def quote : Char := '"'

/-- The characters with a short escape, after the letter of the escape. -/
def escapes : List (Char × Char) :=
  [(quote, quote), ('\\', '\\'), ('b', '\x08'), ('f', '\x0c'), ('n', '\n'), ('r', '\r'),
    ('t', '\t')]

def escape (c : Char) : List Char :=
  match escapes.find? fun e => e.2 = c with
  | some e => ['\\', e.1]
  | none =>
    if c.toNat < 32 then
      ['\\', 'u', '0', '0', Nat.digitChar (c.toNat / 16), Nat.digitChar (c.toNat % 16)]
    else [c]

def renderString (s : String) : List Char := quote :: (s.toList.flatMap escape ++ [quote])

def hexValue (c : Char) : Option Nat :=
  if c.isDigit then some (c.toNat - 48)
  else if 'a' ≤ c ∧ c ≤ 'f' then some (c.toNat - 87)
  else if 'A' ≤ c ∧ c ≤ 'F' then some (c.toNat - 55)
  else none

/-- The four digits of a UTF-16 code unit. -/
def readUnit : List Char → Option (Nat × List Char)
  | a :: b :: c :: d :: rest => do
    let a ← hexValue a
    let b ← hexValue b
    let c ← hexValue c
    let d ← hexValue d
    some (((a * 16 + b) * 16 + c) * 16 + d, rest)
  | _ => none

/-- The character of an escape `\u`; a high surrogate needs a low one after it. -/
def readCodePoint (cs : List Char) : Option (Char × List Char) := do
  let (unit, rest) ← readUnit cs
  if 0xd800 ≤ unit ∧ unit < 0xdc00 then
    match rest with
    | '\\' :: 'u' :: rest => do
      let (low, rest) ← readUnit rest
      if 0xdc00 ≤ low ∧ low < 0xe000 then
        some (Char.ofNat (0x10000 + (unit - 0xd800) * 0x400 + (low - 0xdc00)), rest)
      else none
    | _ => none
  else if 0xdc00 ≤ unit ∧ unit < 0xe000 then none
  else some (Char.ofNat unit, rest)

/-- One character of a string that has not ended. -/
def readChar : List Char → Option (Char × List Char)
  | '\\' :: letter :: rest =>
    if letter = 'u' then readCodePoint rest
    else ((('/', '/') :: escapes).lookup letter).map fun c => (c, rest)
  | c :: rest => if c = '\\' ∨ c.toNat < 32 then none else some (c, rest)
  | [] => none

/-- The rest of a string after its opening quote. -/
def readString : Nat → List Char → Option (List Char × List Char)
  | 0, _ => none
  | fuel + 1, cs =>
    if cs.head? = some quote then some ([], cs.tail)
    else do
      let (c, cs) ← readChar cs
      let (s, cs) ← readString fuel cs
      some (c :: s, cs)

theorem readChar_escape (c : Char) (rest : List Char) :
    readChar (escape c ++ rest) = some (c, rest) := by
  rw [escape]
  split
  · next e hfind =>
    have hmem := List.mem_of_find?_eq_some hfind
    have hchar : e.2 = c := by simpa using List.find?_some hfind
    subst hchar
    have each : ∀ e ∈ escapes, e.1 ≠ 'u' ∧ (('/', '/') :: escapes).lookup e.1 = some e.2 := by
      decide
    obtain ⟨hletter, hlookup⟩ := each e hmem
    simp [readChar, hletter, hlookup]
  · next hfind =>
    have hback : c ≠ '\\' := by
      rintro rfl
      cases hfind
    split
    · next hcontrol =>
      have hexValue_digit : ∀ n < 16, hexValue (Nat.digitChar n) = some n := by decide
      have hhigh := hexValue_digit (c.toNat / 16) (by omega)
      have hlow := hexValue_digit (c.toNat % 16) (by omega)
      have hzero : hexValue '0' = some 0 := rfl
      have hvalue : ((0 * 16 + 0) * 16 + c.toNat / 16) * 16 + c.toNat % 16 = c.toNat := by omega
      have hunit : readUnit ('0' :: '0' :: Nat.digitChar (c.toNat / 16) ::
          Nat.digitChar (c.toNat % 16) :: rest) = some (c.toNat, rest) := by
        simp only [readUnit, hzero, hhigh, hlow, Option.bind_eq_bind, Option.bind_some, hvalue]
      have hpoint : readCodePoint ('0' :: '0' :: Nat.digitChar (c.toNat / 16) ::
          Nat.digitChar (c.toNat % 16) :: rest) = some (c, rest) := by
        rw [readCodePoint, hunit, Option.bind_eq_bind, Option.bind_some]
        dsimp only
        rw [if_neg (by omega), if_neg (by omega), Char.ofNat_toNat]
      exact hpoint
    · next hplain =>
      rw [List.singleton_append, readChar]
      · rw [if_neg (not_or.mpr ⟨hback, hplain⟩)]
      · exact fun _ _ hslash _ => hback hslash

theorem escape_head (c : Char) : ∃ d rest, escape c = d :: rest ∧ d ≠ quote := by
  rw [escape]
  split
  · exact ⟨_, _, rfl, by decide⟩
  · next hfind =>
    split
    · exact ⟨_, _, rfl, by decide⟩
    · refine ⟨c, [], rfl, ?_⟩
      rintro rfl
      cases hfind

theorem readString_render {fuel : Nat} {s rest : List Char}
    (hfuel : (s.flatMap escape).length < fuel) :
    readString fuel (s.flatMap escape ++ quote :: rest) = some (s, rest) := by
  induction s generalizing fuel with
  | nil =>
    cases fuel with
    | zero => cases hfuel
    | succ fuel => rfl
  | cons c s ih =>
    obtain ⟨d, tail, hescape, hd⟩ := escape_head c
    rw [List.flatMap_cons, List.length_append] at hfuel
    cases fuel with
    | zero => cases hfuel
    | succ fuel =>
      have hlength : 0 < (escape c).length := by simp [hescape]
      have hhead : (escape c ++ (s.flatMap escape ++ quote :: rest)).head? ≠ some quote := by
        rw [hescape]
        exact fun h => hd (Option.some.inj h)
      rw [List.flatMap_cons, List.append_assoc, readString, if_neg hhead, readChar_escape,
        Option.bind_eq_bind, Option.bind_some]
      dsimp only
      rw [ih (by omega)]
      rfl

/-! ## Documents -/

mutual

/-- The text of a document with `gap` after commas and colons. -/
def render (gap : List Char) : Json Numeral → List Char
  | .null => "null".toList
  | .boolean true => "true".toList
  | .boolean false => "false".toList
  | .number n => n.render
  | .string s => renderString s
  | .array items => '[' :: renderItems gap items
  | .object fields => '{' :: renderFields gap fields

/-- The items and the bracket after them. -/
def renderItems (gap : List Char) : List (Json Numeral) → List Char
  | [] => [']']
  | [j] => j.render gap ++ [']']
  | j :: i :: rest => j.render gap ++ ',' :: (gap ++ renderItems gap (i :: rest))

def renderFields (gap : List Char) : List (String × Json Numeral) → List Char
  | [] => ['}']
  | [(key, value)] => renderString key ++ ':' :: (gap ++ (value.render gap ++ ['}']))
  | (key, value) :: e :: rest =>
    renderString key ++ ':' :: (gap ++ (value.render gap ++
      ',' :: (gap ++ renderFields gap (e :: rest))))

end

def isSpace (c : Char) : Bool := c = ' ' || c = '\t' || c = '\n' || c = '\r'

def skip (cs : List Char) : List Char := cs.dropWhile isSpace

def readWord (word : String) (value : Json Numeral) (cs : List Char) :
    Option (Json Numeral × List Char) :=
  if word.toList.isPrefixOf cs then some (value, cs.drop word.length) else none

mutual

/-- A value at the head of the text and what follows it. -/
def readValue : Nat → List Char → Option (Json Numeral × List Char)
  | 0, _ => none
  | fuel + 1, cs =>
    match cs.head? with
    | none => none
    | some '"' => do
      let (s, cs) ← readString fuel cs.tail
      some (.string (String.ofList s), cs)
    | some '[' =>
      let cs := skip cs.tail
      if cs.head? = some ']' then some (.array [], cs.tail)
      else do
        let (items, cs) ← readItems fuel cs
        some (.array items, cs)
    | some '{' =>
      let cs := skip cs.tail
      if cs.head? = some '}' then some (.object [], cs.tail)
      else do
        let (fields, cs) ← readFields fuel cs
        some (.object (Entries.collect fields), cs)
    | some 'n' => readWord "null" .null cs
    | some 't' => readWord "true" (.boolean true) cs
    | some 'f' => readWord "false" (.boolean false) cs
    | some _ => do
      let (n, cs) ← Numeral.read cs
      some (.number n, cs)

/-- One item or more and the bracket after them. -/
def readItems : Nat → List Char → Option (List (Json Numeral) × List Char)
  | 0, _ => none
  | fuel + 1, cs => do
    let (j, cs) ← readValue fuel cs
    match skip cs with
    | ']' :: cs => some ([j], cs)
    | ',' :: cs => do
      let (rest, cs) ← readItems fuel (skip cs)
      some (j :: rest, cs)
    | _ => none

def readFields : Nat → List Char → Option (List (String × Json Numeral) × List Char)
  | 0, _ => none
  | fuel + 1, cs => do
    guard (cs.head? = some quote)
    let (key, cs) ← readString fuel cs.tail
    guard ((skip cs).head? = some ':')
    let (j, cs) ← readValue fuel (skip (skip cs).tail)
    match skip cs with
    | '}' :: cs => some ([(String.ofList key, j)], cs)
    | ',' :: cs => do
      let (rest, cs) ← readFields fuel (skip cs)
      some ((String.ofList key, j) :: rest, cs)
    | _ => none

end

/-- One document with nothing but blanks around it. -/
def read (text : List Char) : Option (Json Numeral) := do
  let (j, rest) ← readValue (text.length + 1) (skip text)
  if skip rest = [] then some j else none

/-! ## What is written reads back -/

section RoundTrip

variable {gap : List Char} {j : Json Numeral} {rest : List Char}

theorem renderItems_cons (j i : Json Numeral) (items : List (Json Numeral)) :
    renderItems gap (j :: i :: items) =
      j.render gap ++ ',' :: (gap ++ renderItems gap (i :: items)) := rfl

theorem skip_of_head {c : Char} {cs : List Char} (h : isSpace c = false) :
    skip (c :: cs) = c :: cs := by
  rw [skip, List.dropWhile_cons_of_neg (by simp [h])]

theorem skip_gap (hgap : ∀ c ∈ gap, isSpace c) (cs : List Char) : skip (gap ++ cs) = skip cs :=
  List.dropWhile_append_of_pos hgap

/-- A value starts neither with a blank nor with the end of an array. -/
theorem render_head (gap : List Char) (j : Json Numeral) :
    ∃ c cs, j.render gap = c :: cs ∧ isSpace c = false ∧ c ≠ ']' := by
  cases j with
  | number n =>
    obtain ⟨c, cs, hrender, hc⟩ := n.render_head
    have hdigit : ∀ d, isSpace d ∨ d = ']' → d.isDigit = false ∧ d ≠ '-' := by
      intro d hd
      simp only [isSpace, Bool.or_eq_true, decide_eq_true_eq] at hd
      rcases hd with ((((rfl | rfl) | rfl) | rfl) | rfl) <;> decide
    refine ⟨c, cs, hrender, ?_, ?_⟩
    · by_contra hspace
      have hnot := hdigit c (.inl (by simpa using hspace))
      rcases hc with rfl | hc
      · exact hnot.2 rfl
      · simp [hc] at hnot
    · rintro rfl
      rcases hc with hc | hc
      · cases hc
      · cases hc
  | boolean b => cases b <;> exact ⟨_, _, rfl, rfl, by decide⟩
  | null => exact ⟨_, _, rfl, rfl, by decide⟩
  | string s => exact ⟨_, _, rfl, rfl, by decide⟩
  | array items => exact ⟨_, _, rfl, rfl, by decide⟩
  | object fields => exact ⟨_, _, rfl, rfl, by decide⟩

theorem skip_render (gap : List Char) (j : Json Numeral) (rest : List Char) :
    skip (j.render gap ++ rest) = j.render gap ++ rest := by
  obtain ⟨c, cs, hrender, hspace, _⟩ := render_head gap j
  rw [hrender, List.cons_append, skip_of_head hspace]

/-- The reader takes the text of `j` off any text that it starts. -/
def Reads (gap : List Char) (j : Json Numeral) : Prop :=
  ∀ fuel rest, (j.render gap).length ≤ fuel → Ends rest →
    readValue fuel (j.render gap ++ rest) = some (j.settle, rest)

theorem reads_number (n : Numeral) : Reads gap (.number n) := by
  intro fuel rest hfuel hrest
  have hread := n.read_render hrest
  obtain ⟨c, cs, hrender, hc⟩ := n.render_head
  change n.render.length ≤ fuel at hfuel
  change readValue fuel (n.render ++ rest) = _
  rw [hrender] at hfuel hread ⊢
  cases fuel with
  | zero => cases hfuel
  | succ fuel =>
    have hother : ∀ d ∈ [quote, '[', '\x7b', 'n', 't', 'f'], c ≠ d := by
      rintro d hd rfl
      rcases hc with rfl | hc
      · revert hd
        decide
      · have each : ∀ d ∈ [quote, '[', '\x7b', 'n', 't', 'f'], d.isDigit = false := by
          simp [quote, Char.isDigit]
        simp [each c hd] at hc
    rw [readValue, List.cons_append, List.head?_cons]
    split
    case h_1 heq => cases heq
    case h_8 =>
      rw [← List.cons_append, hread, Option.bind_eq_bind, Option.bind_some]
      rfl
    all_goals
      next heq =>
        cases heq
        exact (hother _ (by decide) rfl).elim

theorem reads_string (s : String) : Reads gap (.string s) := by
  intro fuel rest hfuel _
  cases fuel with
  | zero => cases hfuel
  | succ fuel =>
    have hlength : (s.toList.flatMap escape).length < fuel := by
      simp only [render, renderString, List.length_cons, List.length_append] at hfuel
      omega
    change (readString fuel (s.toList.flatMap escape ++ [quote] ++ rest)).bind _ = _
    rw [List.append_assoc, List.singleton_append, readString_render hlength, Option.bind_some]
    dsimp only
    rw [String.ofList_toList]
    rfl

theorem readItems_last {fuel : Nat} {cs cs' cs'' : List Char}
    (hvalue : readValue fuel cs = some (j, cs')) (hskip : skip cs' = ']' :: cs'') :
    readItems (fuel + 1) cs = some ([j], cs'') := by
  simp only [readItems, hvalue, Option.bind_eq_bind, Option.bind_some, hskip]

theorem readItems_more {fuel : Nat} {cs cs' cs'' : List Char} {items : List (Json Numeral)}
    (hvalue : readValue fuel cs = some (j, cs')) (hskip : skip cs' = ',' :: cs'')
    (hitems : readItems fuel (skip cs'') = some (items, rest)) :
    readItems (fuel + 1) cs = some (j :: items, rest) := by
  simp only [readItems, hvalue, Option.bind_eq_bind, Option.bind_some, hskip, hitems]

theorem readItems_render (hgap : ∀ c ∈ gap, isSpace c) {items : List (Json Numeral)}
    (some_item : items ≠ []) (each : ∀ j ∈ items, Reads gap j) {fuel : Nat}
    (hfuel : (renderItems gap items).length ≤ fuel) :
    readItems fuel (renderItems gap items ++ rest) = some (items.map settle, rest) := by
  induction items generalizing fuel with
  | nil => exact (some_item rfl).elim
  | cons j items ih =>
    have hj := each j List.mem_cons_self
    cases items with
    | nil =>
      rw [renderItems, List.length_append, List.length_singleton] at hfuel
      cases fuel with
      | zero => omega
      | succ fuel =>
        rw [renderItems, List.append_assoc]
        exact readItems_last (hj fuel _ (by omega) (by simp [Ends])) (skip_of_head rfl)
    | cons i items =>
      rw [renderItems_cons, List.length_append, List.length_cons, List.length_append] at hfuel
      cases fuel with
      | zero => omega
      | succ fuel =>
        have hskip : skip (gap ++ (renderItems gap (i :: items) ++ rest)) =
            renderItems gap (i :: items) ++ rest := by
          rw [skip_gap hgap]
          cases items with
          | nil => rw [renderItems, List.append_assoc, skip_render]
          | cons i' items => rw [renderItems_cons, List.append_assoc, skip_render]
        have hrest : readItems fuel (renderItems gap (i :: items) ++ rest) =
            some ((i :: items).map settle, rest) :=
          ih (by simp) (fun j hj => each j (List.mem_cons_of_mem _ hj)) (by omega)
        rw [renderItems_cons, List.append_assoc, List.cons_append, List.append_assoc]
        exact readItems_more (hj fuel _ (by omega) (by simp [Ends])) (skip_of_head rfl)
          (hskip.symm ▸ hrest)

theorem renderFields_head (gap : List Char) {fields : List (String × Json Numeral)}
    (h : fields ≠ []) :
    ∃ cs, renderFields gap fields = quote :: cs := by
  match fields with
  | [] => exact (h rfl).elim
  | [(key, value)] => exact ⟨_, rfl⟩
  | (key, value) :: e :: fields => exact ⟨_, rfl⟩

theorem readField {fuel : Nat} {key : String} {value : Json Numeral}
    (hgap : ∀ c ∈ gap, isSpace c) (hvalue : Reads gap value)
    (hfuel : (renderString key ++ ':' :: (gap ++ value.render gap)).length ≤ fuel + 1)
    (hrest : Ends rest) :
    readFields (fuel + 1) (renderString key ++ ':' :: (gap ++ (value.render gap ++ rest))) =
      match skip rest with
      | '}' :: cs => some ([(key, value.settle)], cs)
      | ',' :: cs => do
        let (more, cs) ← readFields fuel (skip cs)
        some ((key, value.settle) :: more, cs)
      | _ => none := by
  simp only [renderString, List.length_append, List.length_cons, List.cons_append,
    List.length_nil] at hfuel
  have hstring : readString fuel (key.toList.flatMap escape ++
      quote :: ':' :: (gap ++ (value.render gap ++ rest))) =
        some (key.toList, ':' :: (gap ++ (value.render gap ++ rest))) :=
    readString_render (by omega)
  have hcolon : skip (':' :: (gap ++ (value.render gap ++ rest))) =
      ':' :: (gap ++ (value.render gap ++ rest)) := skip_of_head rfl
  have hskip : skip (gap ++ (value.render gap ++ rest)) = value.render gap ++ rest := by
    rw [skip_gap hgap, skip_render]
  simp only [renderString, readFields, List.cons_append, List.append_assoc, List.nil_append,
    List.head?_cons, List.tail_cons, guard_true, Option.pure_def, hstring, hcolon, hskip,
    hvalue fuel rest (by omega) hrest, Option.bind_eq_bind, Option.bind_some,
    String.ofList_toList]

theorem readFields_render (hgap : ∀ c ∈ gap, isSpace c) {fields : List (String × Json Numeral)}
    (some_field : fields ≠ []) (each : ∀ e ∈ fields, Reads gap e.2) {fuel : Nat}
    (hfuel : (renderFields gap fields).length ≤ fuel) :
    readFields fuel (renderFields gap fields ++ rest) =
      some (fields.map fun e => (e.1, e.2.settle), rest) := by
  induction fields generalizing fuel with
  | nil => exact (some_field rfl).elim
  | cons e fields ih =>
    obtain ⟨key, value⟩ := e
    have hvalue : Reads gap value := each _ List.mem_cons_self
    cases fields with
    | nil =>
      rw [renderFields] at hfuel ⊢
      simp only [List.length_append, List.length_cons, List.length_nil] at hfuel
      cases fuel with
      | zero => omega
      | succ fuel =>
        simp only [List.append_assoc, List.cons_append, List.nil_append]
        rw [readField hgap hvalue (by
          simp only [List.length_append, List.length_cons]
          omega) (by simp [Ends]), skip_of_head (c := '\x7d') rfl]
        rfl
    | cons e fields =>
      rw [renderFields] at hfuel ⊢
      simp only [List.length_append, List.length_cons] at hfuel
      cases fuel with
      | zero => omega
      | succ fuel =>
        obtain ⟨cs, hhead⟩ := renderFields_head gap (List.cons_ne_nil e fields)
        have hskip : skip (gap ++ (renderFields gap (e :: fields) ++ rest)) =
            renderFields gap (e :: fields) ++ rest := by
          rw [skip_gap hgap, hhead, List.cons_append, skip_of_head rfl]
        have hrest : readFields fuel (renderFields gap (e :: fields) ++ rest) =
            some ((e :: fields).map fun e => (e.1, e.2.settle), rest) :=
          ih (by simp) (fun d hd => each d (List.mem_cons_of_mem _ hd)) (by omega)
        simp only [List.append_assoc, List.cons_append]
        rw [readField hgap hvalue (by
          simp only [List.length_append, List.length_cons]
          omega) (by simp [Ends]), skip_of_head (c := ',') rfl]
        simp only [hskip, hrest, Option.bind_eq_bind, Option.bind_some]
        rfl

theorem reads_render (hgap : ∀ c ∈ gap, isSpace c) (j : Json Numeral) : Reads gap j := by
  induction j using induct with
  | number n => exact reads_number n
  | string s => exact reads_string s
  | null =>
    intro fuel rest hfuel _
    cases fuel with
    | zero => cases hfuel
    | succ fuel => rfl
  | boolean b =>
    intro fuel rest hfuel _
    cases fuel with
    | zero => cases b <;> cases hfuel
    | succ fuel => cases b <;> rfl
  | array items ih =>
    intro fuel rest hfuel _
    rw [render, List.length_cons] at hfuel
    cases fuel with
    | zero => omega
    | succ fuel =>
      rw [render, List.cons_append, settle_array]
      cases items with
      | nil => rfl
      | cons i items =>
        have hread : readItems fuel (renderItems gap (i :: items) ++ rest) =
            some ((i :: items).map settle, rest) :=
          readItems_render hgap (by simp) ih (by omega)
        have hopen : ∃ c cs, renderItems gap (i :: items) ++ rest = c :: cs ∧
            isSpace c = false ∧ c ≠ ']' := by
          obtain ⟨c, cs, hrender, hc⟩ := render_head gap i
          cases items with
          | nil => exact ⟨c, _, by rw [renderItems, hrender]; rfl, hc⟩
          | cons i' items => exact ⟨c, _, by rw [renderItems, hrender]; rfl, hc⟩
        obtain ⟨c, cs, hhead, hspace, hbracket⟩ := hopen
        rw [hhead] at hread ⊢
        have hother : ¬ some c = some ']' := fun h => hbracket (Option.some.inj h)
        simp only [readValue, List.head?_cons, List.tail_cons, skip_of_head hspace, hother,
          if_false, hread, Option.bind_eq_bind, Option.bind_some]
  | object fields ih =>
    intro fuel rest hfuel _
    rw [render, List.length_cons] at hfuel
    cases fuel with
    | zero => omega
    | succ fuel =>
      rw [render, List.cons_append, settle_object]
      cases fields with
      | nil => rfl
      | cons e fields =>
        have hread : readFields fuel (renderFields gap (e :: fields) ++ rest) =
            some ((e :: fields).map fun e => (e.1, e.2.settle), rest) :=
          readFields_render hgap (by simp) ih (by omega)
        obtain ⟨cs, hhead⟩ := renderFields_head gap (List.cons_ne_nil e fields)
        rw [hhead] at hread ⊢
        have hspace : isSpace quote = false := rfl
        have hother : ¬ some quote = some '\x7d' := by decide
        rw [List.cons_append] at hread ⊢
        simp only [readValue, List.head?_cons, List.tail_cons, skip_of_head hspace, hother,
          if_false, hread, Option.bind_eq_bind, Option.bind_some]

/-- The text of a document reads back as the document, with its objects as ordered maps. -/
theorem read_render (hgap : ∀ c ∈ gap, isSpace c) (j : Json Numeral) :
    read (j.render gap) = some j.settle := by
  have hvalue := reads_render hgap j ((j.render gap).length + 1) [] (by omega) (by simp [Ends])
  have hskip : skip (j.render gap) = j.render gap := by
    simpa using skip_render gap j []
  rw [List.append_nil] at hvalue
  rw [read, hskip, hvalue]
  rfl

end RoundTrip

example : (read "[\x7b\"b\": 2.50E-3, \"a\": [ ], \"b\": \"\\u00e9\"\x7d, 1e5]".toList).map
    (render [' ']) = some "[\x7b\"a\": [], \"b\": \"é\"\x7d, 1e+05]".toList := by
  decide +kernel

end Json
