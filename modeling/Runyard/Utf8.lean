import Mathlib.Data.List.Basic

/-!
# The shape of UTF-8 text

Text in UTF-8 is a sequence of groups: a byte that is no continuation byte and at most three
continuation bytes after it. This is all that a program relies on which moves back to the
start of a character before it cuts a text.
-/

namespace Utf8

/-- The byte has the form `10xxxxxx`. -/
def continuation (b : UInt8) : Bool := b &&& 0xc0 = 0x80

inductive Shaped : List UInt8 → Prop where
  | nil : Shaped []
  | group {first : UInt8} {rest tail : List UInt8} (lead : ¬ continuation first)
      (continued : ∀ b ∈ rest, continuation b) (short : rest.length ≤ 3)
      (shaped : Shaped tail) : Shaped (first :: (rest ++ tail))

theorem Shaped.single {first : UInt8} {rest : List UInt8} (lead : ¬ continuation first)
    (continued : ∀ b ∈ rest, continuation b) (short : rest.length ≤ 3) :
    Shaped (first :: rest) := by
  have grouped := Shaped.group lead continued short .nil
  rw [List.append_nil] at grouped
  exact grouped

theorem Shaped.append {text more : List UInt8} (h : Shaped text) (hmore : Shaped more) :
    Shaped (text ++ more) := by
  induction h with
  | nil => exact hmore
  | group lead hrest short _ ih =>
    rw [List.cons_append, List.append_assoc]
    exact .group lead hrest short ih

theorem continuation_low : ∀ n < 64, continuation (UInt8.ofNat (n + 0x80)) := by
  decide

theorem lead_one : ∀ n < 128, ¬ continuation (UInt8.ofNat n) := by
  decide

theorem lead_two : ∀ n < 32, ¬ continuation (UInt8.ofNat (n + 0xc0)) := by
  decide

theorem lead_three : ∀ n < 16, ¬ continuation (UInt8.ofNat (n + 0xe0)) := by
  decide

theorem lead_four : ∀ n < 8, ¬ continuation (UInt8.ofNat (n + 0xf0)) := by
  decide

theorem shaped_one {a : UInt8} (ha : ¬ continuation a) : Shaped [a] :=
  .single ha (by simp) (by simp)

/-- One character is one group. -/
theorem group_char (c : Char) : ∃ first rest, String.utf8EncodeChar c = first :: rest ∧
    ¬ continuation first ∧ (∀ b ∈ rest, continuation b) ∧ rest.length ≤ 3 := by
  have low : ∀ n : Nat, continuation (UInt8.ofNat (n % 0x40 + 0x80)) :=
    fun n => continuation_low _ (Nat.mod_lt _ (by decide))
  unfold String.utf8EncodeChar
  dsimp only
  split
  · exact ⟨_, _, rfl, lead_one _ (by omega), by simp, by simp⟩
  split
  · exact ⟨_, _, rfl, lead_two _ (Nat.mod_lt _ (by decide)),
      List.forall_mem_singleton.mpr (low _), by simp⟩
  split
  · exact ⟨_, _, rfl, lead_three _ (Nat.mod_lt _ (by decide)),
      List.forall_mem_cons.mpr ⟨low _, List.forall_mem_singleton.mpr (low _)⟩, by simp⟩
  · exact ⟨_, _, rfl, lead_four _ (Nat.mod_lt _ (by decide)), List.forall_mem_cons.mpr
      ⟨low _, List.forall_mem_cons.mpr ⟨low _, List.forall_mem_singleton.mpr (low _)⟩⟩, by simp⟩

theorem shaped_char (c : Char) : Shaped (String.utf8EncodeChar c) := by
  obtain ⟨first, rest, heq, lead, continued, short⟩ := group_char c
  rw [heq]
  exact .single lead continued short

theorem shaped_encode (cs : List Char) : Shaped (cs.flatMap String.utf8EncodeChar) := by
  induction cs with
  | nil => exact .nil
  | cons c cs ih =>
    rw [List.flatMap_cons]
    exact (shaped_char c).append ih

/-- What starts at a byte that is no continuation byte is shaped again. -/
theorem Shaped.drop {text : List UInt8} (h : Shaped text) {i : Nat}
    (boundary : ¬ text[i]?.any continuation) : Shaped (text.drop i) := by
  induction h generalizing i with
  | nil =>
    rw [List.drop_nil]
    exact .nil
  | @group first rest tail lead hrest short htail ih =>
    cases i with
    | zero => exact .group lead hrest short htail
    | succ i =>
      rw [List.getElem?_cons_succ] at boundary
      rw [List.drop_succ_cons]
      by_cases inside : i < rest.length
      · have hi : (rest ++ tail)[i]? = some (rest[i]) := by
          rw [List.getElem?_append_left inside, List.getElem?_eq_getElem inside]
        rw [hi] at boundary
        exact absurd (hrest _ (List.getElem_mem inside)) (by simpa using boundary)
      · have hle : rest.length ≤ i := by omega
        rw [List.getElem?_append_right hle] at boundary
        rw [List.drop_append, List.drop_eq_nil_of_le hle, List.nil_append]
        exact ih boundary

/-- There is a start of a character, or the end of the text, among the first four places
after the first byte. -/
theorem Shaped.boundary {text : List UInt8} (h : Shaped text) :
    ∃ i, 0 < i ∧ i ≤ 4 ∧ ¬ text[i]?.any continuation := by
  cases h with
  | nil => exact ⟨1, by simp⟩
  | @group first rest tail lead hrest short htail =>
    refine ⟨rest.length + 1, by omega, by omega, ?_⟩
    rw [List.getElem?_cons_succ, List.getElem?_append_right (Nat.le_refl _), Nat.sub_self]
    cases htail with
    | nil => simp
    | group hlead _ _ _ => simpa using hlead

/-! ## Decoding -/

def Valid (text : List UInt8) : Prop :=
  ∃ chars : List Char, text = chars.flatMap String.utf8EncodeChar

/-- The character at the front of the text. -/
def decode? (text : List UInt8) : Option Char := text.toByteArray.utf8DecodeChar? 0

theorem decode?_append (c : Char) (rest : List UInt8) :
    decode? (String.utf8EncodeChar c ++ rest) = some c := by
  rw [decode?, List.toByteArray_append]
  exact ByteArray.utf8DecodeChar?_utf8EncodeChar_append

theorem decode?_split {text : List UInt8} {c : Char} (h : decode? text = some c) :
    ∃ rest, text = String.utf8EncodeChar c ++ rest := by
  obtain ⟨rest, hrest⟩ := ByteArray.exists_of_utf8DecodeChar?_eq_some h
  refine ⟨rest.data.toList, ?_⟩
  have hdata := congrArg (fun bytes => bytes.data.toList) hrest
  simpa using hdata

section Valid

variable {text more : List UInt8} {c : Char}

theorem valid_nil : Valid [] := ⟨[], rfl⟩

theorem Valid.cons (c : Char) (h : Valid text) : Valid (String.utf8EncodeChar c ++ text) := by
  obtain ⟨chars, rfl⟩ := h
  exact ⟨c :: chars, rfl⟩

theorem encode_ne_nil (c : Char) : String.utf8EncodeChar c ≠ [] := by
  obtain ⟨first, rest, heq, -⟩ := group_char c
  rw [heq]
  exact List.cons_ne_nil first rest

/-- A valid text is empty or one character and a valid text. -/
theorem Valid.cases (h : Valid text) :
    text = [] ∨ ∃ c rest, text = String.utf8EncodeChar c ++ rest ∧ Valid rest := by
  obtain ⟨chars, rfl⟩ := h
  cases chars with
  | nil => exact .inl rfl
  | cons c chars => exact .inr ⟨c, _, rfl, chars, rfl⟩

theorem Valid.tail (h : Valid (String.utf8EncodeChar c ++ text)) : Valid text := by
  rcases h.cases with hnil | ⟨d, rest, heq, hrest⟩
  · exact absurd (List.append_eq_nil_iff.mp hnil).1 (encode_ne_nil c)
  · have hsame : some c = some d := by
      rw [← decode?_append c text, heq, decode?_append]
    cases hsame
    rwa [List.append_cancel_left heq]

/-- A valid text is cut into valid texts wherever no continuation byte follows. -/
theorem Valid.split (h : Valid (text ++ more)) (lead : ∀ b ∈ more.head?, ¬ continuation b) :
    Valid text ∧ Valid more := by
  obtain ⟨chars, heq⟩ := h
  induction chars generalizing text with
  | nil =>
    obtain ⟨rfl, rfl⟩ := List.append_eq_nil_iff.mp heq
    exact ⟨valid_nil, valid_nil⟩
  | cons c chars ih =>
    rw [List.flatMap_cons] at heq
    by_cases hempty : text = []
    · subst hempty
      exact ⟨valid_nil, c :: chars, heq⟩
    · rcases List.append_eq_append_iff.mp heq with ⟨inside, hc, hmore⟩ | ⟨after, htext, hrest⟩
      · cases inside with
        | nil =>
          rw [List.append_nil] at hc
          rw [List.nil_append] at hmore
          exact ⟨⟨[c], by rw [← hc]; simp⟩, chars, hmore⟩
        | cons b inside =>
          obtain ⟨first, rest, hgroup, -, continued, -⟩ := group_char c
          rw [hgroup] at hc
          obtain ⟨a, text', rfl⟩ := List.exists_cons_of_ne_nil hempty
          have hb : b ∈ rest := by
            rw [(List.cons.inj hc).2]
            simp
          exact absurd (continued b hb) (lead b (by rw [hmore]; simp))
      · obtain ⟨hafter, hvalid⟩ := ih hrest.symm
        rw [htext]
        exact ⟨hafter.cons c, hvalid⟩

end Valid

/-! ## Replacing what is invalid -/

/-- U+FFFD. -/
def replacement : List UInt8 := [0xef, 0xbf, 0xbd]

/-- No character starts at `bad`, which is one byte or the beginning of a character that does not
go on. -/
structure Ill (bad rest : List UInt8) : Prop where
  undecodable : decode? (bad ++ rest) = none
  cut : (∃ b, bad = [b]) ∨ bad ≠ [] ∧ ∃ c missing, missing ≠ [] ∧
    String.utf8EncodeChar c = bad ++ missing

/-- Each ill-formed part of a text is replaced by U+FFFD. -/
inductive Replaced : List UInt8 → List UInt8 → Prop where
  | nil : Replaced [] []
  | char {text out : List UInt8} (c : Char) (replaced : Replaced text out) :
    Replaced (String.utf8EncodeChar c ++ text) (String.utf8EncodeChar c ++ out)
  | ill {bad text out : List UInt8} (ill : Ill bad text) (replaced : Replaced text out) :
    Replaced (bad ++ text) (replacement ++ out)

section Replaced

variable {text out bad rest : List UInt8}

/-- A valid text is kept. -/
theorem Replaced.eq_of_valid (replaced : Replaced text out) (h : Valid text) : out = text := by
  induction replaced with
  | nil => rfl
  | char c _ ih => rw [ih h.tail]
  | ill ill _ _ =>
    rcases h.cases with hnil | ⟨c, rest, heq, -⟩
    · rcases ill.cut with ⟨b, rfl⟩ | ⟨hne, -⟩
      · cases hnil
      · exact absurd (List.append_eq_nil_iff.mp hnil).1 hne
    · have hnone := ill.undecodable
      rw [heq, decode?_append] at hnone
      cases hnone

theorem Replaced.valid (replaced : Replaced text out) : Valid out := by
  have hreplacement : replacement = String.utf8EncodeChar (Char.ofNat 0xfffd) := by decide
  induction replaced with
  | nil => exact valid_nil
  | char c _ ih => exact ih.cons c
  | ill _ _ ih =>
    rw [hreplacement]
    exact ih.cons _

/-- The byte of a character of one byte is in no other character. -/
theorem mem_encode {c d : Char} {b : UInt8} (hc : String.utf8EncodeChar c = [b]) :
    b ∈ String.utf8EncodeChar d ↔ d = c := by
  constructor
  · intro h
    obtain ⟨first, rest, heq, -, continued, -⟩ := group_char d
    obtain ⟨first', rest', heq', lead, -⟩ := group_char c
    cases heq'.symm.trans hc
    have hfirst : first = b := by
      rw [heq] at h
      rcases List.mem_cons.mp h with hfirst | hrest
      · exact hfirst.symm
      · exact absurd (continued b hrest) lead
    have hsame : some d = some c := by
      rw [← decode?_append d [], heq, hfirst, List.append_nil,
        ← List.singleton_append (l := rest), ← hc, decode?_append]
    cases hsame
    rfl
  · rintro rfl
    rw [hc]
    exact List.mem_singleton_self b

/-- Only the character NUL has the byte 0. -/
theorem encode_zero {c : Char} (h : 0 ∈ String.utf8EncodeChar c) :
    String.utf8EncodeChar c = [0] := by
  have hnul : String.utf8EncodeChar (Char.ofNat 0) = [0] := by decide
  rw [(mem_encode hnul).mp h]
  exact hnul

/-- A text has one encoding. -/
theorem flatMap_encode_inj {chars chars' : List Char} :
    chars.flatMap String.utf8EncodeChar = chars'.flatMap String.utf8EncodeChar ↔
      chars = chars' := by
  refine ⟨fun same => ?_, fun same => same ▸ rfl⟩
  induction chars generalizing chars' with
  | nil =>
    cases chars' with
    | nil => rfl
    | cons c rest => exact absurd (List.append_eq_nil_iff.mp same.symm).1 (encode_ne_nil c)
  | cons c rest ih =>
    cases chars' with
    | nil => exact absurd (List.append_eq_nil_iff.mp same).1 (encode_ne_nil c)
    | cons c' rest' =>
      rw [List.flatMap_cons, List.flatMap_cons] at same
      have first : some c = some c' := by
        rw [← decode?_append c (rest.flatMap String.utf8EncodeChar), same, decode?_append]
      cases first
      rw [ih (List.append_cancel_left same)]

section Split

variable {c : Char} {b : UInt8} (hc : String.utf8EncodeChar c = [b])

include hc

theorem mem_flatMap_encode {chars : List Char} :
    b ∈ chars.flatMap String.utf8EncodeChar ↔ c ∈ chars := by
  simp only [List.mem_flatMap, mem_encode hc]
  simp

/-- A text is cut at a character of one byte as its characters are. -/
theorem splitOn_encode (chars : List Char) :
    (chars.flatMap String.utf8EncodeChar).splitOn b =
      (chars.splitOn c).map (·.flatMap String.utf8EncodeChar) := by
  induction hlength : chars.length using Nat.strongRecOn generalizing chars with
  | ind n ih =>
    by_cases cut : c ∈ chars
    · obtain ⟨part, rest, rfl, first⟩ := List.eq_append_cons_of_mem cut
      have shorter : rest.length < n := by
        simp only [List.length_append, List.length_cons] at hlength
        omega
      have bytes : (part ++ c :: rest).flatMap String.utf8EncodeChar =
          part.flatMap String.utf8EncodeChar ++ b :: rest.flatMap String.utf8EncodeChar := by
        simp [hc]
      rw [bytes, List.splitOn_append_cons_self_of_not_mem (mt (mem_flatMap_encode hc).mp first),
        List.splitOn_append_cons_self_of_not_mem first, ih _ shorter rest rfl, List.map_cons]
    · rw [List.splitOn_eq_singleton cut,
        List.splitOn_eq_singleton (mt (mem_flatMap_encode hc).mp cut), List.map_singleton]

end Split

theorem Ill.nonzero (ill : Ill bad rest) : 0 ∉ bad := by
  intro hzero
  rcases ill.cut with ⟨b, rfl⟩ | ⟨hne, c, missing, hmissing, heq⟩
  · have hnul : String.utf8EncodeChar (Char.ofNat 0) = [0] := by decide
    have hnone := ill.undecodable
    rw [← List.mem_singleton.mp hzero, ← hnul, decode?_append] at hnone
    cases hnone
  · have hone := encode_zero (c := c) (by rw [heq]; exact List.mem_append_left _ hzero)
    have hlength := congrArg List.length (heq.symm.trans hone)
    have hbad := List.length_pos_iff.mpr hne
    have hrest := List.length_pos_iff.mpr hmissing
    simp only [List.length_append, List.length_singleton] at hlength
    omega

theorem Ill.length_le (ill : Ill bad rest) : bad.length ≤ 3 := by
  rcases ill.cut with ⟨b, rfl⟩ | ⟨-, c, missing, hmissing, heq⟩
  · simp
  · obtain ⟨first, rest, hgroup, -, -, short⟩ := group_char c
    have hlength := congrArg List.length (heq.symm.trans hgroup)
    have hrest := List.length_pos_iff.mpr hmissing
    simp only [List.length_append, List.length_cons] at hlength
    omega

/-- A continuation byte in the place of a first byte is replaced alone. -/
theorem Ill.single (ill : Ill bad rest) {b : UInt8} (hb : bad.head? = some b)
    (continued : continuation b) : bad = [b] := by
  rcases ill.cut with ⟨a, rfl⟩ | ⟨hne, c, missing, -, heq⟩
  · cases hb
    rfl
  · obtain ⟨first, rest, hgroup, lead, -⟩ := group_char c
    obtain ⟨a, bad', rfl⟩ := List.exists_cons_of_ne_nil hne
    cases hb
    rw [hgroup] at heq
    rw [(List.cons.inj heq).1] at lead
    exact absurd continued lead

/-- Replace each byte at which no character starts; `fuel` is the length of the text. -/
def replaceEach : Nat → List UInt8 → List UInt8
  | 0, _ => []
  | _ + 1, [] => []
  | fuel + 1, b :: rest => match decode? (b :: rest) with
    | some c => String.utf8EncodeChar c ++
      replaceEach fuel ((b :: rest).drop (String.utf8EncodeChar c).length)
    | none => replacement ++ replaceEach fuel rest

theorem replaced_replaceEach {fuel : Nat} (h : text.length ≤ fuel) :
    Replaced text (replaceEach fuel text) := by
  induction fuel generalizing text with
  | zero =>
    rw [List.eq_nil_of_length_eq_zero (Nat.le_zero.mp h)]
    exact .nil
  | succ fuel ih =>
    cases text with
    | nil => exact .nil
    | cons b text =>
      rw [List.length_cons] at h
      rw [replaceEach]
      cases hdecode : decode? (b :: text) with
      | some c =>
        obtain ⟨after, hafter⟩ := decode?_split hdecode
        have hpos := List.length_pos_iff.mpr (encode_ne_nil c)
        have hlength := congrArg List.length hafter
        rw [List.length_cons, List.length_append] at hlength
        dsimp only
        rw [hafter, List.drop_left]
        exact .char c (ih (by omega))
      | none => exact .ill ⟨hdecode, .inl ⟨b, rfl⟩⟩ (ih (by omega))

end Replaced

end Utf8
