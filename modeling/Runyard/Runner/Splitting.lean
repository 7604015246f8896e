import Runyard.Runner.Output

/-!
# Splitting a log

The loops of `Reporter::log` on the text itself, with its offsets and the arithmetic of `size_t`.
On UTF-8 they end, and they cut between characters.
-/

namespace Runyard

open Utf8 (continuation Valid Shaped)

/-! ## The loops -/

/-- The inner loop. A step below the first byte wraps and leaves the text. -/
def backUp (clean : Bytes) : Nat → Nat
  | 0 => if (clean[0]?).any continuation then 2 ^ 64 - 1 else 0
  | stop + 1 => if (clean[stop + 1]?).any continuation then backUp clean stop else stop + 1

def substr (text : Bytes) (offset count : Nat) : Bytes := (text.drop offset).take count

/-- The outer loop from `offset`, `none` if it goes on after `fuel` turns. -/
def splitLog (clean : Bytes) (fuel offset : Nat) : Option (List Bytes) :=
  if offset < clean.length then
    match fuel with
    | 0 => none
    | fuel + 1 =>
      let stop := backUp clean (min clean.length (offset + 16000))
      (splitLog clean fuel stop).map fun texts =>
        substr clean offset ((stop + 2 ^ 64 - offset) % 2 ^ 64) :: texts
  else some []

section Loops

variable {clean : Bytes} {offset : Nat}

/-- From a turn that advances, the inner loop stays in what is left of the text. -/
theorem backUp_add {stop : Nat} (advances : 0 < cut (clean.drop offset) stop) :
    backUp clean (offset + stop) = offset + cut (clean.drop offset) stop := by
  induction stop with
  | zero => cases advances
  | succ stop ih =>
    have same : (clean.drop offset)[stop + 1]? = clean[offset + stop + 1]? := by
      rw [List.getElem?_drop, Nat.add_assoc]
    rw [cut, same] at advances ⊢
    rw [← Nat.add_assoc, backUp]
    split
    next passes =>
      rw [if_pos passes] at advances
      exact ih advances
    next => omega

/-- In UTF-8 text the outer loop ends, with what the loop on the rest of the text gives. -/
theorem splitLog_pieces {fuel limit : Nat} (shaped : Shaped (clean.drop offset))
    (enough : clean.length - offset ≤ fuel) (wide : clean.length - offset ≤ limit) :
    splitLog clean fuel offset = some (pieces limit (clean.drop offset)) := by
  induction fuel generalizing offset limit with
  | zero =>
    have ended : clean.length ≤ offset := by omega
    rw [splitLog, if_neg (by omega), List.drop_eq_nil_of_le ended]
    cases limit <;> rfl
  | succ fuel ih =>
    rw [splitLog]
    split
    next inside =>
      obtain ⟨limit, rfl⟩ : ∃ n, limit = n + 1 := ⟨limit - 1, by omega⟩
      have nonempty : clean.drop offset ≠ [] := List.drop_eq_nil_iff.not.mpr (by omega)
      obtain ⟨advances, rest⟩ := cut_shaped shaped nonempty
      have length : (clean.drop offset).length = clean.length - offset := List.length_drop
      have reach : min clean.length (offset + 16000) =
          offset + min (clean.drop offset).length 16000 := by omega
      have bound := cut_le (clean.drop offset) (min (clean.drop offset).length 16000)
      rw [pieces_succ limit nonempty]
      dsimp only
      rw [reach, backUp_add advances]
      generalize cut (clean.drop offset) (min (clean.drop offset).length 16000) = stop at *
      rw [List.drop_drop] at rest ⊢
      have later : splitLog clean fuel (offset + stop) =
          some (pieces limit (clean.drop (offset + stop))) := ih rest (by omega) (by omega)
      have count : (offset + stop + 2 ^ 64 - offset) % 2 ^ 64 = stop := by omega
      rw [later, count]
      rfl
    next ended =>
      rw [List.drop_eq_nil_of_le (by omega)]
      cases limit <;> rfl

/-- Each piece is a text of whole characters. -/
theorem pieces_valid {fuel : Nat} (valid : Valid clean) (enough : clean.length ≤ fuel) :
    ∀ piece ∈ pieces fuel clean, piece ≠ [] ∧ Valid piece := by
  induction fuel generalizing clean with
  | zero => simp [pieces]
  | succ fuel ih =>
    by_cases empty : clean = []
    · subst empty
      simp [pieces]
    have shaped : Shaped clean := by
      obtain ⟨chars, rfl⟩ := valid
      exact Utf8.shaped_encode chars
    obtain ⟨advances, _⟩ := cut_shaped shaped empty
    have boundary := (cut_boundary clean (min clean.length 16000)).resolve_left (by omega)
    rw [pieces_succ fuel empty]
    generalize cut clean (min clean.length 16000) = stop at advances boundary ⊢
    have lead : ∀ b ∈ (clean.drop stop).head?, ¬continuation b := by
      intro b hb continued
      rw [List.head?_drop] at hb
      exact boundary ((Option.any_eq_true _ _).mpr ⟨b, hb, continued⟩)
    rw [← List.take_append_drop stop clean] at valid
    obtain ⟨first, rest⟩ := valid.split lead
    refine List.forall_mem_cons.mpr ⟨⟨?_, first⟩, ih rest ?_⟩
    · exact fun none => empty ((List.take_eq_nil_iff.mp none).resolve_left (by omega))
    · rw [List.length_drop]
      omega

end Loops

/-! ## The text -/

theorem valid_append {text more : Bytes} (first : Valid text) (rest : Valid more) :
    Valid (text ++ more) := by
  obtain ⟨chars, rfl⟩ := first
  obtain ⟨chars', rfl⟩ := rest
  exact ⟨chars ++ chars', List.flatMap_append.symm⟩

theorem escape_valid {text : Bytes} (valid : Valid text) : Valid (Output.escape text) := by
  obtain ⟨chars, rfl⟩ := valid
  induction chars with
  | nil => exact Utf8.valid_nil
  | cons c chars ih =>
    rw [List.flatMap_cons, Output.escape_append]
    refine valid_append ?_ ih
    by_cases zero : 0 ∈ String.utf8EncodeChar c
    · rw [Utf8.encode_zero zero]
      exact ⟨['\\', '0'], by decide⟩
    · rw [Output.escape_nonzero zero]
      exact ⟨[c], by simp⟩

/-- On every text `log` ends. The pieces that it hands on are whole characters without NUL, they
make up the readable text, and the server accepts each record. -/
theorem log_splitting (replace : Bytes → Bytes) (hreplace : ∀ text, Valid (replace text))
    (kind : LogKind) (text : Bytes) :
    ∃ texts, (∀ fuel, (readable replace text).length ≤ fuel →
        splitLog (readable replace text) fuel 0 = some texts) ∧
      (∀ piece ∈ texts, piece ≠ [] ∧ piece.length ≤ 16000 ∧ Valid piece ∧ 0 ∉ piece) ∧
      texts.flatten = readable replace text ∧
      logRecords replace kind text = texts.map (fun piece => { kind := kind.text, text := piece }) ∧
      ∀ r ∈ logRecords replace kind text, ∀ sequence timestamp : Int, 0 < sequence →
        Telemetry.validate { r with sequence := sequence, timestampMs := timestamp } = .ok () := by
  have valid : Valid (readable replace text) := escape_valid (hreplace text)
  have shaped : Shaped (readable replace text) := by
    obtain ⟨chars, hchars⟩ := valid
    rw [hchars]
    exact Utf8.shaped_encode chars
  refine ⟨pieces (readable replace text).length (readable replace text), ?_, ?_, ?_, rfl, ?_⟩
  · intro fuel enough
    exact splitLog_pieces shaped enough le_rfl
  · intro piece hpiece
    obtain ⟨nonempty, whole⟩ := pieces_valid valid le_rfl piece hpiece
    obtain ⟨length, member⟩ := mem_pieces hpiece
    refine ⟨nonempty, length, whole, fun zero => ?_⟩
    exact readable_nonzero replace text 0 (member 0 zero) rfl
  · exact pieces_flatten shaped le_rfl
  · intro r hr sequence timestamp positive
    exact ((reportable_log r hr).numbered sequence timestamp).validate positive

namespace Sample

/-- The character of two bytes would go beyond the first piece. -/
def accented : Bytes := List.replicate 15999 97 ++ [0xc3, 0xa9, 0, 0xff]

theorem replaceEach_replicate (n fuel : Nat) (rest : Bytes) :
    Utf8.replaceEach (n + fuel) (List.replicate n 97 ++ rest) =
      List.replicate n 97 ++ Utf8.replaceEach fuel rest := by
  have encoded : String.utf8EncodeChar 'a' = [97] := by decide
  induction n with
  | zero => rw [Nat.zero_add, List.replicate_zero, List.nil_append, List.nil_append]
  | succ n ih =>
    have decoded : Utf8.decode? (97 :: (List.replicate n 97 ++ rest)) = some 'a' := by
      have first := Utf8.decode?_append 'a' (List.replicate n 97 ++ rest)
      rwa [encoded] at first
    rw [Nat.add_right_comm, List.replicate_succ, List.cons_append, Utf8.replaceEach, decoded]
    dsimp only
    rw [encoded, List.length_singleton, List.drop_succ_cons, List.drop_zero, ih,
      List.singleton_append, List.cons_append]

theorem readable_accented : readable Output.sampleReplace accented =
    List.replicate 15999 97 ++ [0xc3, 0xa9, 92, 48, 0xef, 0xbf, 0xbd] := by
  have short : Utf8.replaceEach 4 [0xc3, 0xa9, 0, 0xff] = [0xc3, 0xa9, 0, 0xef, 0xbf, 0xbd] := by
    decide +kernel
  have replaced : Output.sampleReplace accented =
      List.replicate 15999 97 ++ [0xc3, 0xa9, 0, 0xef, 0xbf, 0xbd] := by
    rw [Output.sampleReplace, accented, List.length_append, List.length_replicate,
      replaceEach_replicate, ← short]
    rfl
  have kept (n : Nat) : (List.replicate n (97 : UInt8)).flatMap
      (fun ch => if ch = 0 then utf8 "\\0" else [ch]) = List.replicate n 97 := by
    simp [List.flatMap_replicate]
  rw [readable, replaced, List.flatMap_append, kept]
  rfl

theorem pieces_accented {letters tail : Bytes} (length : letters.length = 15999)
    (htail : tail = [0xc3, 0xa9, 92, 48, 0xef, 0xbf, 0xbd]) :
    pieces 16006 (letters ++ tail) = [letters, tail] := by
  have behind (i : Nat) : (letters ++ tail)[15999 + i]? = tail[i]? := by
    rw [List.getElem?_append_right (by omega), length, Nat.add_sub_cancel_left]
  have inside : ((letters ++ tail)[15999 + 1]?).any continuation := by
    rw [behind, htail]
    decide
  have start : ¬((letters ++ tail)[15998 + 1]?).any continuation := by
    rw [show 15998 + 1 = 15999 + 0 from rfl, behind, htail]
    decide
  have stop : cut (letters ++ tail) 16000 = 15999 := by
    rw [cut, if_pos inside, cut, if_neg start]
  have long : min (letters ++ tail).length 16000 = 16000 := by
    rw [List.length_append, length, htail]
    decide
  have rest : pieces 16005 tail = [tail] := by
    rw [htail]
    decide +kernel
  rw [pieces_succ 16005 (by simp [htail]), long, stop, List.take_left' length,
    List.drop_left' length, rest]

end Sample

/-- A character of two bytes at the cut, a NUL and an invalid byte. -/
theorem log_splitting_escaped :
    splitLog (readable Output.sampleReplace Sample.accented) 16006 0 =
      some [List.replicate 15999 97, [0xc3, 0xa9, 92, 48, 0xef, 0xbf, 0xbd]] ∧
    ∀ r ∈ logRecords Output.sampleReplace .stdout Sample.accented,
      Telemetry.validate { r with sequence := 1, timestampMs := 0 } = .ok () := by
  obtain ⟨texts, ends, _, _, records, accepted⟩ := log_splitting Output.sampleReplace
    (fun text => (Output.sampleReplace_replaced text).valid) .stdout Sample.accented
  have length : (readable Output.sampleReplace Sample.accented).length = 16006 := by
    rw [Sample.readable_accented, List.length_append, List.length_replicate]
    rfl
  have split : texts = [List.replicate 15999 97, [0xc3, 0xa9, 92, 48, 0xef, 0xbf, 0xbd]] := by
    have numbered : Function.Injective fun piece : Bytes =>
        ({ kind := LogKind.stdout.text, text := piece } : Telemetry) :=
      fun _ _ same => congrArg Telemetry.text same
    rw [logRecords, length, Sample.readable_accented,
      Sample.pieces_accented List.length_replicate rfl] at records
    exact (numbered.list_map records).symm
  rw [ends 16006 length.le, split]
  exact ⟨rfl, fun r hr => accepted r hr 1 0 (by decide)⟩

end Runyard
