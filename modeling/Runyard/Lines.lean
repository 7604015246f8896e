import Mathlib.Data.List.Basic
import Mathlib.Data.List.Induction
import Mathlib.Algebra.GroupWithZero.Nat

/-!
# Lines of a growing text

A separator ends a line. What stands after the last separator is no line yet and begins the
next one when the text grows.
-/

universe u

namespace Lines

variable {α : Type u} [DecidableEq α] (sep : α)

/-- The lines that a separator ends. -/
def complete (text : List α) : List (List α) := (text.splitOn sep).dropLast

/-- What follows the last separator. -/
def rest (text : List α) : List α := (text.splitOn sep).getLast (List.splitOn_ne_nil sep text)

/-- The length of the text up to the end of the first `n` lines. -/
def extent (n : Nat) (text : List α) : Nat :=
  (((complete sep text).take n).map fun line => line.length + 1).sum

variable {text more : List α}

theorem splitOn_eq (text : List α) : text.splitOn sep = complete sep text ++ [rest sep text] :=
  (List.dropLast_append_getLast _).symm

theorem of_splitOn {lines : List (List α)} {last : List α}
    (h : text.splitOn sep = lines ++ [last]) :
    complete sep text = lines ∧ rest sep text = last := by
  have both := splitOn_eq sep text
  rw [h] at both
  have parts := List.append_inj' both rfl
  exact ⟨parts.1.symm, (List.cons.inj parts.2).1.symm⟩

@[simp] theorem complete_nil : complete sep [] = [] := by
  have hsplit : ([] : List α).splitOn sep = [] ++ [[]] := by simp [List.splitOn_eq_splitOnP]
  exact (of_splitOn sep hsplit).1

@[simp] theorem rest_nil : rest sep [] = [] := by
  have hsplit : ([] : List α).splitOn sep = [] ++ [[]] := by simp [List.splitOn_eq_splitOnP]
  exact (of_splitOn sep hsplit).2

/-- The separator ends the unfinished line. -/
theorem snoc_sep (text : List α) : complete sep (text ++ [sep]) = complete sep text ++
    [rest sep text] ∧ rest sep (text ++ [sep]) = [] := by
  refine of_splitOn sep ?_
  rw [List.splitOn_append_cons_self, splitOn_eq]
  simp [List.splitOn_eq_splitOnP]

/-- Another character continues it. -/
theorem snoc_other {c : α} (hc : c ≠ sep) (text : List α) :
    complete sep (text ++ [c]) = complete sep text ∧
      rest sep (text ++ [c]) = rest sep text ++ [c] := by
  refine of_splitOn sep ?_
  induction text with
  | nil => simp [List.splitOn_eq_singleton, hc.symm]
  | cons a text ih =>
    have hcons : (a :: text).splitOn sep = _ := List.splitOn_cons_eq_if_modifyHead a text
    rw [splitOn_eq sep text] at hcons
    rw [List.cons_append, List.splitOn_cons_eq_if_modifyHead, ih]
    by_cases ha : a = sep
    · rw [if_pos (beq_iff_eq.mpr ha)] at hcons ⊢
      obtain ⟨hlines, hrest⟩ :=
        of_splitOn sep (show _ = ([] :: complete sep text) ++ [_] from hcons)
      rw [hlines, hrest, List.cons_append]
    rw [if_neg (by simpa using ha)] at hcons ⊢
    cases hcomplete : complete sep text with
    | nil =>
      rw [hcomplete] at hcons
      obtain ⟨hlines, hrest⟩ := of_splitOn sep (show _ = [] ++ [_] from hcons)
      rw [hlines, hrest]
      rfl
    | cons line lines =>
      rw [hcomplete] at hcons
      obtain ⟨hlines, hrest⟩ := of_splitOn sep (show _ = ((a :: line) :: lines) ++ [_] from hcons)
      rw [hlines, hrest]
      rfl

/-- Appended text leaves the lines and continues the unfinished one. -/
theorem append_cases (text more : List α) :
    (complete sep (text ++ more) = complete sep text ∧
      rest sep text <+: rest sep (text ++ more)) ∨
    ∃ line lines, complete sep (text ++ more) = complete sep text ++ line :: lines ∧
      rest sep text <+: line := by
  induction more using List.reverseRecOn with
  | nil =>
    rw [List.append_nil]
    exact .inl ⟨rfl, List.prefix_rfl⟩
  | append_singleton more c ih =>
    rw [← List.append_assoc]
    by_cases hc : c = sep
    · subst hc
      rw [(snoc_sep c (text ++ more)).1]
      rcases ih with ⟨hsame, hrest⟩ | ⟨line, lines, heq, hline⟩
      · exact .inr ⟨_, [], by rw [hsame], hrest⟩
      · exact .inr ⟨line, lines ++ [rest c (text ++ more)], by rw [heq]; simp, hline⟩
    · rw [(snoc_other sep hc (text ++ more)).1, (snoc_other sep hc (text ++ more)).2]
      rcases ih with ⟨hsame, hrest⟩ | ⟨line, lines, heq, hline⟩
      · exact .inl ⟨hsame, hrest.trans (List.prefix_append _ _)⟩
      · exact .inr ⟨line, lines, heq, hline⟩

theorem complete_prefix (text more : List α) :
    complete sep text <+: complete sep (text ++ more) := by
  rcases append_cases sep text more with ⟨hsame, _⟩ | ⟨line, lines, heq, _⟩
  · exact hsame ▸ List.prefix_rfl
  · exact heq ▸ List.prefix_append _ _

/-- Lines, their separators and the rest make up the text. -/
theorem length_eq (text : List α) :
    text.length = ((complete sep text).map fun line => line.length + 1).sum +
      (rest sep text).length := by
  induction text using List.reverseRecOn with
  | nil => simp
  | append_singleton text c ih =>
    by_cases hc : c = sep
    · subst hc
      rw [(snoc_sep c text).1, (snoc_sep c text).2]
      simp only [List.length_append, List.length_singleton, List.map_append, List.map_cons,
        List.map_nil, List.sum_append, List.sum_cons, List.sum_nil, List.length_nil]
      omega
    · rw [(snoc_other sep hc text).1, (snoc_other sep hc text).2]
      simp only [List.length_append, List.length_singleton]
      omega

/-- A beginning of the text contains its first `n` lines exactly when it reaches their end. -/
theorem le_length_complete_iff (text more : List α) {n : Nat}
    (hn : n ≤ (complete sep (text ++ more)).length) :
    n ≤ (complete sep text).length ↔ extent sep n (text ++ more) ≤ text.length := by
  have hlength := length_eq sep text
  obtain ⟨later, hlater⟩ := complete_prefix sep text more
  constructor
  · intro hle
    have taken : (complete sep (text ++ more)).take n = (complete sep text).take n := by
      rw [← hlater, List.take_append_of_le_length hle]
    have parts := congrArg (fun lines => (lines.map fun line => line.length + 1).sum)
      (List.take_append_drop n (complete sep text))
    simp only [List.map_append, List.sum_append] at parts
    rw [extent, taken]
    omega
  · intro hle
    by_contra hmore
    rcases append_cases sep text more with ⟨hsame, _⟩ | ⟨line, lines, heq, hline⟩
    · rw [hsame] at hn
      omega
    have hlonger := hline.length_le
    have taken : (complete sep (text ++ more)).take n = complete sep text ++
        line :: lines.take (n - (complete sep text).length - 1) := by
      obtain ⟨k, rfl⟩ := Nat.exists_eq_add_of_lt (Nat.lt_of_not_le hmore)
      rw [heq, List.take_append, List.take_of_length_le (by omega)]
      have hsucc : (complete sep text).length + k + 1 - (complete sep text).length = k + 1 := by
        omega
      rw [hsucc, List.take_succ_cons, Nat.add_sub_cancel]
    rw [extent, taken, List.map_append, List.sum_append, List.map_cons, List.sum_cons] at hle
    omega

theorem extent_append {n : Nat} (hn : n ≤ (complete sep text).length) :
    extent sep n (text ++ more) = extent sep n text := by
  obtain ⟨later, hlater⟩ := complete_prefix sep text more
  rw [extent, extent, ← hlater, List.take_append_of_le_length hn]

theorem extent_mono {m n : Nat} (h : m ≤ n) (text : List α) :
    extent sep m text ≤ extent sep n text := by
  obtain ⟨k, rfl⟩ := Nat.exists_eq_add_of_le h
  rw [extent, extent, List.take_add, List.map_append, List.sum_append]
  exact Nat.le_add_right _ _

theorem extent_le_length (n : Nat) : extent sep n text ≤ text.length := by
  have hall := length_eq sep text
  have hmono := extent_mono sep (Nat.le_max_left n (complete sep text).length) text
  rw [extent, extent, List.take_of_length_le (Nat.le_max_right _ _)] at hmono
  rw [extent]
  omega

/-- A text without a separator is an unfinished line. -/
theorem of_notMem (h : sep ∉ text) : complete sep text = [] ∧ rest sep text = text := by
  induction text using List.reverseRecOn with
  | nil => simp
  | append_singleton text c ih =>
    obtain ⟨htext, hc⟩ := not_or.mp (mt List.mem_append.mpr h)
    obtain ⟨hcomplete, hrest⟩ := ih htext
    have hne : c ≠ sep := fun heq => hc (heq ▸ List.mem_singleton_self c)
    rw [(snoc_other sep hne text).1, (snoc_other sep hne text).2, hcomplete, hrest]
    exact ⟨rfl, rfl⟩

end Lines
