import Mathlib.Algebra.BigOperators.Group.List.Lemmas
import Mathlib.Algebra.BigOperators.Ring.List
import Mathlib.Algebra.Order.Ring.Nat

/-!
# Tuples in lexicographic order

The Cartesian product of a list of rows, the last row varying fastest. The position of a tuple
is a number in the mixed radix of the lengths of the rows: its digits are the positions of the
components, and every combination of positions is the digits of exactly one number.
-/

universe u v

/-- All tuples with one component from each row. -/
def tuples {α : Type u} : List (List α) → List (List α)
  | [] => [[]]
  | row :: rest => row.flatMap fun a => (tuples rest).map (a :: ·)

/-- The digit `j` of `i` in a mixed radix, whose last digit varies fastest. -/
def digit (sizes : List Nat) (j i : Nat) : Nat :=
  i / (sizes.drop (j + 1)).prod % sizes.getD j 1

section Digits

variable {sizes rest : List Nat} {size i j : Nat}

@[simp] theorem digit_zero : digit (size :: rest) 0 i = i / rest.prod % size := rfl

@[simp] theorem digit_succ : digit (size :: rest) (j + 1) i = digit rest j i := rfl

/-- A digit depends only on the number modulo the product of the sizes. -/
theorem digit_mod (hj : j < sizes.length) : digit sizes j (i % sizes.prod) = digit sizes j i := by
  induction sizes generalizing i j with
  | nil => cases hj
  | cons size rest ih =>
    rw [List.prod_cons]
    cases j with
    | zero => rw [digit_zero, digit_zero, Nat.mod_mul_left_div_self, Nat.mod_mod]
    | succ j =>
      have hj : j < rest.length := Nat.lt_of_succ_lt_succ hj
      calc digit rest j (i % (size * rest.prod))
          = digit rest j (i % (size * rest.prod) % rest.prod) := (ih hj).symm
        _ = digit rest j (i % rest.prod) := by rw [Nat.mod_mul_left_mod]
        _ = digit rest j i := ih hj

/-- Every choice of positions is the digits of exactly one number. -/
theorem digits_unique (choice : Nat → Nat)
    (bounded : ∀ j size, sizes[j]? = some size → choice j < size) :
    ∃! i, i < sizes.prod ∧ ∀ j < sizes.length, digit sizes j i = choice j := by
  induction sizes generalizing choice with
  | nil =>
    refine ⟨0, ⟨by simp, fun j hj => by cases hj⟩, ?_⟩
    rintro i ⟨hi, -⟩
    simpa using hi
  | cons size rest ih =>
    have first : choice 0 < size := bounded 0 size rfl
    obtain ⟨low, ⟨hlow, hdigits⟩, unique⟩ :=
      ih (fun j => choice (j + 1)) fun j s hs => bounded (j + 1) s hs
    have positive : 0 < rest.prod := by omega
    have upper : ∀ i, i < size * rest.prod → i / rest.prod % size = i / rest.prod :=
      fun i hi => Nat.mod_eq_of_lt ((Nat.div_lt_iff_lt_mul positive).mpr hi)
    rw [List.prod_cons]
    have below : choice 0 * rest.prod + low < size * rest.prod :=
      calc choice 0 * rest.prod + low
          < choice 0 * rest.prod + rest.prod := Nat.add_lt_add_left hlow _
        _ = (choice 0 + 1) * rest.prod := (Nat.succ_mul _ _).symm
        _ ≤ size * rest.prod := Nat.mul_le_mul_right _ first
    have quotient : (choice 0 * rest.prod + low) / rest.prod = choice 0 := by
      rw [Nat.mul_comm, Nat.mul_add_div positive, Nat.div_eq_of_lt hlow, Nat.add_zero]
    have remainder : (choice 0 * rest.prod + low) % rest.prod = low := by
      rw [Nat.mul_comm, Nat.mul_add_mod, Nat.mod_eq_of_lt hlow]
    refine ⟨choice 0 * rest.prod + low, ⟨below, fun j hj => ?_⟩, ?_⟩
    · cases j with
      | zero => rw [digit_zero, upper _ below, quotient]
      | succ j =>
        have hj : j < rest.length := Nat.lt_of_succ_lt_succ hj
        rw [digit_succ, ← digit_mod hj, remainder, hdigits j hj]
    · rintro i ⟨hi, hchoice⟩
      have high : i / rest.prod = choice 0 := by
        rw [← hchoice 0 (Nat.succ_pos _), digit_zero, upper i hi]
      have same : i % rest.prod = low := by
        refine unique _ ⟨Nat.mod_lt i positive, fun j hj => ?_⟩
        rw [digit_mod hj]
        exact hchoice (j + 1) (Nat.succ_lt_succ hj)
      rw [← high, ← same, Nat.mul_comm]
      exact (Nat.div_add_mod i rest.prod).symm

end Digits

section Tuples

variable {α : Type u} {β : Type v} {rows : List (List α)}

theorem length_tuples : (tuples rows).length = (rows.map List.length).prod := by
  induction rows with
  | nil => rfl
  | cons row rest ih =>
    rw [tuples, List.length_flatMap, List.map_cons, List.prod_cons, ← ih]
    simp

/-- A component stands in as many tuples as the other rows have. -/
theorem sum_tuples {f : α → Nat} (nonempty : ∀ row ∈ rows, row ≠ []) :
    ((tuples rows).map fun tuple => (tuple.map f).sum).sum =
      (rows.map fun row => (rows.map List.length).prod / row.length * (row.map f).sum).sum := by
  induction rows with
  | nil => rfl
  | cons row rest ih =>
    have some : 0 < row.length := List.length_pos_of_ne_nil (nonempty row List.mem_cons_self)
    have first : ∀ a, (((tuples rest).map (a :: ·)).map fun tuple => (tuple.map f).sum).sum =
        (rest.map List.length).prod * f a +
          ((tuples rest).map fun tuple => (tuple.map f).sum).sum := by
      intro a
      simp [Function.comp_def, List.sum_map_add, length_tuples]
    have later : ∀ r ∈ rest, (row.length * (rest.map List.length).prod) / r.length *
        (r.map f).sum =
        row.length * ((rest.map List.length).prod / r.length * (r.map f).sum) := by
      intro r hr
      have divides : r.length ∣ (rest.map List.length).prod :=
        List.dvd_prod (List.mem_map_of_mem hr)
      rw [Nat.mul_div_assoc _ divides, Nat.mul_assoc]
    have whole : ((tuples (row :: rest)).map fun tuple => (tuple.map f).sum).sum =
        (row.map fun a => (rest.map List.length).prod * f a +
          ((tuples rest).map fun tuple => (tuple.map f).sum).sum).sum := by
      rw [tuples, List.map_flatMap, List.flatMap_def, List.sum_flatten, List.map_map]
      exact congrArg List.sum (List.map_congr_left fun a _ => first a)
    simp only [List.map_cons, List.prod_cons, List.sum_cons]
    rw [whole, List.sum_map_add, List.sum_map_mul_left, Nat.mul_div_cancel_left _ some,
      List.map_congr_left later, List.sum_map_mul_left,
      ← ih fun r hr => nonempty r (List.mem_cons_of_mem row hr)]
    simp

/-- Where all blocks have one length, a position is a block and a position in it. -/
theorem getElem?_blocks {row : List α} {f : α → List β} {size : Nat} (positive : 0 < size)
    (blocks : ∀ a ∈ row, (f a).length = size) (i : Nat) :
    (row.flatMap f)[i]? = row[i / size]?.bind fun a => (f a)[i % size]? := by
  induction row generalizing i with
  | nil => simp
  | cons a rest ih =>
    have head : (f a).length = size := blocks a List.mem_cons_self
    rw [List.flatMap_cons]
    rcases Nat.lt_or_ge i size with hi | hi
    · rw [List.getElem?_append_left (by omega), Nat.div_eq_of_lt hi, Nat.mod_eq_of_lt hi]
      rfl
    · obtain ⟨k, rfl⟩ := Nat.exists_eq_add_of_le hi
      rw [List.getElem?_append_right (by omega), head, Nat.add_sub_cancel_left,
        ih (fun b hb => blocks b (List.mem_cons_of_mem a hb)), Nat.add_div_left k positive,
        Nat.add_mod_left]
      rfl

/-- The components of the tuple at position `i` stand at the digits of `i`. -/
theorem tuples_digit {tuple : List α} {i : Nat} (h : (tuples rows)[i]? = some tuple) :
    tuple.length = rows.length ∧ ∀ j row, rows[j]? = some row →
      tuple[j]? = row[digit (rows.map List.length) j i]? := by
  induction rows generalizing tuple i with
  | nil =>
    rw [tuples, List.getElem?_singleton] at h
    split at h
    · cases h
      exact ⟨rfl, fun j row hrow => by cases hrow⟩
    · cases h
  | cons row rest ih =>
    have hi : i < (tuples (row :: rest)).length := List.getElem?_eq_some_iff.mp h |>.1
    rw [length_tuples, List.map_cons, List.prod_cons] at hi
    have positive : 0 < (rest.map List.length).prod :=
      Nat.pos_of_mul_pos_left (Nat.zero_lt_of_lt hi)
    rw [tuples, getElem?_blocks positive (by simp [length_tuples])] at h
    obtain ⟨a, ha, h⟩ := Option.bind_eq_some_iff.mp h
    rw [List.getElem?_map] at h
    obtain ⟨tail, htail, rfl⟩ := Option.map_eq_some_iff.mp h
    obtain ⟨hlength, hdigits⟩ := ih htail
    refine ⟨congrArg Nat.succ hlength, fun j r hr => ?_⟩
    cases j with
    | zero =>
      obtain rfl := Option.some.inj hr
      have upper : i / (rest.map List.length).prod < row.length :=
        (Nat.div_lt_iff_lt_mul positive).mpr hi
      rw [List.map_cons, digit_zero, Nat.mod_eq_of_lt upper, ha]
      rfl
    | succ j =>
      have hj : j < (rest.map List.length).length := by
        rw [List.length_map]
        exact Nat.lt_of_succ_lt_succ (List.getElem?_eq_some_iff.mp hr).1
      rw [List.map_cons, digit_succ, ← digit_mod hj]
      exact hdigits j r hr

end Tuples
