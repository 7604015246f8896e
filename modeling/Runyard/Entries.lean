import Mathlib.Data.List.Induction
import Mathlib.Data.List.Pairwise
import Mathlib.Data.List.Sort
import Mathlib.Order.Basic

/-!
# Ordered maps as lists of entries

A map whose keys are linearly ordered, as the list of its entries with ascending keys. `assign`
writes one entry and `collect` builds the map of a sequence of writes, where a later write to a
key replaces an earlier one. Entries that ascend already are their own map.
-/

universe u v w

namespace Entries

variable {κ : Type u} {α : Type v} {β : Type w} [LinearOrder κ]

def Ascending (entries : List (κ × α)) : Prop := entries.Pairwise fun a b => a.1 < b.1

def lookup (key : κ) (entries : List (κ × α)) : Option α :=
  (entries.find? fun e => e.1 = key).map (·.2)

/-- `map[key] = value`. -/
def assign (key : κ) (value : α) : List (κ × α) → List (κ × α)
  | [] => [(key, value)]
  | e :: rest =>
    if key < e.1 then (key, value) :: e :: rest
    else if key = e.1 then (key, value) :: rest
    else e :: assign key value rest

/-- The entries that are written, in this order, to an empty map. -/
def collect (writes : List (κ × α)) : List (κ × α) :=
  writes.foldl (fun entries e => assign e.1 e.2 entries) []

variable {key : κ} {value : α} {entries writes : List (κ × α)}

@[simp] theorem lookup_nil : lookup key ([] : List (κ × α)) = none := rfl

theorem lookup_cons {e : κ × α} :
    lookup key (e :: entries) = if e.1 = key then some e.2 else lookup key entries := by
  by_cases hkey : e.1 = key
  · simp [lookup, hkey]
  · simp [lookup, hkey]

theorem lookup_map (f : α → β) :
    lookup key (entries.map fun e => (e.1, f e.2)) = (lookup key entries).map f := by
  induction entries with
  | nil => rfl
  | cons e rest ih =>
    rw [List.map_cons, lookup_cons, lookup_cons, ih]
    split
    · rfl
    · rfl

theorem mem_of_lookup (h : lookup key entries = some value) : (key, value) ∈ entries := by
  induction entries with
  | nil => cases h
  | cons e rest ih =>
    rw [lookup_cons] at h
    split at h
    · next hkey =>
      cases h
      exact hkey ▸ List.mem_cons_self
    · exact List.mem_cons_of_mem e (ih h)

theorem lookup_eq_some_iff (distinct : (entries.map (·.1)).Nodup) :
    lookup key entries = some value ↔ (key, value) ∈ entries := by
  refine ⟨mem_of_lookup, fun h => ?_⟩
  induction entries with
  | nil => cases h
  | cons e rest ih =>
    obtain ⟨fresh, distinct⟩ := List.nodup_cons.mp distinct
    rw [lookup_cons]
    rcases List.mem_cons.mp h with rfl | hrest
    · rw [if_pos rfl]
    · have hother : e.1 ≠ key := by
        rintro rfl
        exact fresh (List.mem_map.mpr ⟨_, hrest, rfl⟩)
      rw [if_neg hother, ih distinct hrest]

/-! ## One write -/

theorem mem_assign {e : κ × α} (h : e ∈ assign key value entries) :
    e = (key, value) ∨ e ∈ entries := by
  induction entries with
  | nil => exact .inl (List.mem_singleton.mp h)
  | cons d rest ih =>
    rw [assign] at h
    split at h
    · exact List.mem_cons.mp h
    split at h
    · exact (List.mem_cons.mp h).imp_right (List.mem_cons_of_mem d)
    · rcases List.mem_cons.mp h with rfl | hrest
      · exact .inr List.mem_cons_self
      · exact (ih hrest).imp_right (List.mem_cons_of_mem d)

theorem ascending_assign (h : Ascending entries) : Ascending (assign key value entries) := by
  induction entries with
  | nil => exact List.pairwise_singleton _ _
  | cons e rest ih =>
    obtain ⟨above, ascending⟩ := List.pairwise_cons.mp h
    rw [assign]
    split
    · next hless =>
      refine List.pairwise_cons.mpr ⟨fun d hd => ?_, h⟩
      rcases List.mem_cons.mp hd with rfl | hd
      · exact hless
      · exact hless.trans (above d hd)
    split
    · next hkey => exact List.pairwise_cons.mpr ⟨fun d hd => hkey ▸ above d hd, ascending⟩
    · next hless hkey =>
      refine List.pairwise_cons.mpr ⟨fun d hd => ?_, ih ascending⟩
      rcases mem_assign hd with rfl | hd
      · exact lt_of_le_of_ne (not_lt.mp hless) (Ne.symm hkey)
      · exact above d hd

theorem length_le_assign : entries.length ≤ (assign key value entries).length := by
  induction entries with
  | nil => exact Nat.zero_le _
  | cons e rest ih =>
    rw [assign]
    split
    · exact Nat.le_succ _
    split
    · exact le_refl _
    · exact Nat.succ_le_succ ih

theorem lookup_assign (key' : κ) :
    lookup key' (assign key value entries) =
      if key = key' then some value else lookup key' entries := by
  induction entries with
  | nil => rw [assign, lookup_cons]
  | cons e rest ih =>
    rw [assign]
    split
    · rw [lookup_cons]
    split
    · next hkey =>
      rw [lookup_cons, lookup_cons]
      split
      · rfl
      · next hother => rw [if_neg (hkey ▸ hother)]
    · next hkey =>
      rw [lookup_cons, lookup_cons, ih]
      split
      · next hfound => rw [if_neg fun hsame => hkey (hsame.trans hfound.symm)]
      · rfl

theorem assign_map (f : α → β) :
    assign key (f value) (entries.map fun e => (e.1, f e.2)) =
      (assign key value entries).map fun e => (e.1, f e.2) := by
  induction entries with
  | nil => rfl
  | cons e rest ih =>
    rw [List.map_cons, assign, assign]
    split
    · rfl
    split
    · rfl
    · rw [List.map_cons, ih]

theorem assign_perm (fresh : ∀ e ∈ entries, e.1 ≠ key) :
    (assign key value entries).Perm ((key, value) :: entries) := by
  induction entries with
  | nil => exact .refl _
  | cons e rest ih =>
    rw [assign]
    split
    · exact .refl _
    rw [if_neg (fresh e List.mem_cons_self).symm]
    exact ((ih fun d hd => fresh d (List.mem_cons_of_mem e hd)).cons e).trans (.swap _ _ _)

/-- A write replaces what the key had. -/
theorem assign_perm_filter (h : Ascending entries) :
    (assign key value entries).Perm ((key, value) :: entries.filter fun e => e.1 ≠ key) := by
  induction entries with
  | nil => exact .refl _
  | cons e rest ih =>
    obtain ⟨above, ascending⟩ := List.pairwise_cons.mp h
    rw [assign]
    split
    · next hless =>
      have kept : ∀ d ∈ e :: rest, decide (d.1 ≠ key) = true := by
        intro d hd
        rcases List.mem_cons.mp hd with rfl | hd
        · exact decide_eq_true hless.ne'
        · exact decide_eq_true (hless.trans (above d hd)).ne'
      rw [List.filter_eq_self.mpr kept]
    split
    · next hkey =>
      have kept : ∀ d ∈ rest, decide (d.1 ≠ key) = true :=
        fun d hd => decide_eq_true (hkey ▸ (above d hd).ne')
      rw [List.filter_cons_of_neg (by simp [hkey]), List.filter_eq_self.mpr kept]
    · next hkey =>
      have kept : decide (e.1 ≠ key) = true := decide_eq_true (Ne.symm hkey)
      rw [List.filter_cons, if_pos kept]
      exact ((ih ascending).cons e).trans (.swap _ _ _)

/-! ## A sequence of writes -/

theorem collect_append_singleton {e : κ × α} :
    collect (writes ++ [e]) = assign e.1 e.2 (collect writes) := by
  rw [collect, List.foldl_append]
  rfl

theorem ascending_collect : Ascending (collect writes) := by
  induction writes using List.reverseRecOn with
  | nil => exact .nil
  | append_singleton writes e ih =>
    rw [collect_append_singleton]
    exact ascending_assign ih

theorem mem_collect {e : κ × α} (h : e ∈ collect writes) : e ∈ writes := by
  induction writes using List.reverseRecOn with
  | nil => exact h
  | append_singleton writes d ih =>
    rw [collect_append_singleton] at h
    rcases mem_assign h with rfl | hold
    · exact List.mem_append_right _ (List.mem_singleton.mpr rfl)
    · exact List.mem_append_left _ (ih hold)

theorem collect_map (f : α → β) :
    collect (writes.map fun e => (e.1, f e.2)) =
      (collect writes).map fun e => (e.1, f e.2) := by
  induction writes using List.reverseRecOn with
  | nil => rfl
  | append_singleton writes e ih =>
    rw [List.map_append, List.map_singleton, collect_append_singleton, collect_append_singleton, ih]
    exact assign_map f

theorem collect_perm_self (distinct : (writes.map (·.1)).Nodup) : (collect writes).Perm writes := by
  induction writes using List.reverseRecOn with
  | nil => exact .refl _
  | append_singleton writes e ih =>
    rw [List.map_append, List.nodup_append] at distinct
    rw [collect_append_singleton]
    refine (assign_perm fun d hd => ?_).trans ?_
    · exact distinct.2.2 d.1 (List.mem_map_of_mem (mem_collect hd)) e.1 (by simp)
    · exact ((ih distinct.1).cons e).trans (List.perm_append_singleton e writes).symm

theorem lookup_collect_of_nodup (distinct : (writes.map (·.1)).Nodup) :
    lookup key (collect writes) = lookup key writes := by
  have same := collect_perm_self distinct
  ext value
  rw [lookup_eq_some_iff distinct, lookup_eq_some_iff ((same.map (·.1)).nodup_iff.mpr distinct),
    same.mem_iff]

theorem Ascending.nodup (h : Ascending entries) : (entries.map (·.1)).Nodup :=
  List.pairwise_map.mpr (h.imp fun hless => hless.ne)

/-- Entries with ascending keys are determined by their members. -/
theorem Ascending.eq_of_perm {others : List (κ × α)} (h : Ascending entries)
    (h' : Ascending others) (same : entries.Perm others) : entries = others :=
  same.eq_of_pairwise (fun _ _ _ _ hless hgreater => (hless.not_gt hgreater).elim) h h'

theorem Ascending.collect_eq (h : Ascending entries) : collect entries = entries :=
  ascending_collect.eq_of_perm h (collect_perm_self h.nodup)

/-- The order of the writes does not matter where every key is written once. -/
theorem Ascending.collect_of_perm (h : Ascending entries) (same : writes.Perm entries) :
    collect writes = entries := by
  have distinct : (writes.map (·.1)).Nodup := (same.map (·.1)).nodup_iff.mpr h.nodup
  exact ascending_collect.eq_of_perm h ((collect_perm_self distinct).trans same)

end Entries
