import Mathlib.Data.List.Nodup
import Mathlib.Data.List.Sort
import Mathlib.Algebra.BigOperators.Group.List.Basic
import Mathlib.Algebra.Ring.Nat

/-!
# Keyed tables as lists of rows

A table is the list of its rows in insertion order. `update` is an `UPDATE ... WHERE`,
`replace` rewrites the row with a given key, `lookup` is a `SELECT` by primary key, and
`best` is an `ORDER BY ... LIMIT 1`. `Keyed` says that the key column is unique.
-/

namespace Table

universe u v w

variable {α : Type u} {β : Type w} {κ : Type v}

/-- Rewrite the rows selected by `p`, in place. -/
def update (p : α → Bool) (f : α → α) (rows : List α) : List α :=
  rows.map fun r => if p r then f r else r

@[simp] theorem update_nil (p : α → Bool) (f : α → α) : update p f [] = [] := rfl

@[simp] theorem update_cons (p : α → Bool) (f : α → α) (r : α) (rows : List α) :
    update p f (r :: rows) = (if p r then f r else r) :: update p f rows := rfl

@[simp] theorem update_append (p : α → Bool) (f : α → α) (rows more : List α) :
    update p f (rows ++ more) = update p f rows ++ update p f more := by
  simp [update]

@[simp] theorem length_update (p : α → Bool) (f : α → α) (rows : List α) :
    (update p f rows).length = rows.length := by
  simp [update]

theorem mem_update {p : α → Bool} {f : α → α} {rows : List α} {r' : α} :
    r' ∈ update p f rows ↔ ∃ r ∈ rows, (if p r then f r else r) = r' := by
  simp [update]

theorem mem_update_of_mem {p : α → Bool} (f : α → α) {rows : List α} {r : α}
    (hr : r ∈ rows) (hp : p r) : f r ∈ update p f rows :=
  mem_update.mpr ⟨r, hr, by simp [hp]⟩

theorem mem_update_of_not {p : α → Bool} (f : α → α) {rows : List α} {r : α}
    (hr : r ∈ rows) (hp : ¬ p r) : r ∈ update p f rows :=
  mem_update.mpr ⟨r, hr, by simp [hp]⟩

/-- A column that the rewriting keeps is the same column afterwards. -/
theorem map_update {p : α → Bool} {f : α → α} (g : α → β)
    (keeps : ∀ r, p r → g (f r) = g r) (rows : List α) :
    (update p f rows).map g = rows.map g := by
  induction rows with
  | nil => rfl
  | cons r rows ih =>
    by_cases hp : p r
    · simp [hp, keeps r hp, ih]
    · simp [hp, ih]

theorem update_eq_self {p : α → Bool} {f : α → α} {rows : List α}
    (same : ∀ r ∈ rows, p r → f r = r) : update p f rows = rows := by
  induction rows with
  | nil => rfl
  | cons r rows ih =>
    have tail := ih fun s hs => same s (List.mem_cons_of_mem r hs)
    by_cases hp : p r
    · simp [hp, same r List.mem_cons_self hp, tail]
    · simp [hp, tail]

/-- Selecting commutes with a rewriting that keeps the selected columns. -/
theorem filter_update {p q : α → Bool} {f : α → α}
    (keeps : ∀ r, p r → q (f r) = q r) (rows : List α) :
    (update p f rows).filter q = update p f (rows.filter q) := by
  induction rows with
  | nil => rfl
  | cons r rows ih =>
    by_cases hp : p r <;> by_cases hq : q r <;> simp [hp, hq, keeps r, ih]

theorem update_congr {p q : α → Bool} {f g : α → α} {rows : List α}
    (same : ∀ r ∈ rows, (if p r then f r else r) = if q r then g r else r) :
    update p f rows = update q g rows :=
  List.map_congr_left same

theorem update_update (p q : α → Bool) (f g : α → α) (rows : List α) :
    update q g (update p f rows) =
      rows.map fun r => if q (if p r then f r else r) then g (if p r then f r else r)
        else if p r then f r else r := by
  simp [update, List.map_map, Function.comp_def]

section Keys

variable [DecidableEq κ] {key : α → κ}

/-- The key column is unique. -/
def Keyed (key : α → κ) (rows : List α) : Prop := (rows.map key).Nodup

/-- `SELECT ... WHERE key = k`. -/
def lookup (key : α → κ) (k : κ) (rows : List α) : Option α :=
  rows.find? fun r => key r = k

/-- Put `row` in the place of the row that has its key. -/
def replace (key : α → κ) (row : α) (rows : List α) : List α :=
  update (fun r => key r = key row) (fun _ => row) rows

theorem lookup_mem {k : κ} {rows : List α} {r : α} (h : lookup key k rows = some r) :
    r ∈ rows ∧ key r = k :=
  ⟨List.mem_of_find?_eq_some h, by simpa using List.find?_some h⟩

theorem lookup_none {k : κ} {rows : List α} (h : lookup key k rows = none) :
    ∀ r ∈ rows, key r ≠ k := by
  simpa [lookup] using h

omit [DecidableEq κ] in
theorem Keyed.eq {rows : List α} (hk : Keyed key rows) {r s : α} (hr : r ∈ rows) (hs : s ∈ rows)
    (same : key r = key s) : r = s :=
  List.inj_on_of_nodup_map hk hr hs same

theorem Keyed.lookup {rows : List α} (hk : Keyed key rows) {r : α} (hr : r ∈ rows) :
    Table.lookup key (key r) rows = some r := by
  cases h : Table.lookup key (key r) rows with
  | none => exact absurd rfl (lookup_none h r hr)
  | some s => rw [hk.eq (lookup_mem h).1 hr (lookup_mem h).2]

omit [DecidableEq κ] in
theorem Keyed.update {rows : List α} (hk : Keyed key rows) {p : α → Bool} {f : α → α}
    (keeps : ∀ r, p r → key (f r) = key r) : Keyed key (Table.update p f rows) := by
  unfold Keyed
  rw [map_update key keeps]
  exact hk

omit [DecidableEq κ] in
theorem Keyed.append {rows : List α} (hk : Keyed key rows) {row : α}
    (fresh : ∀ r ∈ rows, key r ≠ key row) : Keyed key (rows ++ [row]) := by
  unfold Keyed
  rw [List.map_append, List.map_singleton]
  refine List.Nodup.append hk (List.nodup_singleton _) ?_
  intro k hkm hks
  obtain ⟨r, hr, rfl⟩ := List.mem_map.mp hkm
  exact fresh r hr (List.mem_singleton.mp hks)

omit [DecidableEq κ] in
theorem Keyed.filter {rows : List α} (hk : Keyed key rows) (p : α → Bool) :
    Keyed key (rows.filter p) :=
  (List.Sublist.map key List.filter_sublist).nodup hk

theorem Keyed.filter_eq {rows : List α} (hk : Keyed key rows) {row : α} (hrow : row ∈ rows) :
    rows.filter (fun r => key r = key row) = [row] := by
  induction rows with
  | nil => cases hrow
  | cons r rows ih =>
    obtain ⟨hhead, htail⟩ := List.nodup_cons.mp hk
    have absent : ∀ s ∈ rows, key s ≠ key r :=
      fun s hs h => hhead (List.mem_map.mpr ⟨s, hs, h⟩)
    rcases List.mem_cons.mp hrow with rfl | hrow
    · have hnone : rows.filter (fun s => key s = key row) = [] := by
        refine List.filter_eq_nil_iff.mpr ?_
        intro s hs
        simpa using absent s hs
      simp [hnone]
    · have hne : key r ≠ key row := fun h => absent row hrow h.symm
      simpa [hne] using ih htail hrow

theorem mem_replace {row : α} {rows : List α} {r' : α} (h : r' ∈ replace key row rows) :
    r' = row ∨ r' ∈ rows ∧ key r' ≠ key row := by
  obtain ⟨r, hr, rfl⟩ := mem_update.mp h
  by_cases hrow : key r = key row
  · simp [hrow]
  · simp [hrow, hr]

theorem replace_self {rows : List α} {row : α} (h : ∃ r ∈ rows, key r = key row) :
    row ∈ replace key row rows := by
  obtain ⟨r, hr, hkey⟩ := h
  exact mem_update.mpr ⟨r, hr, by simp [hkey]⟩

theorem replace_other {rows : List α} {row r : α} (hr : r ∈ rows) (hne : key r ≠ key row) :
    r ∈ replace key row rows :=
  mem_update.mpr ⟨r, hr, by simp [hne]⟩

/-- An `UPDATE ... WHERE key = k` on a keyed table replaces the one row it finds. -/
theorem Keyed.update_eq_replace {rows : List α} (hk : Keyed key rows) {row : α}
    (hrow : row ∈ rows) {f : α → α} (keeps : key (f row) = key row) :
    Table.update (fun r => key r = key row) f rows = replace key (f row) rows := by
  refine update_congr ?_
  intro r hr
  by_cases hkey : key r = key row
  · simp [keeps, hk.eq hr hrow hkey]
  · simp [hkey, keeps]

theorem map_replace (g : α → β) {row : α} {rows : List α}
    (keeps : ∀ r ∈ rows, key r = key row → g row = g r) :
    (replace key row rows).map g = rows.map g := by
  unfold replace update
  rw [List.map_map]
  refine List.map_congr_left ?_
  intro r hr
  by_cases hkey : key r = key row
  · simp [hkey, keeps r hr hkey]
  · simp [hkey]

/-- Reading columns that include the key commutes with rewriting a row. -/
theorem map_replace_row {key' : β → κ} (g : α → β) (hg : ∀ r, key' (g r) = key r) (row : α)
    (rows : List α) : (replace key row rows).map g = replace key' (g row) (rows.map g) := by
  unfold replace update
  rw [List.map_map, List.map_map]
  refine List.map_congr_left ?_
  intro r _
  by_cases hkey : key r = key row
  · simp [hkey, hg]
  · simp [hkey, hg]

theorem replace_absent {row : α} {rows : List α} (h : ∀ r ∈ rows, key r ≠ key row) :
    replace key row rows = rows :=
  update_eq_self fun r hr hp => absurd (by simpa using hp) (h r hr)

theorem replace_same {rows : List α} (hk : Keyed key rows) {row : α} (hrow : row ∈ rows) :
    replace key row rows = rows :=
  update_eq_self fun r hr hp => (hk.eq hr hrow (by simpa using hp)).symm

theorem filter_replace {q : α → Bool} {row : α} {rows : List α}
    (keeps : ∀ r ∈ rows, key r = key row → q row = q r) :
    (replace key row rows).filter q = replace key row (rows.filter q) := by
  induction rows with
  | nil => rfl
  | cons r rows ih =>
    have tail := ih fun s hs => keeps s (List.mem_cons_of_mem r hs)
    have head := keeps r List.mem_cons_self
    simp only [replace] at tail ⊢
    by_cases hkey : key r = key row <;> by_cases hq : q r <;>
      simp_all

theorem lookup_update {k : κ} {p : α → Bool} {f : α → α} (keeps : ∀ r, p r → key (f r) = key r)
    (rows : List α) :
    lookup key k (update p f rows) =
      (lookup key k rows).map fun r => if p r then f r else r := by
  induction rows with
  | nil => rfl
  | cons r rows ih =>
    have head : key (if p r then f r else r) = key r := by
      by_cases hp : p r
      · simp [hp, keeps r hp]
      · simp [hp]
    simp only [lookup, update_cons, List.find?_cons, head] at ih ⊢
    by_cases hkey : key r = k
    · simp [hkey]
    · simpa [hkey] using ih

theorem lookup_append {k : κ} (rows more : List α) :
    lookup key k (rows ++ more) = (lookup key k rows).or (lookup key k more) :=
  List.find?_append

theorem lookup_replace_self {rows : List α} {row r : α}
    (h : lookup key (key row) rows = some r) :
    lookup key (key row) (replace key row rows) = some row := by
  have keeps : ∀ s, (fun s => decide (key s = key row)) s → key row = key s := by
    intro s hs
    exact (of_decide_eq_true hs).symm
  rw [replace, lookup_update keeps, h]
  simp [(lookup_mem h).2]

/-- Rewriting the last row of a keyed table. -/
theorem replace_last {past : List α} {row row' : α} (hk : Keyed key (past ++ [row]))
    (same : key row' = key row) : replace key row' (past ++ [row]) = past ++ [row'] := by
  have apart : ∀ r ∈ past, key r ≠ key row' := by
    intro r hr hkey
    unfold Keyed at hk
    rw [List.map_append] at hk
    refine List.disjoint_of_nodup_append hk (List.mem_map_of_mem hr) ?_
    simp [hkey, same]
  have hpast : replace key row' past = past := replace_absent apart
  have hlast : replace key row' [row] = [row'] := by simp [replace, same]
  calc replace key row' (past ++ [row])
      = replace key row' past ++ replace key row' [row] := update_append _ _ past [row]
    _ = past ++ [row'] := by rw [hpast, hlast]

theorem Keyed.replace {rows : List α} (hk : Keyed key rows) (row : α) :
    Keyed key (Table.replace key row rows) := by
  unfold Keyed
  rw [map_replace key fun r _ h => h.symm]
  exact hk

/-- Counting the rows of each owner counts every row once. -/
theorem sum_owned (owner : β → κ) (p : α → Bool) (q : β → Bool) {owners : List α}
    (hk : Keyed key owners) (rows : List β) :
    (owners.map fun a => if p a then rows.countP fun b => owner b = key a && q b else 0).sum =
      rows.countP fun b => q b && owners.any fun a => key a = owner b && p a := by
  induction owners with
  | nil => simp
  | cons a rest ih =>
    obtain ⟨hhead, htail⟩ := List.nodup_cons.mp hk
    have split : ∀ rows : List β,
        (rows.countP fun b => q b && (a :: rest).any fun a => key a = owner b && p a) =
        (if p a then rows.countP fun b => owner b = key a && q b else 0) +
          rows.countP fun b => q b && rest.any fun a => key a = owner b && p a := by
      intro rows
      induction rows with
      | nil => simp
      | cons b rows ihrows =>
        have apart : owner b = key a → (rest.any fun a => key a = owner b && p a) = false := by
          intro hb
          refine List.any_eq_false.mpr fun c hc hcond => ?_
          simp only [Bool.and_eq_true, decide_eq_true_eq] at hcond
          exact hhead (List.mem_map.mpr ⟨c, hc, hcond.1.trans hb⟩)
        rw [List.countP_cons, List.countP_cons, List.countP_cons, ihrows, List.any_cons]
        generalize (rest.any fun a => key a = owner b && p a) = others at apart ⊢
        by_cases hb : owner b = key a
        · rw [apart hb]
          cases p a <;> cases q b <;> simp [hb]
          omega
        · have hb' : ¬ key a = owner b := fun h => hb h.symm
          cases q b <;> cases others <;> simp [hb, hb']
          omega
    rw [List.map_cons, List.sum_cons, ih htail, split]

end Keys

section Order

/-- The first row that no later row beats: `ORDER BY ... LIMIT 1`. -/
def best (beats : α → α → Bool) : List α → Option α
  | [] => none
  | r :: rest => match best beats rest with
    | none => some r
    | some s => if beats s r then some s else some r

theorem best_mem {beats : α → α → Bool} {rows : List α} {r : α}
    (h : best beats rows = some r) : r ∈ rows := by
  induction rows generalizing r with
  | nil => simp [best] at h
  | cons s rows ih =>
    rw [best] at h
    cases hb : best beats rows with
    | none => simp [hb] at h; simp [h]
    | some t =>
      simp only [hb] at h
      split at h
      · exact List.mem_cons_of_mem s (ih (by rw [hb, h]))
      · simp at h; simp [h]

theorem best_none {beats : α → α → Bool} {rows : List α} (h : best beats rows = none) :
    rows = [] := by
  cases rows with
  | nil => rfl
  | cons s rows =>
    rw [best] at h
    cases hb : best beats rows with
    | none => simp [hb] at h
    | some t => simp only [hb] at h; split at h <;> simp at h

/-- In a total order the first row of the order beats every row. -/
theorem best_beats {beats : α → α → Bool} (total : ∀ r s, beats r s ∨ beats s r)
    (trans : ∀ r s t, beats r s → beats s t → beats r t) {rows : List α} {r : α}
    (h : best beats rows = some r) : ∀ s ∈ rows, beats r s := by
  induction rows generalizing r with
  | nil => simp [best] at h
  | cons t rest ih =>
    have self : ∀ s, beats s s := fun s => (total s s).elim id id
    intro s hs
    cases hrest : best beats rest with
    | none =>
      simp only [best, hrest, Option.some.injEq] at h
      rw [best_none hrest, List.mem_singleton] at hs
      rw [hs, h]
      exact self r
    | some u =>
      have later := ih hrest
      simp only [best, hrest] at h
      split at h
      · next beaten =>
        obtain rfl := Option.some.inj h
        rcases List.mem_cons.mp hs with rfl | hs
        · exact beaten
        · exact later s hs
      · next unbeaten =>
        obtain rfl := Option.some.inj h
        have first : beats t u := (total t u).resolve_right unbeaten
        rcases List.mem_cons.mp hs with rfl | hs
        · exact self s
        · exact trans t u s first (later s hs)

theorem filter_orderedInsert (le : α → α → Prop) [DecidableRel le] [IsTrans α le] (q : α → Bool)
    (row : α) {rows : List α} (sorted : rows.Pairwise le) :
    (rows.orderedInsert le row).filter q =
      if q row then (rows.filter q).orderedInsert le row else rows.filter q := by
  induction rows with
  | nil => by_cases hq : q row <;> simp [hq]
  | cons r rest ih =>
    obtain ⟨hr, hrest⟩ := List.pairwise_cons.mp sorted
    have tail := ih hrest
    by_cases hle : le row r
    · rw [List.orderedInsert_cons, if_pos hle]
      by_cases hq : q row
      · rw [if_pos hq, List.filter_cons_of_pos hq]
        cases hkept : (r :: rest).filter q with
        | nil => rw [List.orderedInsert_nil]
        | cons s kept =>
          have hs : s ∈ r :: rest := List.mem_of_mem_filter (hkept ▸ List.mem_cons_self)
          have head : le row s := by
            rcases List.mem_cons.mp hs with rfl | hs
            · exact hle
            · exact IsTrans.trans row r s hle (hr s hs)
          rw [List.orderedInsert_cons_of_le _ kept head]
      · simp [hq]
    · rw [List.orderedInsert_cons, if_neg hle]
      by_cases hq : q r
      · rw [List.filter_cons_of_pos hq, List.filter_cons_of_pos hq, tail]
        by_cases hrow : q row
        · rw [if_pos hrow, if_pos hrow, List.orderedInsert_cons, if_neg hle]
        · rw [if_neg hrow, if_neg hrow]
      · rw [List.filter_cons_of_neg hq, List.filter_cons_of_neg hq, tail]

/-- Sorting is stable: selecting rows commutes with it. -/
theorem filter_insertionSort (le : α → α → Prop) [DecidableRel le] [IsTrans α le]
    [Std.Total le] (q : α → Bool) (rows : List α) :
    (rows.insertionSort le).filter q = (rows.filter q).insertionSort le := by
  induction rows with
  | nil => rfl
  | cons r rest ih =>
    have sorted := List.pairwise_insertionSort le rest
    rw [List.insertionSort_cons, filter_orderedInsert le q r sorted, ih]
    by_cases hq : q r
    · rw [if_pos hq, List.filter_cons_of_pos hq, List.insertionSort_cons]
    · rw [if_neg hq, List.filter_cons_of_neg hq]

end Order

end Table
