import Runyard.Requests.Sweeps
import Runyard.Tuples
import Mathlib.Algebra.Order.BigOperators.GroupWithZero.List

/-!
# The runs of a sweep

An accepted sweep has one run for each combination of the values of its grid, in the order in
which the last dimension varies fastest. Nothing is rejected but by the checks on the base, the
grid and the runs themselves.
-/

namespace Runyard

/-- Set one parameter. -/
def RunSpec.assign (spec : RunSpec) (e : String × Scalar) : RunSpec :=
  { spec with parameters := spec.parameters.insert e.1 e.2 }

/-- Set one parameter after another. -/
def RunSpec.choose (spec : RunSpec) (choice : List (String × Scalar)) : RunSpec :=
  choice.foldl RunSpec.assign spec

/-- The entries that each dimension may choose. -/
def candidates (dimensions : List (String × List Scalar)) : List (List (String × Scalar)) :=
  dimensions.map fun e => e.2.map fun v => (e.1, v)

def gridSizes (grid : StringMap (List Scalar)) : List Nat := grid.entries.map (·.2.length)

/-- A run for every combination. -/
def gridRuns (base : RunSpec) (grid : StringMap (List Scalar)) : List RunSpec :=
  (tuples (candidates grid.entries)).map base.choose

/-- The run has the values that the digits of `i` select. -/
structure RunSpec.Selects (item base : RunSpec) (grid : StringMap (List Scalar)) (i : Nat) :
    Prop where
  selected : ∀ j key values, grid.entries[j]? = some (key, values) →
    ∃ v, values[digit (gridSizes grid) j i]? = some v ∧
      Entries.lookup key item.parameters.entries = some v
  others : ∀ key, ¬ grid.contains key →
    Entries.lookup key item.parameters.entries = Entries.lookup key base.parameters.entries
  rest : { item with parameters := base.parameters } = base

section Choices

variable {spec item : RunSpec} {e : String × Scalar} {choice : List (String × Scalar)}

@[simp] theorem choose_cons : spec.choose (e :: choice) = (spec.assign e).choose choice := rfl

theorem lookup_choose_other {key : String} (h : ∀ e ∈ choice, e.1 ≠ key) :
    Entries.lookup key (spec.choose choice).parameters.entries =
      Entries.lookup key spec.parameters.entries := by
  induction choice generalizing spec with
  | nil => rfl
  | cons e rest ih =>
    rw [choose_cons, ih fun d hd => h d (List.mem_cons_of_mem e hd)]
    exact (Entries.lookup_assign key).trans (if_neg (h e List.mem_cons_self))

theorem lookup_choose (distinct : (choice.map (·.1)).Nodup) (he : e ∈ choice) :
    Entries.lookup e.1 (spec.choose choice).parameters.entries = some e.2 := by
  induction choice generalizing spec with
  | nil => cases he
  | cons d rest ih =>
    obtain ⟨fresh, distinct⟩ := List.nodup_cons.mp distinct
    rw [choose_cons]
    rcases List.mem_cons.mp he with rfl | he
    · rw [lookup_choose_other fun d hd hkey => fresh (List.mem_map.mpr ⟨d, hd, hkey⟩)]
      exact (Entries.lookup_assign e.1).trans (if_pos rfl)
    · exact ih distinct he

theorem choose_rest : { spec.choose choice with parameters := spec.parameters } = spec := by
  have kept : ∀ q, { spec.choose choice with parameters := q } = { spec with parameters := q } := by
    intro q
    induction choice generalizing spec with
    | nil => rfl
    | cons e rest ih => exact ih
  exact kept spec.parameters

theorem size_assign : spec.parameters.size ≤ (spec.assign e).parameters.size :=
  Entries.length_le_assign

theorem size_choose : spec.parameters.size ≤ (spec.choose choice).parameters.size := by
  induction choice generalizing spec with
  | nil => exact le_refl _
  | cons e rest ih => exact size_assign.trans ih

/-- A run stays valid if the new parameter is and there is room for it. -/
theorem validate_assign (valid : validate spec = .ok ())
    (fits : (spec.assign e).parameters.size ≤ 100) (allowed : validParameter e = .ok ()) :
    validate (spec.assign e) = .ok () := by
  obtain ⟨rest, _, parameters⟩ := validate_parameters.mp valid
  refine validate_parameters.mpr ⟨rest, fits, fun d hd => ?_⟩
  rcases Entries.mem_assign hd with rfl | hd
  · exact allowed
  · exact parameters d hd

/-- What is valid with all its parameters is valid while they are set. -/
theorem validate_prefix (valid : validate spec = .ok ()) (fresh : ∀ d ∈ choice, d.1 ≠ e.1)
    (whole : validate (spec.choose (e :: choice)) = .ok ()) :
    validate (spec.assign e) = .ok () := by
  obtain ⟨_, size, parameters⟩ := validate_parameters.mp whole
  rw [choose_cons] at size parameters
  refine validate_assign valid (size_choose.trans size) (parameters e (Entries.mem_of_lookup ?_))
  rw [lookup_choose_other fresh]
  exact (Entries.lookup_assign e.1).trans (if_pos rfl)

end Choices

section Dimensions

variable {dimensions : List (String × List Scalar)}

theorem candidates_length : (candidates dimensions).map List.length =
    dimensions.map (·.2.length) := by
  simp [candidates]

/-- A choice has the keys of its dimensions. -/
theorem keys_of_choice {choice : List (String × Scalar)}
    (h : choice ∈ tuples (candidates dimensions)) :
    choice.map (·.1) = dimensions.map (·.1) := by
  induction dimensions generalizing choice with
  | nil =>
    rw [List.mem_singleton.mp h]
    rfl
  | cons e rest ih =>
    obtain ⟨_, hfirst, h⟩ := List.mem_flatMap.mp h
    obtain ⟨v, _, rfl⟩ := List.mem_map.mp hfirst
    obtain ⟨others, hothers, rfl⟩ := List.mem_map.mp h
    rw [List.map_cons, List.map_cons, ih hothers]

theorem some_choice (nonempty : ∀ e ∈ dimensions, e.2 ≠ []) :
    ∃ choice, choice ∈ tuples (candidates dimensions) := by
  induction dimensions with
  | nil => exact ⟨[], List.mem_singleton_self _⟩
  | cons e rest ih =>
    obtain ⟨choice, hchoice⟩ := ih fun d hd => nonempty d (List.mem_cons_of_mem e hd)
    obtain ⟨v, hv⟩ := List.exists_mem_of_ne_nil _ (nonempty e List.mem_cons_self)
    exact ⟨_, List.mem_flatMap.mpr ⟨_, List.mem_map_of_mem hv, List.mem_map_of_mem hchoice⟩⟩

theorem expandItem_iff {key : String} {spec item : RunSpec} {value : Scalar} :
    expandItem key spec value = .ok item ↔
      validate (spec.assign (key, value)) = .ok () ∧ item = spec.assign (key, value) := by
  simp only [expandItem, Result.bind_ok, Result.pure_ok]
  constructor
  · rintro ⟨_, valid, rfl⟩
    exact ⟨valid, rfl⟩
  · rintro ⟨valid, rfl⟩
    exact ⟨(), valid, rfl⟩

/-- One round of the outer loop. -/
theorem expandRound_iff {key : String} {values : List Scalar} {result : List RunSpec}
    {expanded : List (List RunSpec)} :
    (result.mapM fun spec => values.mapM fun value => expandItem key spec value) = .ok expanded ↔
      (∀ spec ∈ result, ∀ value ∈ values, validate (spec.assign (key, value)) = .ok ()) ∧
        expanded = result.map fun spec => values.map fun value => spec.assign (key, value) :=
  Except.mapM_checked fun _ _ => Except.mapM_checked fun _ _ => expandItem_iff

/-- The loops build exactly the combinations, and check nothing that the finished runs would
not fail. -/
theorem expandDimensions_iff {result runs : List RunSpec}
    (nonempty : ∀ e ∈ dimensions, e.2 ≠ []) (distinct : (dimensions.map (·.1)).Nodup)
    (valid : ∀ spec ∈ result, validate spec = .ok ()) :
    expandDimensions dimensions result = .ok runs ↔
      runs = (result.flatMap fun spec => (tuples (candidates dimensions)).map spec.choose) ∧
        ∀ item ∈ runs, validate item = .ok () := by
  induction dimensions generalizing result with
  | nil =>
    have same : (result.flatMap fun spec => (tuples (candidates [])).map spec.choose) = result := by
      simp [tuples, candidates, RunSpec.choose]
    rw [same, expandDimensions, Except.ok.injEq]
    constructor
    · rintro rfl
      exact ⟨rfl, valid⟩
    · exact fun h => h.1.symm
  | cons e rest ih =>
    obtain ⟨key, values⟩ := e
    obtain ⟨fresh, distinct⟩ := List.nodup_cons.mp distinct
    have nonempty' : ∀ e ∈ rest, e.2 ≠ [] := fun d hd => nonempty d (List.mem_cons_of_mem _ hd)
    have same : (result.flatMap fun spec =>
        (tuples (candidates ((key, values) :: rest))).map spec.choose) =
        (result.map fun spec => values.map fun value => spec.assign (key, value)).flatten.flatMap
          fun spec => (tuples (candidates rest)).map spec.choose := by
      simp [candidates, tuples, List.flatMap_assoc, List.map_flatMap, List.flatMap_map,
        ← List.flatMap_def, Function.comp_def]
    have kept : (∀ spec ∈ result, ∀ value ∈ values, validate (spec.assign (key, value)) = .ok ()) →
        ∀ item ∈ (result.map fun spec => values.map fun value =>
          spec.assign (key, value)).flatten, validate item = .ok () := by
      intro checked item hitem
      obtain ⟨_, hitems, hitem⟩ := List.mem_flatten.mp hitem
      obtain ⟨spec, hspec, rfl⟩ := List.mem_map.mp hitems
      obtain ⟨value, hvalue, rfl⟩ := List.mem_map.mp hitem
      exact checked spec hspec value hvalue
    rw [expandDimensions, Result.bind_ok, same]
    constructor
    · rintro ⟨expanded, hround, hrest⟩
      obtain ⟨checked, rfl⟩ := expandRound_iff.mp hround
      exact (ih nonempty' distinct (kept checked)).mp hrest
    · rintro ⟨hruns, hvalid⟩
      -- Every partial run is completed by some choice in the remaining dimensions.
      obtain ⟨choice, hchoice⟩ := some_choice nonempty'
      have apart : ∀ d ∈ choice, d.1 ≠ key := fun d hd hkey =>
        fresh (keys_of_choice hchoice ▸ List.mem_map.mpr ⟨d, hd, hkey⟩)
      have checked : ∀ spec ∈ result, ∀ value ∈ values,
          validate (spec.assign (key, value)) = .ok () := by
        intro spec hspec value hvalue
        have whole : validate (spec.choose ((key, value) :: choice)) = .ok () := by
          refine hvalid _ (hruns ▸ List.mem_flatMap.mpr ⟨spec.assign (key, value), ?_, ?_⟩)
          · exact List.mem_flatten.mpr ⟨_, List.mem_map_of_mem hspec, List.mem_map_of_mem hvalue⟩
          · exact List.mem_map_of_mem hchoice
        exact validate_prefix (valid spec hspec) apart whole
      exact ⟨_, expandRound_iff.mpr ⟨checked, rfl⟩,
        (ih nonempty' distinct (kept checked)).mpr ⟨hruns, hvalid⟩⟩

theorem countRuns_append {count total : Nat} {more : List (String × List Scalar)}
    (h : countRuns count dimensions = .ok total) :
    countRuns count (dimensions ++ more) = countRuns total more := by
  induction dimensions generalizing count with
  | nil =>
    cases h
    rfl
  | cons e rest ih =>
    obtain ⟨_, hfirst, h⟩ := Result.bind_ok.mp h
    obtain ⟨_, hsecond, h⟩ := Result.bind_ok.mp h
    rw [List.cons_append, countRuns, hfirst, Except.ok_bind, hsecond, Except.ok_bind]
    exact ih h

theorem sizes_pos (nonempty : ∀ e ∈ dimensions, e.2 ≠ []) :
    0 < (dimensions.map (·.2.length)).prod := by
  refine List.prod_pos fun n hn => ?_
  obtain ⟨e, he, rfl⟩ := List.mem_map.mp hn
  exact List.length_pos_of_ne_nil (nonempty e he)

/-- The guard with the integer division bounds the product and never divides by zero. -/
theorem countRuns_iff {count total : Nat} (positive : 0 < count) (small : count ≤ 1000) :
    countRuns count dimensions = .ok total ↔ (∀ e ∈ dimensions, e.1 ≠ "" ∧ e.2 ≠ []) ∧
      count * (dimensions.map (·.2.length)).prod ≤ 1000 ∧
      total = count * (dimensions.map (·.2.length)).prod := by
  induction dimensions generalizing count with
  | nil =>
    simp only [countRuns, Except.ok.injEq, List.map_nil, List.prod_nil, Nat.mul_one]
    exact ⟨fun h => ⟨by simp, small, h.symm⟩, fun h => h.2.2.symm⟩
  | cons e rest ih =>
    obtain ⟨key, values⟩ := e
    simp only [countRuns, Result.bind_ok, Result.require_ok, Bool.and_eq_true, decide_eq_true_eq,
      exists_const, List.map_cons, List.prod_cons, List.forall_mem_cons, ← Nat.mul_assoc]
    rw [Nat.le_div_iff_mul_le positive, Nat.mul_comm values.length]
    constructor
    · rintro ⟨⟨named, some⟩, hsize, hrest⟩
      have more : 0 < count * values.length := Nat.mul_pos positive (List.length_pos_of_ne_nil some)
      obtain ⟨others, hbound, htotal⟩ := (ih more hsize).mp hrest
      exact ⟨⟨⟨named, some⟩, others⟩, hbound, htotal⟩
    · rintro ⟨⟨⟨named, some⟩, others⟩, hbound, htotal⟩
      have more : 0 < count * values.length := Nat.mul_pos positive (List.length_pos_of_ne_nil some)
      have later := sizes_pos fun d hd => (others d hd).2
      have hsize : count * values.length ≤ 1000 := le_trans (Nat.le_mul_of_pos_right _ later) hbound
      exact ⟨⟨named, some⟩, hsize, (ih more hsize).mpr ⟨others, hbound, htotal⟩⟩

/-- The loop begins with one run. -/
theorem countRuns_one_iff {total : Nat} : countRuns 1 dimensions = .ok total ↔
    (∀ e ∈ dimensions, e.1 ≠ "" ∧ e.2 ≠ []) ∧ (dimensions.map (·.2.length)).prod ≤ 1000 ∧
      total = (dimensions.map (·.2.length)).prod := by
  rw [countRuns_iff Nat.one_pos (by decide), Nat.one_mul]

end Dimensions

section Sweep

variable {base : RunSpec} {grid : StringMap (List Scalar)}

theorem gridRuns_selects {item : RunSpec} {i : Nat} (h : (gridRuns base grid)[i]? = some item) :
    item.Selects base grid i := by
  rw [gridRuns, List.getElem?_map] at h
  obtain ⟨choice, hchoice, rfl⟩ := Option.map_eq_some_iff.mp h
  have keys := keys_of_choice (List.mem_of_getElem? hchoice)
  obtain ⟨-, hdigits⟩ := tuples_digit hchoice
  constructor
  · intro j key values hdimension
    have hrow : (candidates grid.entries)[j]? = some (values.map fun v => (key, v)) := by
      rw [candidates, List.getElem?_map, hdimension]
      rfl
    have hcomponent := hdigits j _ hrow
    rw [candidates_length, List.getElem?_map] at hcomponent
    have hj : j < choice.length := by
      have size := congrArg List.length keys
      rw [List.length_map, List.length_map] at size
      rw [size]
      exact (List.getElem?_eq_some_iff.mp hdimension).1
    obtain ⟨v, hv, he⟩ := Option.map_eq_some_iff.mp
      (hcomponent.symm.trans (List.getElem?_eq_getElem hj))
    have hmem : (key, v) ∈ choice := he ▸ List.getElem_mem hj
    exact ⟨v, hv, lookup_choose (keys ▸ Entries.Ascending.nodup grid.ordered) hmem⟩
  · intro key unknown
    refine lookup_choose_other fun e he hkey => unknown ?_
    obtain ⟨d, hd, hsame⟩ := List.mem_map.mp (keys ▸ List.mem_map_of_mem he)
    exact List.any_eq_true.mpr ⟨d, hd, decide_eq_true (hsame.trans hkey)⟩
  · exact choose_rest

/-- A sweep that is accepted is the whole product, and only the checks reject one. -/
theorem expandSweep_iff {runs : List RunSpec} : expandSweep base grid = .ok runs ↔
    validate base = .ok () ∧ (∀ e ∈ grid.entries, e.1 ≠ "" ∧ e.2 ≠ []) ∧
      (gridSizes grid).prod ≤ 1000 ∧
      runBytes base grid ≤ 16 * 1024 * 1024 / (gridSizes grid).prod ∧
      runs = gridRuns base grid ∧ ∀ item ∈ runs, validate item = .ok () := by
  have single : ([base].flatMap fun spec => (tuples (candidates grid.entries)).map spec.choose) =
      gridRuns base grid := List.flatMap_singleton _ _
  simp only [expandSweep, Result.bind_ok, Result.require_ok, countRuns_one_iff, decide_eq_true_eq]
  constructor
  · rintro ⟨_, valid, _, ⟨named, hcount, rfl⟩, _, hbytes, hruns⟩
    have expanded := (expandDimensions_iff (fun e he => (named e he).2)
      (Entries.Ascending.nodup grid.ordered) (by simpa using valid)).mp hruns
    rw [single] at expanded
    exact ⟨valid, named, hcount, hbytes, expanded⟩
  · rintro ⟨valid, named, hcount, hbytes, expanded⟩
    rw [← single] at expanded
    exact ⟨(), valid, _, ⟨named, hcount, rfl⟩, (), hbytes,
      (expandDimensions_iff (fun e he => (named e he).2) (Entries.Ascending.nodup grid.ordered)
        (by simpa using valid)).mpr expanded⟩

theorem gridRuns_length : (gridRuns base grid).length = (gridSizes grid).prod := by
  rw [gridRuns, List.length_map, length_tuples, candidates_length]
  rfl

/-- The count that the loop has reached before any dimension stays in range. -/
theorem countRuns_range {before after : List (String × List Scalar)} {e : String × List Scalar}
    {count : Nat} (h : countRuns 1 before = .ok count)
    (dimensions : grid.entries = before ++ e :: after) :
    countRuns 1 grid.entries = countRuns count (e :: after) ∧ 0 < count ∧ count ≤ 1000 ∧
      (e.2.length ≤ 1000 / count → count * e.2.length ≤ 1000) := by
  obtain ⟨named, hbound, htotal⟩ := countRuns_one_iff.mp h
  have positive : 0 < count := by
    rw [htotal]
    exact sizes_pos fun e he => (named e he).2
  refine ⟨?_, positive, htotal ▸ hbound, fun hle => ?_⟩
  · rw [dimensions]
    exact countRuns_append h
  · rw [Nat.mul_comm]
    exact (Nat.le_div_iff_mul_le positive).mp hle

theorem expandSweep_error : (∃ fault, expandSweep base grid = .error fault) ↔
    validate base ≠ .ok () ∨ (∃ e ∈ grid.entries, e.1 = "" ∨ e.2 = []) ∨
    1000 < (gridSizes grid).prod ∨
    16 * 1024 * 1024 / (gridSizes grid).prod < runBytes base grid ∨
    ∃ item ∈ gridRuns base grid, validate item ≠ .ok () := by
  have accepted : (∃ runs, expandSweep base grid = .ok runs) ↔
      validate base = .ok () ∧ (∀ e ∈ grid.entries, e.1 ≠ "" ∧ e.2 ≠ []) ∧
      (gridSizes grid).prod ≤ 1000 ∧
      runBytes base grid ≤ 16 * 1024 * 1024 / (gridSizes grid).prod ∧
      ∀ item ∈ gridRuns base grid, validate item = .ok () := by
    constructor
    · rintro ⟨runs, h⟩
      obtain ⟨valid, named, count, bytes, rfl, each⟩ := expandSweep_iff.mp h
      exact ⟨valid, named, count, bytes, each⟩
    · rintro ⟨valid, named, count, bytes, each⟩
      exact ⟨_, expandSweep_iff.mpr ⟨valid, named, count, bytes, rfl, each⟩⟩
  have rejected : (∃ fault, expandSweep base grid = .error fault) ↔
      ¬ ∃ runs, expandSweep base grid = .ok runs := by
    cases expandSweep base grid <;> simp
  rw [rejected, accepted]
  simp only [not_and_or, not_forall, not_le, ← ne_eq, exists_prop, not_not]

/-- The expansion of a sweep is the Cartesian product of its grid. -/
theorem sweep_expansion (base : RunSpec) (grid : StringMap (List Scalar)) :
    (∀ runs, expandSweep base grid = .ok runs → runs.length = (gridSizes grid).prod ∧
      (gridSizes grid).prod ≤ 1000 ∧ (∀ item ∈ runs, validate item = .ok ()) ∧
      (∀ (i : Nat) (item : RunSpec), runs[i]? = some item → item.Selects base grid i) ∧
      ∀ choice : Nat → Nat, (∀ j e, grid.entries[j]? = some e → choice j < e.2.length) →
        ∃! i, i < runs.length ∧ ∀ j < grid.size, digit (gridSizes grid) j i = choice j) ∧
    (∀ before e after count, grid.entries = before ++ e :: after →
      countRuns 1 before = .ok count →
      countRuns 1 grid.entries = countRuns count (e :: after) ∧ 0 < count ∧ count ≤ 1000 ∧
        (e.2.length ≤ 1000 / count → count * e.2.length ≤ 1000)) ∧
    ((∃ fault, expandSweep base grid = .error fault) ↔
      validate base ≠ .ok () ∨ (∃ e ∈ grid.entries, e.1 = "" ∨ e.2 = []) ∨
      1000 < (gridSizes grid).prod ∨
      16 * 1024 * 1024 / (gridSizes grid).prod < runBytes base grid ∨
      ∃ item ∈ gridRuns base grid, validate item ≠ .ok ()) := by
  refine ⟨fun runs h => ?_, fun _ _ _ _ split h => countRuns_range h split, ?_⟩
  · obtain ⟨-, named, hcount, -, rfl, valid⟩ := expandSweep_iff.mp h
    refine ⟨gridRuns_length, hcount, valid, fun _ _ => gridRuns_selects, fun choice hchoice => ?_⟩
    have bounded : ∀ (j size : Nat), (gridSizes grid)[j]? = some size → choice j < size := by
      intro j size hsize
      rw [gridSizes, List.getElem?_map] at hsize
      obtain ⟨e, he, rfl⟩ := Option.map_eq_some_iff.mp hsize
      exact hchoice j e he
    have unique := digits_unique choice bounded
    rw [gridRuns_length]
    simpa [gridSizes, StringMap.size] using unique
  · exact expandSweep_error

end Sweep

end Runyard
