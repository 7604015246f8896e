import Runyard.Requests.Expansion
import Mathlib.Algebra.Group.Action.Defs
import Mathlib.Algebra.Order.BigOperators.Group.List
import Mathlib.Tactic.Ring

/-!
# The size of an expanded sweep

`expand_sweep` estimates one run and multiplies. The estimate has no term for the labels and the
source metadata of the base, which every run carries. They can fill more than what the rest of
the sixteen mebibytes and the constants of the estimate leave, and the size of the whole sweep
says exactly when.
-/

namespace Runyard

def parameterSize (e : String × Scalar) : Nat := e.1.utf8ByteSize + e.2.textSize

namespace RunSpec

def labelSize (spec : RunSpec) : Nat :=
  (spec.labels.entries.map fun e => e.1.utf8ByteSize + e.2.utf8ByteSize).sum

/-- The strings of a specification that the estimate has a term for, without the parameters. -/
def fixedSize (spec : RunSpec) : Nat :=
  spec.name.utf8ByteSize + spec.image.utf8ByteSize +
    (spec.command.map fun arg => arg.utf8ByteSize).sum +
    (spec.environment.entries.map fun e => e.1.utf8ByteSize + e.2.utf8ByteSize).sum

/-- The strings that the estimate has no term for. -/
def omittedSize (spec : RunSpec) : Nat :=
  spec.labelSize + spec.sourceRepository.utf8ByteSize + spec.sourceRevision.utf8ByteSize

/-- All strings of a specification, in bytes. -/
def payload (spec : RunSpec) : Nat :=
  spec.fixedSize + (spec.parameters.entries.map parameterSize).sum + spec.omittedSize

end RunSpec

section Choices

variable {base : RunSpec} {choice : List (String × Scalar)}

/-- The parameters that no key of `keys` sets. -/
def RunSpec.unset (spec : RunSpec) (keys : List String) : List (String × Scalar) :=
  spec.parameters.entries.filter fun e => !keys.any (· = e.1)

/-- A choice replaces the parameters of its keys. -/
theorem choose_perm (distinct : (choice.map (·.1)).Nodup) :
    (base.choose choice).parameters.entries.Perm (choice ++ base.unset (choice.map (·.1))) := by
  induction choice generalizing base with
  | nil => simp [RunSpec.choose, RunSpec.unset]
  | cons e rest ih =>
    obtain ⟨fresh, distinct⟩ := List.nodup_cons.mp distinct
    have written : (base.assign e).parameters.entries.Perm
        (e :: base.parameters.entries.filter fun d => d.1 ≠ e.1) :=
      Entries.assign_perm_filter base.parameters.ordered
    have unset : ((base.parameters.entries.filter fun d => d.1 ≠ e.1).filter
        fun d => !(rest.map (·.1)).any (· = d.1)) = base.unset ((e :: rest).map (·.1)) := by
      rw [List.filter_filter, RunSpec.unset]
      refine List.filter_congr fun d _ => ?_
      rw [List.map_cons, List.any_cons, Bool.not_or, Bool.and_comm]
      simp [eq_comm]
    have kept : (!(rest.map (·.1)).any (· = e.1)) = true := by
      rw [Bool.not_eq_true', List.any_eq_false]
      exact fun key hkey hsame => fresh (by rwa [of_decide_eq_true hsame] at hkey)
    have left := (written.filter fun d => !(rest.map (·.1)).any (· = d.1)).append_left rest
    rw [List.filter_cons, if_pos kept, unset] at left
    exact (ih distinct).trans (left.trans List.perm_middle)

/-- What does not read the parameters is the same in the base and in its runs. -/
theorem choose_blind {f : RunSpec → Nat}
    (blind : ∀ spec parameters, f { spec with parameters } = f spec) :
    f (base.choose choice) = f base :=
  calc f (base.choose choice)
      = f { base.choose choice with parameters := base.parameters } := (blind _ _).symm
    _ = f base := congrArg f choose_rest

theorem payload_choose (distinct : (choice.map (·.1)).Nodup) :
    (base.choose choice).payload = base.fixedSize + base.omittedSize +
      ((base.unset (choice.map (·.1))).map parameterSize).sum + (choice.map parameterSize).sum := by
  have fixed : (base.choose choice).fixedSize = base.fixedSize :=
    choose_blind fun _ _ => rfl
  have omitted : (base.choose choice).omittedSize = base.omittedSize :=
    choose_blind fun _ _ => rfl
  have written : (base.choose choice).parameters.entries.Perm _ := choose_perm distinct
  have parameters := (written.map parameterSize).sum_eq
  rw [List.map_append, List.sum_append] at parameters
  rw [RunSpec.payload, fixed, omitted, parameters]
  omega

end Choices

/-- What the runs of a sweep carry of the strings that the estimate has a term for. A value of
one dimension is in as many runs as the other dimensions have combinations. -/
def measuredSize (base : RunSpec) (grid : StringMap (List Scalar)) : Nat :=
  let count := (gridSizes grid).prod
  count * (base.fixedSize + ((base.unset (grid.entries.map (·.1))).map parameterSize).sum) +
    (grid.entries.map fun e =>
      count * e.1.utf8ByteSize + count / e.2.length * (e.2.map Scalar.textSize).sum).sum

section Sweep

variable {base : RunSpec} {grid : StringMap (List Scalar)}

/-- The size of all runs together. -/
theorem payload_gridRuns (nonempty : ∀ e ∈ grid.entries, e.2 ≠ []) :
    ((gridRuns base grid).map RunSpec.payload).sum =
      measuredSize base grid + (gridSizes grid).prod * base.omittedSize := by
  have each : ∀ choice ∈ tuples (candidates grid.entries), (base.choose choice).payload =
      base.fixedSize + base.omittedSize +
        ((base.unset (grid.entries.map (·.1))).map parameterSize).sum +
        (choice.map parameterSize).sum := by
    intro choice hchoice
    have keys := keys_of_choice hchoice
    rw [payload_choose (keys ▸ Entries.Ascending.nodup grid.ordered), keys]
  have rows : ∀ row ∈ candidates grid.entries, row ≠ [] := by
    intro row hrow
    obtain ⟨e, he, rfl⟩ := List.mem_map.mp hrow
    simpa using nonempty e he
  have chosen : ∀ e ∈ grid.entries, (gridSizes grid).prod / e.2.length *
      ((e.2.map fun v => (e.1, v)).map parameterSize).sum =
      (gridSizes grid).prod * e.1.utf8ByteSize +
        (gridSizes grid).prod / e.2.length * (e.2.map Scalar.textSize).sum := by
    intro e he
    have divides : e.2.length ∣ (gridSizes grid).prod :=
      List.dvd_prod (List.mem_map_of_mem he)
    have size : ((e.2.map fun v => (e.1, v)).map parameterSize).sum =
        e.2.length * e.1.utf8ByteSize + (e.2.map Scalar.textSize).sum := by
      simp [parameterSize, Function.comp_def, List.sum_map_add]
    rw [size, Nat.mul_add, ← Nat.mul_assoc, Nat.div_mul_cancel divides]
  have product : ((candidates grid.entries).map List.length).prod = (gridSizes grid).prod :=
    congrArg List.prod candidates_length
  have sizes : ((gridRuns base grid).map RunSpec.payload) =
      (tuples (candidates grid.entries)).map fun choice => base.fixedSize + base.omittedSize +
        ((base.unset (grid.entries.map (·.1))).map parameterSize).sum +
        (choice.map parameterSize).sum := by
    rw [gridRuns, List.map_map]
    exact List.map_congr_left each
  have values : ((candidates grid.entries).map fun row =>
      (gridSizes grid).prod / row.length * (row.map parameterSize).sum) =
      grid.entries.map fun e => (gridSizes grid).prod * e.1.utf8ByteSize +
        (gridSizes grid).prod / e.2.length * (e.2.map Scalar.textSize).sum := by
    rw [candidates, List.map_map]
    refine List.map_congr_left fun e he => ?_
    rw [← chosen e he, Function.comp_apply, List.length_map]
  rw [sizes, List.sum_map_add, sum_tuples rows, product, values, List.map_const',
    List.sum_replicate, length_tuples, product, smul_eq_mul, measuredSize]
  ring

theorem textSize_le_foldl {values : List Scalar} {v : Scalar} (h : v ∈ values) :
    v.textSize ≤ values.foldl (fun largest v => max largest v.textSize) 0 := by
  have bound : ∀ start, start ≤ values.foldl (fun largest v => max largest v.textSize) start ∧
      ∀ v ∈ values, v.textSize ≤ values.foldl (fun largest v => max largest v.textSize) start := by
    clear h
    induction values with
    | nil => exact fun start => ⟨le_refl start, by simp⟩
    | cons w rest ih =>
      intro start
      obtain ⟨hstart, hrest⟩ := ih (max start w.textSize)
      rw [List.foldl_cons, List.forall_mem_cons]
      exact ⟨(le_max_left _ _).trans hstart, (le_max_right _ _).trans hstart, hrest⟩
  exact (bound 0).2 v h

/-- No dimension has more text than its largest value in every run. -/
theorem chosen_le {e : String × List Scalar} (he : e ∈ grid.entries) :
    (gridSizes grid).prod * e.1.utf8ByteSize +
        (gridSizes grid).prod / e.2.length * (e.2.map Scalar.textSize).sum ≤
      (gridSizes grid).prod * (e.1.utf8ByteSize +
        e.2.foldl (fun largest v => max largest v.textSize) 0) := by
  have divides : e.2.length ∣ (gridSizes grid).prod := List.dvd_prod (List.mem_map_of_mem he)
  have each : ∀ n ∈ e.2.map Scalar.textSize,
      n ≤ e.2.foldl (fun largest v => max largest v.textSize) 0 := by
    intro n hn
    obtain ⟨v, hv, rfl⟩ := List.mem_map.mp hn
    exact textSize_le_foldl hv
  have texts := List.sum_le_card_nsmul _ _ each
  rw [List.length_map, smul_eq_mul] at texts
  have scaled := Nat.mul_le_mul_left ((gridSizes grid).prod / e.2.length) texts
  rw [← Nat.mul_assoc, Nat.div_mul_cancel divides] at scaled
  rw [Nat.mul_add]
  exact Nat.add_le_add_left scaled _

/-- The estimate covers what it has a term for, with the room of its constants to spare. -/
theorem measuredSize_le : measuredSize base grid +
      (gridSizes grid).prod * (4096 + 32 * (base.parameters.size + grid.size)) ≤
    (gridSizes grid).prod * runBytes base grid := by
  have unset : ((base.unset (grid.entries.map (·.1))).map parameterSize).sum ≤
      (base.parameters.entries.map parameterSize).sum :=
    (List.filter_sublist.map parameterSize).sum_le_sum fun _ _ => Nat.zero_le _
  have parameters : (base.parameters.entries.map fun e => e.1.utf8ByteSize + 32 +
      e.2.textSize).sum =
      (base.parameters.entries.map parameterSize).sum + 32 * base.parameters.size := by
    rw [List.map_congr_left fun e _ => Nat.add_right_comm e.1.utf8ByteSize 32 e.2.textSize,
      List.sum_map_add, List.map_const', List.sum_replicate, smul_eq_mul, Nat.mul_comm]
    rfl
  have dimensions : (grid.entries.map fun e => e.1.utf8ByteSize +
      e.2.foldl (fun largest v => max largest v.textSize) 0 + 32).sum =
      (grid.entries.map fun e => e.1.utf8ByteSize +
        e.2.foldl (fun largest v => max largest v.textSize) 0).sum + 32 * grid.size := by
    rw [List.sum_map_add, List.map_const', List.sum_replicate, smul_eq_mul, Nat.mul_comm 32]
    rfl
  have each : ∀ e ∈ grid.entries, _ := fun e he => chosen_le he
  have largest := List.sum_le_sum each
  rw [List.sum_map_mul_left] at largest
  have shared := Nat.mul_le_mul_left (gridSizes grid).prod unset
  rw [measuredSize, runBytes, parameters, dimensions]
  simp only [RunSpec.fixedSize, Nat.mul_add] at *
  omega

/-- What an accepted sweep carries fits exactly where the labels and the source metadata fit into
what the measured strings leave, as they do where they fit into the constants of the estimate. -/
theorem sweep_payload {runs : List RunSpec} (h : expandSweep base grid = .ok runs) :
    ((runs.map RunSpec.payload).sum ≤ 16 * 1024 * 1024 ↔
      (gridSizes grid).prod * base.omittedSize ≤ 16 * 1024 * 1024 - measuredSize base grid) ∧
    (base.omittedSize ≤ 4096 + 32 * (base.parameters.size + grid.size) →
      (runs.map RunSpec.payload).sum ≤ 16 * 1024 * 1024) := by
  obtain ⟨-, named, -, bytes, rfl, -⟩ := expandSweep_iff.mp h
  have nonempty : ∀ e ∈ grid.entries, e.2 ≠ [] := fun e he => (named e he).2
  have estimated : (gridSizes grid).prod * runBytes base grid ≤ 16 * 1024 * 1024 := by
    rw [Nat.mul_comm]
    exact (Nat.le_div_iff_mul_le (sizes_pos nonempty)).mp bytes
  have measured : measuredSize base grid + _ ≤ _ := measuredSize_le
  rw [payload_gridRuns nonempty]
  constructor
  · omega
  · intro room
    have spare := Nat.mul_le_mul_left (gridSizes grid).prod room
    omega

end Sweep

namespace Sample

def note (size : Nat) : String := String.ofList (List.replicate size 'x')

def labelKeys : List String :=
  ["a", "b", "c", "d", "e", "f", "g", "h", "i", "j", "k", "l", "m", "n", "o", "p", "q"]

/-- Seventeen labels with a kibibyte each. -/
def labelled : RunSpec where
  name := "train"
  image := "train@sha256:0000000000000000000000000000000000000000000000000000000000000000"
  command := ["train"]
  labels := ⟨labelKeys.map fun key => (key, note 1024), by
    rw [List.pairwise_map]
    decide +kernel⟩

def seeds (count : Nat) : StringMap (List Scalar) :=
  ⟨[("seed", (List.range count).map fun seed : Nat => .int seed)], List.pairwise_singleton _ _⟩

theorem note_size (size : Nat) : (note size).utf8ByteSize = size :=
  utf8ByteSize_replicate (by decide) size

theorem note_safe (size : Nat) : safeString (note size) := by
  simp [note, safeString]

theorem labelled_valid : validate labelled = .ok () := by
  refine validate_labels.mpr ⟨by decide +kernel, by decide, ?_⟩
  rw [StringMap.all, List.all_eq_true]
  intro e he
  obtain ⟨key, hkey, rfl⟩ := List.mem_map.mp he
  simp only [note_size, note_safe]
  revert key
  decide +kernel

theorem seeds_size (count : Nat) : (gridSizes (seeds count)).prod = count := by
  simp [gridSizes, seeds]

theorem seeds_bytes (count : Nat) : runBytes labelled (seeds count) ≤ 16 * 1024 * 1024 / 1000 := by
  have texts : ((List.range count).map fun seed : Nat => Scalar.int seed).foldl
      (fun largest v => max largest v.textSize) 0 = 0 := by
    rw [List.foldl_map]
    exact List.foldl_fixed' (fun _ => rfl) _
  have same : runBytes labelled (seeds count) = runBytes labelled (seeds 0) := by
    simp [runBytes, seeds, texts]
  rw [same]
  decide +kernel

theorem seeds_accepted {count : Nat} (some : 0 < count) (small : count ≤ 1000) :
    expandSweep labelled (seeds count) = .ok (gridRuns labelled (seeds count)) := by
  refine expandSweep_iff.mpr ⟨labelled_valid, ?_, ?_, ?_, rfl, ?_⟩
  · intro e he
    rw [List.mem_singleton.mp he]
    constructor
    · exact fun h => absurd h (by decide : "seed" ≠ "")
    · simpa using Nat.ne_of_gt some
  · rwa [seeds_size]
  · rw [seeds_size]
    exact (seeds_bytes count).trans (Nat.div_le_div_left small some)
  · intro item hitem
    obtain ⟨choice, hchoice, rfl⟩ := List.mem_map.mp hitem
    obtain ⟨_, hfirst, hrest⟩ := List.mem_flatMap.mp hchoice
    obtain ⟨_, hvalue, rfl⟩ := List.mem_map.mp hfirst
    obtain ⟨seed, -, rfl⟩ := List.mem_map.mp hvalue
    obtain rfl := List.mem_singleton.mp hrest
    have allowed : validParameter ("seed", .null) = .ok () := by decide +kernel
    exact validate_assign labelled_valid Nat.one_le_ofNat allowed

theorem labelled_omitted : labelled.omittedSize = 17 * 1025 := by
  have each : ∀ key ∈ labelKeys, key.utf8ByteSize + (note 1024).utf8ByteSize = 1025 := by
    rw [note_size]
    decide +kernel
  have labels : labelled.labelSize = 17 * 1025 :=
    calc labelled.labelSize
        = (labelKeys.map fun key => key.utf8ByteSize + (note 1024).utf8ByteSize).sum := by
          rw [RunSpec.labelSize, labelled, List.map_map]
          rfl
      _ = (labelKeys.map fun _ => 1025).sum := by rw [List.map_congr_left each]
      _ = 17 * 1025 := by decide
  rw [RunSpec.omittedSize, labels]
  decide +kernel

end Sample

/-- One run of the same base stays far below the limit. -/
theorem sweep_payload_single :
    ((gridRuns Sample.labelled (Sample.seeds 1)).map RunSpec.payload).sum ≤ 16 * 1024 * 1024 := by
  refine (sweep_payload (Sample.seeds_accepted (by decide) (by decide))).1.mpr ?_
  have measured : measuredSize Sample.labelled (Sample.seeds 1) ≤ 1024 := by decide +kernel
  rw [Sample.seeds_size, Sample.labelled_omitted]
  omega

/-- A thousand runs with seventeen kibibytes of labels pass the estimate. -/
theorem sweep_payload_labels :
    expandSweep Sample.labelled (Sample.seeds 1000) =
        .ok (gridRuns Sample.labelled (Sample.seeds 1000)) ∧
      ¬ ((gridRuns Sample.labelled (Sample.seeds 1000)).map RunSpec.payload).sum ≤
        16 * 1024 * 1024 := by
  have accepted : expandSweep Sample.labelled (Sample.seeds 1000) = _ :=
    Sample.seeds_accepted (by decide) (by decide)
  obtain ⟨-, named, -⟩ := expandSweep_iff.mp accepted
  refine ⟨accepted, ?_⟩
  rw [payload_gridRuns fun e he => (named e he).2, Sample.seeds_size, Sample.labelled_omitted]
  omega

end Runyard
