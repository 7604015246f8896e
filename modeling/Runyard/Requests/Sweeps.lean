import Runyard.Domain
import Runyard.Json

/-!
# Expanding a sweep

`expand_sweep` of `model.cpp`: the runs of a sweep are the base with every combination of the
values of the grid. The number of runs and their size are bounded before the first one is built.
-/

namespace Runyard

def Scalar.textSize : Scalar → Nat
  | .string text => text.utf8ByteSize
  | _ => 0

/-- The product of the dimensions, at most a thousand. -/
def countRuns : Nat → List (String × List Scalar) → Result Nat
  | count, [] => .ok count
  | count, (key, values) :: rest => do
    require (key ≠ "" && values ≠ []) "sweep dimensions cannot be empty"
    require (values.length ≤ 1000 / count) "sweep exceeds 1000 runs"
    countRuns (count * values.length) rest

/-- An upper bound for the size of one run. -/
def runBytes (base : RunSpec) (grid : StringMap (List Scalar)) : Nat :=
  4096 + base.name.utf8ByteSize + base.image.utf8ByteSize +
    (base.command.map fun arg => arg.utf8ByteSize).sum +
    (base.environment.entries.map fun e => e.1.utf8ByteSize + e.2.utf8ByteSize).sum +
    (base.parameters.entries.map fun e => e.1.utf8ByteSize + 32 + e.2.textSize).sum +
    (grid.entries.map fun e =>
      e.1.utf8ByteSize + e.2.foldl (fun largest v => max largest v.textSize) 0 + 32).sum

/-- The body of the innermost loop. -/
def expandItem (key : String) (spec : RunSpec) (value : Scalar) : Result RunSpec := do
  let item := { spec with parameters := spec.parameters.insert key value }
  validate item
  return item

def expandDimensions : List (String × List Scalar) → List RunSpec → Result (List RunSpec)
  | [], result => .ok result
  | (key, values) :: rest, result => do
    let expanded ← result.mapM fun spec => values.mapM fun value => expandItem key spec value
    expandDimensions rest expanded.flatten

def expandSweep (base : RunSpec) (grid : StringMap (List Scalar)) : Result (List RunSpec) := do
  validate base
  let count ← countRuns 1 grid.entries
  require (runBytes base grid ≤ 16 * 1024 * 1024 / count) "expanded sweep exceeds 16 MiB"
  expandDimensions grid.entries [base]

/-! ## What is accepted -/

theorem countRuns_nonempty {dimensions : List (String × List Scalar)} {count total : Nat}
    (h : countRuns count dimensions = .ok total) : ∀ e ∈ dimensions, e.2 ≠ [] := by
  induction dimensions generalizing count with
  | nil => exact fun e he => nomatch he
  | cons e rest ih =>
    simp only [countRuns, Result.bind_ok, Result.require_ok, Bool.and_eq_true, decide_eq_true_eq,
      exists_const] at h
    obtain ⟨⟨_, hvalues⟩, _, hrest⟩ := h
    intro d hd
    rcases List.mem_cons.mp hd with rfl | hd
    · exact hvalues
    · exact ih hrest d hd

theorem expandItem_ok {key : String} {spec item : RunSpec} {value : Scalar}
    (h : expandItem key spec value = .ok item) :
    validate item = .ok () ∧ (key, value) ∈ item.parameters.entries := by
  simp only [expandItem, Result.bind_ok, Result.pure_ok] at h
  obtain ⟨_, hvalidate, rfl⟩ := h
  refine ⟨hvalidate, Entries.mem_of_lookup ?_⟩
  exact (Entries.lookup_assign key).trans (if_pos rfl)

/-- Every value of the grid was part of a run that was validated. -/
theorem expandDimensions_values {dimensions : List (String × List Scalar)}
    {result runs : List RunSpec} (some_run : result ≠ []) (nonempty : ∀ e ∈ dimensions, e.2 ≠ [])
    (h : expandDimensions dimensions result = .ok runs) :
    ∀ e ∈ dimensions, ∀ v ∈ e.2,
      ∃ item, validate item = .ok () ∧ (e.1, v) ∈ item.parameters.entries := by
  induction dimensions generalizing result with
  | nil => exact fun e he => nomatch he
  | cons e rest ih =>
    obtain ⟨expanded, hexpanded, hrest⟩ := Result.bind_ok.mp h
    obtain ⟨spec, hspec⟩ := List.exists_mem_of_ne_nil _ some_run
    obtain ⟨items, hitems, hvalues⟩ := Except.mapM_mem hexpanded hspec
    intro d hd v hv
    rcases List.mem_cons.mp hd with rfl | hd
    · obtain ⟨item, _, hitem⟩ := Except.mapM_mem hvalues hv
      exact ⟨item, expandItem_ok hitem⟩
    · obtain ⟨w, hw⟩ := List.exists_mem_of_ne_nil _ (nonempty e List.mem_cons_self)
      obtain ⟨item, hitem, _⟩ := Except.mapM_mem hvalues hw
      have some_item : expanded.flatten ≠ [] :=
        List.ne_nil_of_mem (List.mem_flatten.mpr ⟨items, hitems, hitem⟩)
      exact ih some_item (fun d hd => nonempty d (List.mem_cons_of_mem e hd)) hrest d hd v hv

theorem expandSweep_values {base : RunSpec} {grid : StringMap (List Scalar)} {runs : List RunSpec}
    (h : expandSweep base grid = .ok runs) :
    validate base = .ok () ∧ ∀ e ∈ grid.entries, e.2 ≠ [] ∧ ∀ v ∈ e.2,
      ∃ item, validate item = .ok () ∧ (e.1, v) ∈ item.parameters.entries := by
  simp only [expandSweep, Result.bind_ok] at h
  obtain ⟨_, hbase, count, hcount, _, _, hrest⟩ := h
  have nonempty := countRuns_nonempty hcount
  exact ⟨hbase, fun e he => ⟨nonempty e he,
    expandDimensions_values (List.cons_ne_nil base []) nonempty hrest e he⟩⟩

end Runyard
