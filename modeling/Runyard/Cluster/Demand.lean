import Runyard.Cluster.Resources
import Runyard.Lifecycle
import Mathlib.Algebra.Order.Group.Int
import Mathlib.Tactic.Linarith

/-!
# The demand of a pod

What `pod_gpu_request` returns for a pod document is the overhead and the largest demand at any
moment of its life. The sums stay in range for every pod that is not enormous.
-/

namespace Runyard

/-! ## Sums that may overflow -/

namespace Checked

variable {α β : Type} {limit limit' : Int}

/-- The value, unless a sum beyond the range occurs, which only a large `limit` allows. -/
def Computes (limit : Int) (x : Checked α) (value : α) : Prop :=
  x = .ok value ∨ x = .error .overflow ∧ 2 ^ 63 ≤ limit

theorem Computes.bind {x : Checked α} {f : α → Checked β} {a : α} {b : β}
    (first : Computes limit x a) (second : Computes limit (f a) b) :
    Computes limit (x >>= f) b := by
  rcases first with rfl | ⟨rfl, large⟩
  · exact second
  · exact .inr ⟨rfl, large⟩

theorem Computes.map {x : Checked α} {a : α} (first : Computes limit x a) (f : α → β) :
    Computes limit (x >>= fun a => pure (f a)) (f a) :=
  first.bind (.inl rfl)

theorem int64Add_computes {a b : Int} (ha : 0 ≤ a) (hb : 0 ≤ b) (h : a + b ≤ limit) :
    Computes limit (int64Add a b) (a + b) := by
  rw [int64Add]
  split
  · exact .inl rfl
  · exact .inr ⟨rfl, by omega⟩

end Checked

/-! ## Containers -/

theorem LongDouble.whole_range {d : LongDouble} {value : d.Value} {n : Int}
    (h : d.whole value = some n) : 0 ≤ n ∧ n ≤ 1000000000000 := by
  simp only [whole, Option.bind_eq_bind, Option.bind_eq_some_iff,
    Option.ite_none_right_eq_some] at h
  obtain ⟨q, _, ⟨lower, upper, _, _⟩, ⟨⟩⟩ := h
  constructor
  · exact Rat.le_floor_iff.mpr (by linarith)
  · exact Int.lt_add_one_iff.mp (Rat.floor_lt_iff.mpr (by push_cast; linarith))

theorem LongDouble.quantity_range {d : LongDouble} {text : String} {n : Int}
    (h : d.quantity text = some n) : 0 ≤ n ∧ n ≤ 1000000000000 := by
  rw [quantity] at h
  split at h
  · cases h
  · obtain ⟨_, _, h⟩ := Option.bind_eq_some_iff.mp h
    obtain ⟨_, _, h⟩ := Option.bind_eq_some_iff.mp h
    exact whole_range h

theorem gpuQuantity_range {d : LongDouble} {quantity : Json Number} {n : Int}
    (h : gpuQuantity d quantity = .ok n) : 0 ≤ n ∧ n ≤ 1000000000000 := by
  simp only [gpuQuantity] at h
  split at h
  · next value hvalue =>
    cases h
    split at hvalue
    · next m =>
      rw [Option.ite_none_right_eq_some] at hvalue
      simp only [Bool.and_eq_true, decide_eq_true_eq] at hvalue
      obtain ⟨⟨⟨_, lower⟩, upper⟩, ⟨⟩⟩ := hvalue
      exact ⟨lower, upper⟩
    · exact LongDouble.quantity_range hvalue
    · cases hvalue
  · cases h

/-- The GPU resource of a container: its request, or else its limit. -/
def gpuResource (container : Json Number) : Json Number :=
  (container.path? ["resources", "requests", "nvidia.com/gpu"]).getD
    ((container.path? ["resources", "limits", "nvidia.com/gpu"]).getD noGpu)

/-- A container whose parts have their types, with a valid quantity. -/
structure ContainerDocument (d : LongDouble) (container : Json Number) (demand : Int) : Prop where
  object : container.isObject
  resources : ∀ j, container.path? ["resources"] = some j → j.isObject
  requests : ∀ j, container.path? ["resources", "requests"] = some j → j.isObject
  limits : ∀ j, container.path? ["resources", "limits"] = some j → j.isObject
  demand : gpuQuantity d (gpuResource container) = .ok demand

/-- An init container stays where its restart policy is `Always`. -/
structure InitDocument (d : LongDouble) (container : Json Number) (stage : Stage Int) : Prop
    extends ContainerDocument d container stage.demand where
  policy : ∀ j, container.find? "restartPolicy" = some j → ∃ text, j = .string text
  stays : stage.stays ↔ container.find? "restartPolicy" = some (.string "Always")

/-- A pod document with valid quantities, and the life of the pod. -/
structure PodDocument (d : LongDouble) (pod : Json Number) (overhead : Int)
    (life : Lifecycle Int) : Prop where
  spec : ∃ spec, pod.find? "spec" = some spec ∧ spec.isObject
  overheads : ∀ j, pod.path? ["spec", "overhead"] = some j → j.isObject
  overhead : gpuQuantity d ((pod.path? ["spec", "overhead", "nvidia.com/gpu"]).getD noGpu) =
    .ok overhead
  containers : List.Forall₂ (ContainerDocument d)
    ((pod.path? ["spec", "containers"]).getD (.array [])).elements life.group
  inits : List.Forall₂ (InitDocument d)
    ((pod.path? ["spec", "initContainers"]).getD (.array [])).elements life.stages

section Containers

open Checked

variable {d : LongDouble} {container : Json Number} {demand : Int} {stage : Stage Int}

theorem isObject_getD {j : Option (Json Number)} (h : ∀ v, j = some v → v.isObject) :
    (j.getD (.object [])).isObject := by
  cases j with
  | none => rfl
  | some v => exact h v rfl

theorem requested_document (h : ContainerDocument d container demand) :
    requested d container = .ok demand := by
  have resources := isObject_getD h.resources
  have requests := isObject_getD h.requests
  have limits := isObject_getD h.limits
  have quantity := h.demand
  simp only [Json.path?_cons, Json.path?_nil, Option.bind_fun_some, ← Json.find?_getD]
    at resources requests limits
  refine Except.bind_eq_ok.mpr ⟨_, Decoding.lift_access_ok.mpr (Json.valueOr_object h.object), ?_⟩
  refine Except.bind_eq_ok.mpr ⟨_, Decoding.lift_access_ok.mpr (Json.valueOr_object resources), ?_⟩
  refine Except.bind_eq_ok.mpr ⟨_, Decoding.lift_access_ok.mpr (Json.valueOr_object resources), ?_⟩
  refine Except.bind_eq_ok.mpr ⟨_, Decoding.lift_access_ok.mpr (Json.valueOr_object limits), ?_⟩
  refine Except.bind_eq_ok.mpr ⟨_, Decoding.lift_access_ok.mpr (Json.valueOr_object requests), ?_⟩
  simpa [gpuResource, Json.find?_getD, Option.bind_assoc] using quantity

theorem applicationStep_computes {limit sum : Int} (h : ContainerDocument d container demand)
    (positive : 0 ≤ sum) (fits : sum + demand ≤ limit) :
    Computes limit (applicationStep d sum container) (sum + demand) := by
  refine Computes.bind (.inl (Checked.lift_ok.mpr (requested_document h))) ?_
  exact int64Add_computes positive (gpuQuantity_range h.demand).1 fits

theorem initStep_computes {limit : Int} {acc : Int × Int} (h : InitDocument d container stage)
    (positive : 0 ≤ acc.1) (fits : acc.1 + stage.demand ≤ limit) :
    Computes limit (initStep d acc container) (Lifecycle.peakStep acc stage) := by
  have sum := int64Add_computes positive (gpuQuantity_range h.demand).1 fits
  obtain ⟨policy, hpolicy, hstays⟩ : ∃ policy,
      container.valueOr "restartPolicy" "" Json.getString = .ok policy ∧
        (stage.stays ↔ policy = "Always") := by
    rw [Json.valueOr, if_pos h.object]
    cases hfind : container.find? "restartPolicy" with
    | none => exact ⟨"", rfl, by simp [h.stays, hfind]⟩
    | some j =>
      obtain ⟨policy, rfl⟩ := h.policy j hfind
      exact ⟨policy, rfl, by simp [h.stays, hfind]⟩
  refine Computes.bind (.inl (Checked.lift_ok.mpr (requested_document h.toContainerDocument))) ?_
  refine Computes.bind (.inl (Checked.lift_access_ok.mpr hpolicy)) ?_
  rw [Lifecycle.peakStep]
  by_cases halways : policy = "Always"
  · rw [if_pos halways, if_pos (hstays.mpr halways)]
    exact sum.map fun s => (s, max acc.2 s)
  · rw [if_neg halways, if_neg fun h => halways (hstays.mp h)]
    exact sum.map fun s => (acc.1, max acc.2 s)

/-- What every document on the left says of its partner. -/
theorem forall_right {α β : Type} {R : α → β → Prop} {P : β → Prop} {documents : List α}
    {values : List β} (h : List.Forall₂ R documents values) (each : ∀ a b, R a b → P b) :
    ∀ b ∈ values, P b := by
  induction h with
  | nil => simp
  | cons first _ ih => exact List.forall_mem_cons.mpr ⟨each _ _ first, ih⟩

theorem group_positive {containers : List (Json Number)} {group : List Int}
    (h : List.Forall₂ (ContainerDocument d) containers group) :
    ∀ demand ∈ group, 0 ≤ demand ∧ demand ≤ 1000000000000 :=
  forall_right h fun _ _ document => gpuQuantity_range document.demand

theorem stages_positive {containers : List (Json Number)} {stages : List (Stage Int)}
    (h : List.Forall₂ (InitDocument d) containers stages) :
    ∀ stage ∈ stages, 0 ≤ stage.demand ∧ stage.demand ≤ 1000000000000 :=
  forall_right h fun _ _ document => gpuQuantity_range document.demand

theorem applications_compute {limit sum : Int} {containers : List (Json Number)}
    {group : List Int} (h : List.Forall₂ (ContainerDocument d) containers group)
    (positive : 0 ≤ sum) (fits : sum + group.sum ≤ limit) :
    Computes limit (containers.foldlM (applicationStep d) sum) (sum + group.sum) := by
  induction h generalizing sum with
  | nil => exact .inl (by simp [pure, Except.pure])
  | @cons container demand containers group first rest ih =>
    rw [List.sum_cons, ← Int.add_assoc] at fits ⊢
    have lower := (gpuQuantity_range first.demand).1
    have later : 0 ≤ group.sum := List.sum_nonneg fun demand h => (group_positive rest demand h).1
    rw [List.foldlM_cons]
    exact (applicationStep_computes first positive (by omega)).bind (ih (by omega) fits)

theorem inits_compute {limit : Int} {acc : Int × Int} {containers : List (Json Number)}
    {stages : List (Stage Int)} (h : List.Forall₂ (InitDocument d) containers stages)
    (positive : 0 ≤ acc.1) (fits : acc.1 + (stages.map (·.demand)).sum ≤ limit) :
    Computes limit (containers.foldlM (initStep d) acc)
      (stages.foldl Lifecycle.peakStep acc) := by
  induction h generalizing acc with
  | nil => exact .inl rfl
  | @cons container stage containers stages first rest ih =>
    rw [List.map_cons, List.sum_cons, ← Int.add_assoc] at fits
    have lower := (gpuQuantity_range first.demand).1
    have later : 0 ≤ (stages.map (·.demand)).sum :=
      List.sum_nonneg (Lifecycle.demand_nonneg fun stage h => (stages_positive rest stage h).1)
    have step : (Lifecycle.peakStep acc stage).1 = acc.1 + stage.demand ∨
        (Lifecycle.peakStep acc stage).1 = acc.1 := by
      rw [Lifecycle.peakStep_fst]
      split
      · exact .inl rfl
      · exact .inr (Int.add_zero _)
    rw [List.foldlM_cons, List.foldl_cons]
    exact (initStep_computes first positive (by omega)).bind (ih (by omega) (by omega))

end Containers

/-! ## Pods -/

section Pods

open Checked

variable {d : LongDouble} {pod : Json Number} {overhead : Int} {life : Lifecycle Int}

theorem pod_computes (h : PodDocument d pod overhead life) :
    Computes (life.total + overhead) (podGpuRequest d pod) (overhead + life.peak) := by
  obtain ⟨spec, hspec, object⟩ := h.spec
  have hfield : pod.field "spec" = .ok spec := by
    rcases Json.field_cases "spec" pod with ⟨_, hvalue, hfield⟩ | ⟨hnone, _⟩
    · cases hspec.symm.trans hvalue
      exact hfield
    · cases hspec.symm.trans hnone
  have overheads := isObject_getD h.overheads
  have hoverhead := h.overhead
  have containers := h.containers
  have inits := h.inits
  simp only [Json.path?_cons, Json.path?_nil, hspec, Option.bind_some, Option.bind_fun_some]
    at overheads hoverhead containers inits
  rw [← Json.find?_getD] at hoverhead
  have small : podOverhead d spec = .ok overhead :=
    Except.bind_eq_ok.mpr ⟨_, Decoding.lift_access_ok.mpr (Json.valueOr_object object),
      Except.bind_eq_ok.mpr ⟨_, Decoding.lift_access_ok.mpr (Json.valueOr_object overheads),
        hoverhead⟩⟩
  have group : 0 ≤ life.group.sum :=
    List.sum_nonneg fun demand h => (group_positive containers demand h).1
  have stages : ∀ stage ∈ life.stages, 0 ≤ stage.demand :=
    fun stage h => (stages_positive inits stage h).1
  have lower := (gpuQuantity_range h.overhead).1
  have demands : 0 ≤ (life.stages.map (·.demand)).sum :=
    List.sum_nonneg (Lifecycle.demand_nonneg stages)
  obtain ⟨hkept, hhigh⟩ : (life.stages.foldl Lifecycle.peakStep (0, 0)).1 ≤
      0 + (life.stages.map (·.demand)).sum ∧
      (life.stages.foldl Lifecycle.peakStep (0, 0)).2 ≤ (life.stages.map (·.demand)).sum :=
    Lifecycle.foldl_peakStep_le stages (Int.zero_add _).le demands
  have staying : 0 ≤ (life.stages.foldl Lifecycle.peakStep (0, 0)).1 := by
    rw [(Lifecycle.foldl_peakStep life.stages).1]
    exact Lifecycle.kept_nonneg stages
  refine Computes.bind (.inl (lift_access_ok.mpr hfield)) ?_
  refine Computes.bind (.inl (lift_access_ok.mpr (Json.valueOr_object object))) ?_
  refine Computes.bind (applications_compute containers (le_refl 0) ?_) ?_
  · rw [Lifecycle.total]
    omega
  refine Computes.bind (.inl (lift_access_ok.mpr (Json.valueOr_object object))) ?_
  refine Computes.bind (inits_compute inits (le_refl 0) ?_) ?_
  · rw [Lifecycle.total]
    omega
  rw [Lifecycle.total, Lifecycle.peak, Int.add_comm overhead, Int.zero_add]
  generalize life.stages.foldl Lifecycle.peakStep (0, 0) = acc at hkept hhigh staying ⊢
  refine Computes.bind (.inl (lift_ok.mpr small)) ?_
  refine Computes.bind (int64Add_computes group staying (by omega)) ?_
  exact int64Add_computes (by omega) lower (by omega)

theorem total_le (h : PodDocument d pod overhead life) :
    life.total ≤ (life.stages.length + life.group.length : Nat) * 1000000000000 := by
  have group := List.sum_le_card_nsmul life.group 1000000000000 fun demand hdemand =>
    (group_positive h.containers demand hdemand).2
  have stages := List.sum_le_card_nsmul (life.stages.map (·.demand)) 1000000000000 (by
    intro demand hdemand
    obtain ⟨stage, hstage, rfl⟩ := List.mem_map.mp hdemand
    exact (stages_positive h.inits stage hstage).2)
  rw [List.length_map] at stages
  simp only [nsmul_eq_mul] at group stages
  rw [Lifecycle.total]
  push_cast
  linarith

/-- A pod requests its overhead and the largest demand of its life. -/
theorem pod_gpu_request_peak (d : LongDouble) {pod : Json Number} {overhead : Int}
    {life : Lifecycle Int} (document : PodDocument d pod overhead life) :
    IsGreatest life.demands life.peak ∧
      (podGpuRequest d pod = .ok (overhead + life.peak) ∨
        podGpuRequest d pod = .error .overflow ∧
          1000000 ≤ life.stages.length + life.group.length) := by
  have bound := total_le document
  have small := (gpuQuantity_range document.overhead).2
  refine ⟨Lifecycle.peak_greatest (fun stage h => (stages_positive document.inits stage h).1)
    (fun demand h => (group_positive document.containers demand h).1), ?_⟩
  refine (pod_computes document).imp_right fun ⟨overflow, large⟩ => ⟨overflow, ?_⟩
  omega

end Pods

/-- Arithmetic without rounding, for the numbers of small documents. -/
def LongDouble.exact : LongDouble where
  Value := Rat
  finite := some
  ofInt n := n
  stold text :=
    let whole := text.takeWhile Char.isDigit
    let fraction := (text.dropWhile Char.isDigit).drop 1
    Nat.ofDigitChars 10 (whole ++ fraction) 0 / 10 ^ fraction.length
  pow base exponent := base ^ exponent.num.toNat / base ^ (-exponent.num).toNat
  mul a b := a * b
  tolerance := 1 / 1000000000

namespace Sample

def container (count : String) (sidecar : Bool) : Json Number :=
  .object [("resources", .object [("requests", .object [("nvidia.com/gpu", .string count)])]),
    ("restartPolicy", .string (if sidecar then "Always" else ""))]

def pod : Json Number :=
  .object [("spec", .object [("containers", .array [container "2" false]),
    ("initContainers", .array [container "1" true, container "4000m" false, container "2" true,
      container "1" false])])]

def life : Lifecycle Int where
  stages := [⟨true, 1⟩, ⟨false, 4⟩, ⟨true, 2⟩, ⟨false, 1⟩]
  group := [2]

theorem container_document {count : String} {n : Int}
    (h : LongDouble.exact.quantity count = some n) (sidecar : Bool) :
    InitDocument LongDouble.exact (container count sidecar) ⟨sidecar, n⟩ := by
  constructor
  · constructor
    · rfl
    · rintro _ ⟨⟩
      rfl
    · rintro _ ⟨⟩
      rfl
    · rintro _ ⟨⟩
    · show gpuQuantity LongDouble.exact (.string count) = .ok n
      rw [gpuQuantity, h]
  · rintro _ ⟨⟩
    exact ⟨_, rfl⟩
  · cases sidecar <;> simp [container, Entries.lookup]

theorem pod_document : PodDocument LongDouble.exact pod 0 life := by
  have one : LongDouble.exact.quantity "1" = some 1 := by decide +kernel
  have two : LongDouble.exact.quantity "2" = some 2 := by decide +kernel
  have four : LongDouble.exact.quantity "4000m" = some 4 := by decide +kernel
  constructor
  · exact ⟨_, rfl, rfl⟩
  · rintro _ ⟨⟩
  · decide +kernel
  · exact .cons (container_document two false).toContainerDocument .nil
  · exact .cons (container_document one true) (.cons (container_document four false)
      (.cons (container_document two true) (.cons (container_document one false) .nil)))

end Sample

/-- The largest init container runs beside one sidecar, the application beside two. -/
theorem pod_gpu_request_sidecars : podGpuRequest LongDouble.exact Sample.pod = .ok 5 := by
  obtain ⟨-, request | ⟨-, large⟩⟩ := pod_gpu_request_peak LongDouble.exact Sample.pod_document
  · have peak : 0 + Sample.life.peak = 5 := by decide
    rwa [peak] at request
  · exact absurd large (by decide)

end Runyard
