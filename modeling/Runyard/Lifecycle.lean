import Mathlib.Algebra.BigOperators.Group.List.Basic
import Mathlib.Algebra.Order.BigOperators.Group.List
import Mathlib.Algebra.Order.Monoid.Defs
import Mathlib.Data.List.Induction
import Mathlib.Order.Bounds.Basic

/-!
# The peak of a staged start

Some parts start one after another, and each of them either stays to the end or leaves before the
next one starts. Then the last group starts together. The peak is the largest demand at any
moment. One pass with two accumulators finds it: the demand of what stays, and the largest
demand so far.
-/

universe u

/-- A part that starts on its own, with its demand. -/
structure Stage (α : Type u) where
  stays : Bool
  demand : α
  deriving DecidableEq, Repr

structure Lifecycle (α : Type u) where
  stages : List (Stage α)
  group : List α

namespace Lifecycle

variable {α : Type u} [AddCommMonoid α]

/-- The demand of the stages that stay. -/
def kept (stages : List (Stage α)) : α := ((stages.filter (·.stays)).map (·.demand)).sum

/-- The demands of what runs at a moment. The moments are the starts of the stages, in order,
and after them the start of the group. -/
def running (l : Lifecycle α) (moment : Nat) : List α :=
  (((l.stages.take moment).filter (·.stays)).map (·.demand)) ++
    match l.stages[moment]? with
    | some stage => [stage.demand]
    | none => l.group

def demandAt (l : Lifecycle α) (moment : Nat) : α := (l.running moment).sum

def demands (l : Lifecycle α) : Set α :=
  {demand | ∃ moment ≤ l.stages.length, demand = l.demandAt moment}

/-- The demand of all parts together. -/
def total (l : Lifecycle α) : α := l.group.sum + (l.stages.map (·.demand)).sum

variable [LinearOrder α]

/-- The demand of what stays, and the largest demand. -/
def peakStep (acc : α × α) (stage : Stage α) : α × α :=
  if stage.stays then (acc.1 + stage.demand, max acc.2 (acc.1 + stage.demand))
  else (acc.1, max acc.2 (acc.1 + stage.demand))

def peak (l : Lifecycle α) : α :=
  let acc := l.stages.foldl peakStep (0, 0)
  max (l.group.sum + acc.1) acc.2

section Stages

variable {stages : List (Stage α)} {stage : Stage α} {group : List α}

omit [LinearOrder α] in
@[simp] theorem kept_append : kept (stages ++ [stage]) =
    kept stages + if stage.stays then stage.demand else 0 := by
  cases hstays : stage.stays <;> simp [kept, hstays]

@[simp] theorem peakStep_fst (acc : α × α) :
    (peakStep acc stage).1 = acc.1 + if stage.stays then stage.demand else 0 := by
  cases hstays : stage.stays <;> simp [peakStep, hstays]

@[simp] theorem peakStep_snd (acc : α × α) :
    (peakStep acc stage).2 = max acc.2 (acc.1 + stage.demand) := by
  cases hstays : stage.stays <;> simp [peakStep, hstays]

omit [LinearOrder α] in
theorem demandAt_stage {moment : Nat} (h : moment < stages.length) :
    demandAt ⟨stages, group⟩ moment = demandAt ⟨stages, []⟩ moment := by
  rw [demandAt, demandAt, running, running, List.getElem?_eq_getElem h]

omit [LinearOrder α] in
/-- A moment depends on nothing that starts after it. -/
theorem demandAt_append {moment : Nat} (h : moment < stages.length) :
    demandAt ⟨stages ++ [stage], group⟩ moment = demandAt ⟨stages, group⟩ moment := by
  have started : (stages ++ [stage]).take moment = stages.take moment :=
    List.take_append_of_le_length (Nat.le_of_lt h)
  rw [demandAt, demandAt, running, running, started, List.getElem?_append_left h]

omit [LinearOrder α] in
theorem demandAt_last :
    demandAt ⟨stages ++ [stage], group⟩ stages.length = kept stages + stage.demand := by
  simp [demandAt, running, kept]

omit [LinearOrder α] in
theorem demandAt_group : demandAt ⟨stages, group⟩ stages.length = kept stages + group.sum := by
  simp [demandAt, running, kept]

/-- The accumulators after the pass. -/
theorem foldl_peakStep (stages : List (Stage α)) :
    (stages.foldl peakStep (0, 0)).1 = kept stages ∧
      0 ≤ (stages.foldl peakStep (0, 0)).2 ∧
      (∀ moment < stages.length, demandAt ⟨stages, []⟩ moment ≤
        (stages.foldl peakStep (0, 0)).2) ∧
      ((stages.foldl peakStep (0, 0)).2 = 0 ∨
        ∃ moment < stages.length, (stages.foldl peakStep (0, 0)).2 =
          demandAt ⟨stages, []⟩ moment) := by
  induction stages using List.reverseRecOn with
  | nil => exact ⟨rfl, le_refl 0, by simp, .inl rfl⟩
  | append_singleton stages stage ih =>
    obtain ⟨hkept, positive, bound, attained⟩ := ih
    rw [List.foldl_append, List.foldl_cons, List.foldl_nil]
    generalize stages.foldl peakStep (0, 0) = acc at hkept positive bound attained ⊢
    rw [peakStep_fst, peakStep_snd, kept_append, hkept, List.length_append, List.length_singleton]
    refine ⟨rfl, le_max_of_le_left positive, ?_, ?_⟩
    · intro moment hmoment
      rcases Nat.lt_succ_iff_lt_or_eq.mp hmoment with h | rfl
      · rw [demandAt_append h]
        exact le_max_of_le_left (bound moment h)
      · rw [demandAt_last]
        exact le_max_right _ _
    · rcases max_choice acc.2 (kept stages + stage.demand) with hold | hnew
      · rw [hold]
        rcases attained with hzero | ⟨moment, h, hmoment⟩
        · exact .inl hzero
        · exact .inr ⟨moment, Nat.lt_succ_of_lt h, by rw [demandAt_append h, hmoment]⟩
      · exact .inr ⟨stages.length, Nat.lt_succ_self _, by rw [hnew, demandAt_last]⟩

end Stages

variable [IsOrderedAddMonoid α] {l : Lifecycle α}

omit [IsOrderedAddMonoid α] in
theorem demand_nonneg {stages : List (Stage α)} (demands : ∀ stage ∈ stages, 0 ≤ stage.demand) :
    ∀ demand ∈ stages.map (·.demand), 0 ≤ demand := by
  intro demand h
  obtain ⟨stage, hstage, rfl⟩ := List.mem_map.mp h
  exact demands stage hstage

theorem kept_nonneg {stages : List (Stage α)} (demands : ∀ stage ∈ stages, 0 ≤ stage.demand) :
    0 ≤ kept stages :=
  List.sum_nonneg (demand_nonneg fun stage h => demands stage (List.mem_of_mem_filter h))

/-- The pass finds the largest demand of all moments. -/
theorem peak_greatest (stages : ∀ stage ∈ l.stages, 0 ≤ stage.demand)
    (group : ∀ demand ∈ l.group, 0 ≤ demand) : IsGreatest l.demands l.peak := by
  obtain ⟨hkept, positive, bound, attained⟩ := foldl_peakStep l.stages
  have last : l.demandAt l.stages.length = l.group.sum + kept l.stages := by
    rw [demandAt_group, add_comm]
  have early : ∀ moment < l.stages.length, l.demandAt moment =
      demandAt ⟨l.stages, []⟩ moment := fun moment h => demandAt_stage h
  rw [peak, hkept]
  constructor
  · rcases le_total (l.stages.foldl peakStep (0, 0)).2 (l.group.sum + kept l.stages) with h | h
    · exact ⟨l.stages.length, le_refl _, by rw [max_eq_left h, last]⟩
    · rw [max_eq_right h]
      rcases attained with hzero | ⟨moment, hmoment, hdemand⟩
      · -- Nothing demands anything, and the last moment is as good as any.
        have nothing : l.group.sum + kept l.stages = 0 :=
          le_antisymm (hzero ▸ h) (add_nonneg (List.sum_nonneg group) (kept_nonneg stages))
        exact ⟨l.stages.length, le_refl _, by rw [hzero, last, nothing]⟩
      · exact ⟨moment, Nat.le_of_lt hmoment, by rw [hdemand, early moment hmoment]⟩
  · rintro _ ⟨moment, hmoment, rfl⟩
    rcases Nat.lt_or_eq_of_le hmoment with h | rfl
    · rw [early moment h]
      exact le_max_of_le_right (bound moment h)
    · rw [last]
      exact le_max_left _ _

/-- The accumulators never exceed the demand of all stages together. -/
theorem foldl_peakStep_le {stages : List (Stage α)} {acc : α × α} {bound : α}
    (demands : ∀ stage ∈ stages, 0 ≤ stage.demand)
    (sum : acc.1 + (stages.map (·.demand)).sum ≤ bound) (high : acc.2 ≤ bound) :
    (stages.foldl peakStep acc).1 ≤ acc.1 + (stages.map (·.demand)).sum ∧
      (stages.foldl peakStep acc).2 ≤ bound := by
  induction stages generalizing acc with
  | nil => exact ⟨by simp, high⟩
  | cons stage rest ih =>
    obtain ⟨first, others⟩ := List.forall_mem_cons.mp demands
    rw [List.map_cons, List.sum_cons, ← add_assoc] at sum ⊢
    have step : (peakStep acc stage).1 ≤ acc.1 + stage.demand := by
      rw [peakStep_fst]
      split
      · exact le_refl _
      · exact add_le_add_right first _
    have later : 0 ≤ (rest.map (·.demand)).sum := List.sum_nonneg (demand_nonneg others)
    have now : acc.1 + stage.demand ≤ bound := le_trans (le_add_of_nonneg_right later) sum
    obtain ⟨hkept, hhigh⟩ := ih others ((add_le_add_left step _).trans sum)
      (by rw [peakStep_snd]; exact max_le high now)
    exact ⟨hkept.trans (add_le_add_left step _), hhigh⟩

end Lifecycle
