import Mathlib.Data.List.Basic
import Mathlib.Data.Finset.Card
import Mathlib.Data.List.Sort
import Mathlib.Order.Lattice

/-!
# Reading an append-only log by cursor

Records carry increasing keys. A reader asks for the records above the key that it received
last, a limited number at a time, and appends the page to what it has.
-/

universe u v

namespace Cursor

variable {α : Type u} {κ : Type v} [LinearOrder κ] (key : α → κ)

def Increasing (log : List α) : Prop := log.Pairwise fun a b => key a < key b

/-- The key after which the reader continues. -/
def position (start : κ) (received : List α) : κ := (received.getLast?.map key).getD start

def page (after : κ) (limit : Nat) (log : List α) : List α :=
  (log.filter fun r => after < key r).take limit

/-- Page after page, each one from the last key of the page before. -/
def pages (limit : Nat) (log : List α) : Nat → κ → List α
  | 0, _ => []
  | n + 1, after =>
    let next := page key after limit log
    next ++ pages limit log n (position key after next)

variable {key} {start : κ} {log received rest : List α}

theorem Increasing.split (increasing : Increasing key (received ++ rest)) :
    ∀ a ∈ received, ∀ b ∈ rest, key a < key b :=
  (List.pairwise_append.mp increasing).2.2

theorem Increasing.last (increasing : Increasing key received) {last : α}
    (hlast : received.getLast? = some last) : ∀ a ∈ received, key a ≤ key last := by
  intro a ha
  obtain ⟨before, rfl⟩ := List.getLast?_eq_some_iff.mp hlast
  rcases List.mem_append.mp ha with hbefore | hsame
  · exact le_of_lt (increasing.split a hbefore last List.mem_cons_self)
  · rw [List.mem_singleton.mp hsame]

/-- What lies above the position is exactly what has not been received. -/
theorem filter_above (increasing : Increasing key (received ++ rest))
    (above : ∀ a ∈ received ++ rest, start < key a) :
    ((received ++ rest).filter fun r => position key start received < key r) = rest := by
  rw [List.filter_append]
  have kept : (rest.filter fun r => position key start received < key r) = rest := by
    apply List.filter_eq_self.mpr
    intro b hb
    rw [decide_eq_true_eq, position]
    cases hlast : received.getLast? with
    | none => exact above b (List.mem_append_right _ hb)
    | some last => exact increasing.split last (List.mem_of_getLast? hlast) b hb
  have dropped : (received.filter fun r => position key start received < key r) = [] := by
    apply List.filter_eq_nil_iff.mpr
    intro a ha
    rw [decide_eq_true_eq, position]
    cases hlast : received.getLast? with
    | none =>
      rw [List.getLast?_eq_none_iff] at hlast
      rw [hlast] at ha
      cases ha
    | some last =>
      have hle := (List.pairwise_append.mp increasing).1
      exact not_lt_of_ge (Increasing.last hle hlast a ha)
  rw [kept, dropped, List.nil_append]

/-- A page is empty when nothing lies above the position. -/
theorem page_eq_nil {after : κ} {limit : Nat} (positive : 0 < limit) :
    page key after limit log = [] ↔ ∀ a ∈ log, key a ≤ after := by
  rw [page, List.take_eq_nil_iff, List.filter_eq_nil_iff]
  simp only [decide_eq_true_eq, not_lt, Nat.ne_of_gt positive, false_or]

/-- A page continues what was received, record by record. -/
theorem append_page (increasing : Increasing key log) (above : ∀ a ∈ log, start < key a)
    (held : received <+: log) (limit : Nat) :
    received ++ page key (position key start received) limit log =
      log.take (received.length + limit) := by
  obtain ⟨rest, rfl⟩ := held
  rw [page, filter_above increasing above, List.take_length_add_append]

theorem page_held (increasing : Increasing key log) (above : ∀ a ∈ log, start < key a)
    (held : received <+: log) (limit : Nat) :
    received ++ page key (position key start received) limit log <+: log := by
  rw [append_page increasing above held]
  exact List.take_prefix _ _

theorem length_append_page (increasing : Increasing key log) (above : ∀ a ∈ log, start < key a)
    (held : received <+: log) (limit : Nat) :
    (received ++ page key (position key start received) limit log).length =
      min (received.length + limit) log.length := by
  rw [append_page increasing above held, List.length_take]

omit [LinearOrder κ] in
theorem position_append (received next : List α) :
    position key (position key start received) next = position key start (received ++ next) := by
  rw [position, position, position, List.getLast?_append]
  cases next.getLast? <;> simp

theorem append_pages (increasing : Increasing key log) (above : ∀ a ∈ log, start < key a)
    (held : received <+: log) (limit n : Nat) :
    received ++ pages key limit log n (position key start received) =
      log.take (received.length + n * limit) := by
  induction n generalizing received with
  | zero =>
    rw [pages, List.append_nil, Nat.zero_mul, Nat.add_zero]
    exact List.prefix_iff_eq_take.mp held
  | succ n ih =>
    rw [pages, ← List.append_assoc, position_append, ih (page_held increasing above held limit),
      length_append_page increasing above held, Nat.succ_mul]
    rcases le_total (received.length + limit) log.length with hle | hle
    · rw [min_eq_left hle]
      congr 1
      omega
    · rw [List.take_of_length_le, List.take_of_length_le]
      · omega
      · omega

/-- Enough pages are the whole log. -/
theorem pages_all (increasing : Increasing key log) (above : ∀ a ∈ log, start < key a)
    {limit n : Nat} (positive : 0 < limit) (enough : log.length ≤ n) :
    pages key limit log n start = log := by
  have whole := append_pages increasing above (List.nil_prefix (l := log)) limit n
  rw [List.nil_append, List.length_nil, Nat.zero_add] at whole
  have covers : log.length ≤ n * limit := le_trans enough (Nat.le_mul_of_pos_right n positive)
  rwa [List.take_of_length_le covers] at whole

/-- Rows with distinct keys are a log once they are sorted. -/
theorem increasing_sort [DecidableRel fun a b : α => key a ≤ key b] {rows : List α}
    (distinct : (rows.map key).Nodup) :
    Increasing key (rows.insertionSort fun a b => key a ≤ key b) := by
  have total : Std.Total fun a b : α => key a ≤ key b := ⟨fun a b => le_total (key a) (key b)⟩
  have transitive : IsTrans α fun a b => key a ≤ key b := ⟨fun _ _ _ => le_trans⟩
  have sorted := List.pairwise_insertionSort (fun a b : α => key a ≤ key b) rows
  have nodup : ((rows.insertionSort fun a b => key a ≤ key b).map key).Nodup :=
    ((List.perm_insertionSort _ rows).map key).nodup_iff.mpr distinct
  exact sorted.imp₂ (fun a b hle hne => lt_of_le_of_ne hle hne) (List.pairwise_map.mp nodup)

/-! ## Keeping pace with a log that grows -/

/-- How many records a reader has, from the lengths of the log at its pages, the last one first. -/
def covered (limit : Nat) : List Nat → Nat
  | [] => 0
  | length :: before => min length (covered limit before + limit)

/-- Since the reader began, and since each of its pages, at most `limit` records were added for
every page that came after. -/
def Paced (limit : Nat) (lengths : List Nat) (length : Nat) : Prop :=
  ∀ later ≤ lengths.length, length ≤ (lengths[later]?).getD 0 + limit * later

/-- A reader has the whole log exactly where the log has kept its pace. -/
theorem le_covered {limit length : Nat} {lengths : List Nat} :
    length ≤ covered limit lengths ↔ Paced limit lengths length := by
  induction lengths generalizing length with
  | nil => simp [covered, Paced]
  | cons last before ih =>
    rw [covered, le_min_iff, ← Nat.sub_le_iff_le_add, ih]
    constructor
    · rintro ⟨short, paced⟩ later hlater
      cases later with
      | zero => simpa using short
      | succ later =>
        have := paced later (Nat.le_of_succ_le_succ hlater)
        rw [List.getElem?_cons_succ, Nat.mul_succ]
        omega
    · intro paced
      refine ⟨by simpa using paced 0 (Nat.zero_le _), fun later hlater => ?_⟩
      have := paced (later + 1) (Nat.succ_le_succ hlater)
      rw [List.getElem?_cons_succ, Nat.mul_succ] at this
      omega

/-! ## A log that changes between the pages -/

/-- Page after page, each of what the log is then, up to the first one that is not full. -/
def follow (key : α → κ) (limit : Nat) (logs : Nat → List α) : Nat → Nat → κ → List (List α)
  | 0, _, _ => []
  | n + 1, k, after =>
    let next := page key after limit (logs k)
    next :: if next.length = limit then follow key limit logs n (k + 1) (position key after next)
      else []

section Follow

variable {logs : Nat → List α} {limit n k : Nat} {after : κ} {a : α}

theorem above_page : ∀ r ∈ page key after limit log, after < key r := fun _ hr =>
  of_decide_eq_true (List.mem_filter.mp (List.mem_of_mem_take hr)).2

theorem increasing_page (increasing : Increasing key log) :
    Increasing key (page key after limit log) :=
  (increasing.filter _).sublist (List.take_sublist limit _)

/-- The position after a page is not below what the page began with. -/
theorem position_le (above : ∀ r ∈ received, after < key r) :
    after ≤ position key after received := by
  rw [position]
  cases hlast : received.getLast? with
  | none => exact le_refl after
  | some last => exact le_of_lt (above last (List.mem_of_getLast? hlast))

theorem le_position (increasing : Increasing key received) :
    ∀ r ∈ received, key r ≤ position key after received := by
  intro r hr
  rw [position]
  cases hlast : received.getLast? with
  | none =>
    rw [List.getLast?_eq_none_iff] at hlast
    rw [hlast] at hr
    cases hr
  | some last => exact increasing.last hlast r hr

theorem follow_member (hr : a ∈ (follow key limit logs n k after).flatten) :
    ∃ k, a ∈ logs k := by
  induction n generalizing k after with
  | zero => cases hr
  | succ n ih =>
    rw [follow, List.flatten_cons] at hr
    rcases List.mem_append.mp hr with hfirst | hrest
    · exact ⟨k, List.mem_of_mem_filter (List.mem_of_mem_take hfirst)⟩
    · split at hrest
      · exact ih hrest
      · cases hrest

theorem follow_above :
    ∀ r ∈ (follow key limit logs n k after).flatten, after < key r := by
  induction n generalizing k after with
  | zero => simp [follow]
  | succ n ih =>
    intro r hr
    rw [follow, List.flatten_cons] at hr
    rcases List.mem_append.mp hr with hfirst | hrest
    · exact above_page r hfirst
    · split at hrest
      · exact lt_of_le_of_lt (position_le above_page) (ih r hrest)
      · cases hrest

/-- The pages never go back. -/
theorem follow_increasing (increasing : ∀ k, Increasing key (logs k)) :
    Increasing key (follow key limit logs n k after).flatten := by
  induction n generalizing k after with
  | zero => exact .nil
  | succ n ih =>
    rw [follow, List.flatten_cons]
    refine List.pairwise_append.mpr ⟨increasing_page (increasing k), ?_, ?_⟩
    · split
      · exact ih
      · exact .nil
    · intro a ha b hb
      split at hb
      · exact lt_of_le_of_lt (le_position (increasing_page (increasing k)) a ha)
          (follow_above b hb)
      · cases hb

/-- What is there whenever a page is read is on some page, once the pages have ended. -/
theorem follow_complete (increasing : ∀ k, Increasing key (logs k))
    (ended : ∃ next ∈ follow key limit logs n k after, next.length < limit) {x : κ}
    (present : ∀ j < (follow key limit logs n k after).length, ∃ r ∈ logs (k + j), key r = x)
    (above : after < x) : ∃ r ∈ (follow key limit logs n k after).flatten, key r = x := by
  induction n generalizing k after with
  | zero =>
    obtain ⟨_, hnext, _⟩ := ended
    cases hnext
  | succ n ih =>
    rw [follow] at ended present ⊢
    obtain ⟨r, hr, rfl⟩ := present 0 (Nat.zero_lt_succ _)
    rw [Nat.add_zero] at hr
    have found : r ∈ (logs k).filter fun r => after < key r :=
      List.mem_filter.mpr ⟨hr, decide_eq_true above⟩
    rw [List.flatten_cons]
    rw [← List.take_append_drop limit (List.filter _ _)] at found
    rcases List.mem_append.mp found with htake | hdrop
    · exact ⟨r, List.mem_append_left _ htake, rfl⟩
    have full : (page key after limit (logs k)).length = limit := by
      have some := List.length_pos_of_mem hdrop
      rw [List.length_drop] at some
      rw [page, List.length_take]
      omega
    have beyond : position key after (page key after limit (logs k)) < key r := by
      have sorted : Increasing key ((logs k).filter fun r => after < key r) :=
        (increasing k).filter _
      rw [← List.take_append_drop limit (List.filter _ _)] at sorted
      rw [position]
      cases hlast : (page key after limit (logs k)).getLast? with
      | none => exact above
      | some last => exact sorted.split last (List.mem_of_getLast? hlast) r hdrop
    rw [if_pos full] at ended present ⊢
    obtain ⟨next, hnext, short⟩ := ended
    rcases List.mem_cons.mp hnext with rfl | hnext
    · exact absurd full (Nat.ne_of_lt short)
    · have later : ∀ j < (follow key limit logs n (k + 1)
          (position key after (page key after limit (logs k)))).length,
          ∃ s ∈ logs (k + 1 + j), key s = key r := by
        intro j hj
        obtain ⟨s, hs, same⟩ := present (j + 1) (Nat.succ_lt_succ hj)
        rw [Nat.add_comm j, ← Nat.add_assoc] at hs
        exact ⟨s, hs, same⟩
      obtain ⟨r', hr', hkey⟩ := ih ⟨next, hnext, short⟩ later beyond
      exact ⟨r', List.mem_append_right _ hr', hkey⟩

/-- Where all keys are among finitely many, every full page uses up some of them. -/
theorem follow_ends (positive : 0 < limit) (keys : Finset κ)
    (known : ∀ k, ∀ r ∈ logs k, key r ∈ keys) (enough : (keys.filter (after < ·)).card < n) :
    ∃ next ∈ follow key limit logs n k after, next.length < limit := by
  induction n generalizing k after with
  | zero => exact absurd enough (Nat.not_lt_zero _)
  | succ n ih =>
    rw [follow]
    by_cases full : (page key after limit (logs k)).length = limit
    · rw [if_pos full]
      obtain ⟨last, hlast⟩ := List.getLast?_isSome.mpr (List.ne_nil_of_length_pos (full ▸ positive))
        |> Option.isSome_iff_exists.mp
      have member := List.mem_of_getLast? hlast
      have at_last : position key after (page key after limit (logs k)) = key last := by
        rw [position, hlast]
        rfl
      have used : keys.filter (key last < ·) ⊂ keys.filter (after < ·) := by
        refine Finset.ssubset_iff_subset_ne.mpr ⟨fun x hx => ?_, fun same => ?_⟩
        · obtain ⟨hx, hless⟩ := Finset.mem_filter.mp hx
          exact Finset.mem_filter.mpr ⟨hx, (above_page last member).trans hless⟩
        · have kept : key last ∈ keys.filter (after < ·) := Finset.mem_filter.mpr
            ⟨known k last (List.mem_of_mem_filter (List.mem_of_mem_take member)),
              above_page last member⟩
          rw [← same] at kept
          exact lt_irrefl _ (Finset.mem_filter.mp kept).2
      have fewer := Finset.card_lt_card used
      rw [at_last]
      have rest : ∃ next ∈ follow key limit logs n (k + 1) (key last), next.length < limit :=
        ih (by omega)
      obtain ⟨next, hnext, short⟩ := rest
      exact ⟨next, List.mem_cons_of_mem _ hnext, short⟩
    · have short : (page key after limit (logs k)).length < limit :=
        lt_of_le_of_ne (List.length_take_le limit _) full
      exact ⟨_, List.mem_cons_self, short⟩

/-- A log that does not change is read completely. -/
theorem follow_constant (increasing : Increasing key log)
    (ended : ∃ next ∈ follow key limit (fun _ => log) n k after, next.length < limit) :
    (follow key limit (fun _ => log) n k after).flatten = log.filter fun r => after < key r := by
  have distinct : (log.map key).Nodup :=
    List.pairwise_map.mpr (increasing.imp fun hless => hless.ne)
  have irreflexive : Std.Irrefl fun a b : α => key a < key b := ⟨fun _ => lt_irrefl _⟩
  refine (follow_increasing fun _ => increasing).eq_of_mem_iff (increasing.filter _) ?_
  intro r
  constructor
  · intro hr
    obtain ⟨_, hlog⟩ := follow_member hr
    exact List.mem_filter.mpr ⟨hlog, decide_eq_true (follow_above r hr)⟩
  · intro hr
    obtain ⟨hlog, above⟩ := List.mem_filter.mp hr
    obtain ⟨r', hr', same⟩ := follow_complete (fun _ => increasing) ended
      (fun _ _ => ⟨r, hlog, rfl⟩) (of_decide_eq_true above)
    obtain ⟨_, hlog'⟩ := follow_member hr'
    rwa [List.inj_on_of_nodup_map distinct hlog' hlog same] at hr'

end Follow

end Cursor
