import Runyard.Cluster.Snapshot
import Runyard.Store.Capacity

/-!
# Capacity pages

`CapacityService::get` with `summarize`, and what `encode` adds to a page. The totals are of the
whole cluster, the page has the nodes after a cursor. A reader that follows the cursor sees every
node that stays, while the cluster changes, and can add the nodes up to the totals where it does
not.
-/

namespace Runyard

/-- `GpuCapacityTotals` of a cluster snapshot. -/
structure ClusterTotals where
  capacity : Int := 0
  allocatable : Int := 0
  reserved : Int := 0
  available : Int := 0
  pending : Int := 0
  fresh : Bool := false
  observedAt : String := ""
  ageSeconds : Option Int := none
  deriving DecidableEq, Repr

/-- `std::max<std::int64_t>(0, a - b)`. -/
def spareGpus (a b : Int) : Checked Int := do return max 0 (← int64Add a (-b))

def addAvailable (available : Int) (node : GpuNodeCapacity) : Checked Int := do
  if node.eligible then int64Add available (← spareGpus node.allocatable node.reserved)
  else return available

def summarizeNode (totals : ClusterTotals) (node : GpuNodeCapacity) : Checked ClusterTotals := do
  let capacity ← int64Add totals.capacity node.capacity
  let allocatable ← int64Add totals.allocatable node.allocatable
  let reserved ← int64Add totals.reserved node.reserved
  let available ← addAvailable totals.available node
  return { totals with capacity, allocatable, reserved, available }

def summarize (snapshot : ClusterGpuSnapshot) : Checked ClusterTotals :=
  snapshot.nodes.foldlM summarizeNode
    { fresh := snapshot.fresh
      pending := snapshot.pending
      observedAt := snapshot.observedAt
      ageSeconds := snapshot.ageSeconds }

/-- A page of one of the two backends; the fields of the other one are empty. -/
inductive CapacityPage where
  | kubernetes (gpu : ClusterTotals) (nodes : List GpuNodeCapacity) (nextCursor : String)
  | docker (gpu : GpuCapacityTotals) (workers : List Worker) (nextCursor : String)

/-- The loop over the nodes, which ends at a full page. -/
def pageNodes (limit : Nat) (after : String) :
    List GpuNodeCapacity → List GpuNodeCapacity → List GpuNodeCapacity
  | [], page => page
  | node :: rest, page =>
    if node.name ≤ after then pageNodes limit after rest page
    else if page.length = limit then page
    else pageNodes limit after rest (page ++ [node])

/-- The name of the last one of a full page. -/
def nextCursor {α : Type} (limit : Int) (name : α → String) (page : List α) : String :=
  if page.length = limit then (page.getLast?.map name).getD "" else ""

/-- What `CapacityService` reads: the cluster callback or the repository. -/
inductive CapacitySource where
  | cluster (snapshot : ClusterGpuSnapshot)
  | repository (gpu : GpuCapacityTotals) (workers : Int → String → List Worker)

/-- `CapacityService::get`. -/
def capacityPage (source : CapacitySource) (limit : Int) (after : String) :
    Checked CapacityPage := do
  throwIf (limit < 1 || 200 < limit || 253 < after.utf8ByteSize) .invalid
    "invalid capacity pagination"
  match source with
  | .cluster snapshot =>
    let gpu ← summarize snapshot
    let nodes := pageNodes limit.toNat after snapshot.nodes []
    return .kubernetes gpu nodes (nextCursor limit (·.name) nodes)
  | .repository gpu workers =>
    let page := workers limit after
    return .docker gpu page (nextCursor limit (·.id) page)

/-- `available_estimate` of an encoded node; `none` is `null`. -/
def nodeEstimate (fresh : Bool) (node : GpuNodeCapacity) : Checked (Option Int) :=
  if fresh then
    if node.eligible then do return some (← spareGpus node.allocatable node.reserved)
    else .ok (some 0)
  else .ok none

/-- `available_estimate` of the encoded totals. -/
def ClusterTotals.availableEstimate (gpu : ClusterTotals) : Option Int :=
  if gpu.fresh then some gpu.available else none

namespace CapacityPage

def nodes : CapacityPage → List GpuNodeCapacity
  | .kubernetes _ nodes _ => nodes
  | .docker _ _ _ => []

def next : CapacityPage → String
  | .kubernetes _ _ next => next
  | .docker _ _ next => next

def totals : CapacityPage → Option ClusterTotals
  | .kubernetes gpu _ _ => some gpu
  | .docker _ _ _ => none

end CapacityPage

/-- A reader that asks for the page after the cursor of the last one until there is none. The
cluster may be another one for every page. -/
def followCluster (limit : Int) (clusters : Nat → ClusterGpuSnapshot) :
    Nat → Nat → String → Checked (List CapacityPage)
  | 0, _, _ => .ok []
  | n + 1, k, after => do
    let page ← capacityPage (.cluster (clusters k)) limit after
    if page.next = "" then return [page]
    else return page :: (← followCluster limit clusters n (k + 1) page.next)

/-! ## Totals -/

/-- What a node adds to the available GPUs. -/
def GpuNodeCapacity.spare (node : GpuNodeCapacity) : Int :=
  if node.eligible then max 0 (node.allocatable - node.reserved) else 0

theorem spareGpus_ok {a b spare : Int} (h : spareGpus a b = .ok spare) : spare = max 0 (a - b) := by
  obtain ⟨difference, hsub, h⟩ := Except.bind_eq_ok.mp h
  cases h
  rw [int64Add_ok hsub, Int.sub_eq_add_neg]

theorem summarizeNode_ok {gpu gpu' : ClusterTotals} {node : GpuNodeCapacity}
    (h : summarizeNode gpu node = .ok gpu') : gpu' = { gpu with
      capacity := gpu.capacity + node.capacity
      allocatable := gpu.allocatable + node.allocatable
      reserved := gpu.reserved + node.reserved
      available := gpu.available + node.spare } ∧
    nodeEstimate true node = .ok (some node.spare) := by
  obtain ⟨capacity, hcapacity, h⟩ := Except.bind_eq_ok.mp h
  obtain ⟨allocatable, hallocatable, h⟩ := Except.bind_eq_ok.mp h
  obtain ⟨reserved, hreserved, h⟩ := Except.bind_eq_ok.mp h
  obtain ⟨available, havailable, h⟩ := Except.bind_eq_ok.mp h
  cases h
  rw [int64Add_ok hcapacity, int64Add_ok hallocatable, int64Add_ok hreserved,
    nodeEstimate, GpuNodeCapacity.spare]
  rw [addAvailable] at havailable
  by_cases eligible : node.eligible
  · rw [if_pos eligible] at havailable
    obtain ⟨spare, hspare, havailable⟩ := Except.bind_eq_ok.mp havailable
    rw [if_pos rfl, if_pos eligible, if_pos eligible, hspare, int64Add_ok havailable,
      spareGpus_ok hspare]
    exact ⟨rfl, rfl⟩
  · rw [if_neg eligible] at havailable
    cases havailable
    rw [if_pos rfl, if_neg eligible, if_neg eligible, Int.add_zero]
    exact ⟨rfl, rfl⟩

theorem summarize_fold {nodes : List GpuNodeCapacity} {gpu gpu' : ClusterTotals}
    (h : nodes.foldlM summarizeNode gpu = .ok gpu') : gpu' = { gpu with
      capacity := gpu.capacity + (nodes.map (·.capacity)).sum
      allocatable := gpu.allocatable + (nodes.map (·.allocatable)).sum
      reserved := gpu.reserved + (nodes.map (·.reserved)).sum
      available := gpu.available + (nodes.map (·.spare)).sum } ∧
    ∀ node ∈ nodes, nodeEstimate true node = .ok (some node.spare) := by
  induction nodes generalizing gpu with
  | nil =>
    cases h
    simp
  | cons node rest ih =>
    rw [List.foldlM_cons] at h
    obtain ⟨next, hnext, h⟩ := Except.bind_eq_ok.mp h
    obtain ⟨rfl, estimate⟩ := summarizeNode_ok hnext
    obtain ⟨rfl, estimates⟩ := ih h
    refine ⟨?_, List.forall_mem_cons.mpr ⟨estimate, estimates⟩⟩
    simp only [List.map_cons, List.sum_cons, Int.add_assoc]

/-! ## Pages -/

theorem pageNodes_eq {limit : Nat} {after : String} {nodes page : List GpuNodeCapacity}
    (room : page.length ≤ limit) : pageNodes limit after nodes page =
      page ++ Cursor.page (·.name) after (limit - page.length) nodes := by
  induction nodes generalizing page with
  | nil => simp [pageNodes, Cursor.page]
  | cons node rest ih =>
    rw [pageNodes]
    by_cases passed : node.name ≤ after
    · rw [if_pos passed, ih room, Cursor.page, Cursor.page, List.filter_cons_of_neg]
      rw [decide_eq_true_eq]
      exact not_lt_of_ge passed
    · have kept : ((node :: rest).filter fun n : GpuNodeCapacity => after < n.name) =
          node :: rest.filter fun n : GpuNodeCapacity => after < n.name :=
        List.filter_cons_of_pos (decide_eq_true (not_le.mp passed))
      rw [if_neg passed, Cursor.page, kept]
      split
      next full => rw [full, Nat.sub_self, List.take_zero, List.append_nil]
      next more =>
        have less : page.length < limit := lt_of_le_of_ne room more
        have longer : (page ++ [node]).length = page.length + 1 := List.length_append
        obtain ⟨m, hm⟩ := Nat.exists_eq_add_of_lt less
        have left : limit - page.length = (limit - (page.length + 1)) + 1 := by omega
        rw [ih (by omega), longer, Cursor.page, left, List.take_succ_cons, List.append_assoc,
          List.singleton_append]

section Follow

variable {limit : Int} {clusters : Nat → ClusterGpuSnapshot} {snapshot : ClusterGpuSnapshot}
  {gpu : ClusterTotals} {after : String}

theorem capacityPage_cluster (lower : 1 ≤ limit) (upper : limit ≤ 200)
    (short : after.utf8ByteSize ≤ 253) (fits : summarize snapshot = .ok gpu) :
    capacityPage (.cluster snapshot) limit after =
      .ok (.kubernetes gpu (Cursor.page (·.name) after limit.toNat snapshot.nodes)
        (nextCursor limit (·.name) (Cursor.page (·.name) after limit.toNat snapshot.nodes))) := by
  have guard : (limit < 1 || 200 < limit || 253 < after.utf8ByteSize) = false := by
    simp only [Bool.or_eq_false_iff, decide_eq_false_iff_not]
    omega
  have whole : pageNodes limit.toNat after snapshot.nodes [] =
      Cursor.page (·.name) after limit.toNat snapshot.nodes := pageNodes_eq (Nat.zero_le _)
  rw [capacityPage, guard, whole]
  refine Except.bind_eq_ok.mpr ⟨(), rfl, Except.bind_eq_ok.mpr ⟨gpu, fits, rfl⟩⟩

/-- The cursor of a page is empty exactly where the page is not full; else the next page begins
after the last node. -/
theorem nextCursor_spec (after : String) {page : List GpuNodeCapacity} (lower : 1 ≤ limit)
    (named : ∀ node ∈ page, node.name ≠ "") (atMost : page.length ≤ limit.toNat) :
    (nextCursor limit (·.name) page = "" ↔ page.length < limit.toNat) ∧
    (page.length = limit.toNat →
      nextCursor limit (·.name) page = Cursor.position (·.name) after page) := by
  by_cases full : page.length = limit.toNat
  · have same : (page.length : Int) = limit := by omega
    have some : page ≠ [] := by
      apply List.ne_nil_of_length_pos
      omega
    obtain ⟨last, hlast⟩ := Option.isSome_iff_exists.mp (List.getLast?_isSome.mpr some)
    have next : nextCursor limit (·.name) page = last.name := by
      rw [nextCursor, if_pos same, hlast]
      rfl
    have position : Cursor.position (·.name) after page = last.name := by
      rw [Cursor.position, hlast]
      rfl
    rw [next, position]
    refine ⟨⟨fun empty => absurd empty (named last (List.mem_of_getLast? hlast)), ?_⟩,
      fun _ => rfl⟩
    intro less
    omega
  · have different : ¬(page.length : Int) = limit := by omega
    rw [nextCursor, if_neg different]
    exact ⟨⟨fun _ => lt_of_le_of_ne atMost full, fun _ => rfl⟩, fun same => absurd same full⟩

/-- The reader gets the pages of the clusters' nodes. -/
theorem followCluster_ok (after : String) (lower : 1 ≤ limit) (upper : limit ≤ 200)
    (named : ∀ k, ∀ node ∈ (clusters k).nodes, node.name ≠ "" ∧ node.name.utf8ByteSize ≤ 253)
    (fits : ∀ k, ∃ gpu, summarize (clusters k) = .ok gpu) (n k : Nat)
    (short : after.utf8ByteSize ≤ 253) :
    ∃ pages, followCluster limit clusters n k after = .ok pages ∧
      pages.map (·.nodes) =
        Cursor.follow (·.name) limit.toNat (fun k => (clusters k).nodes) n k after ∧
      (∀ page ∈ pages, page.next = "" ↔ page.nodes.length < limit.toNat) ∧
      ∀ page ∈ pages, ∃ j gpu, summarize (clusters j) = .ok gpu ∧ page.totals = some gpu := by
  induction n generalizing k after with
  | zero => exact ⟨[], rfl, rfl, List.forall_mem_nil _, List.forall_mem_nil _⟩
  | succ n ih =>
    obtain ⟨gpu, hgpu⟩ := fits k
    have read := capacityPage_cluster lower upper short hgpu
    rw [followCluster, read, Cursor.follow]
    have member : ∀ node ∈ Cursor.page (·.name) after limit.toNat (clusters k).nodes,
        node ∈ (clusters k).nodes :=
      fun node hnode => List.mem_of_mem_filter (List.mem_of_mem_take hnode)
    have atMost : (Cursor.page (·.name) after limit.toNat (clusters k).nodes).length ≤
        limit.toNat := List.length_take_le _ _
    generalize Cursor.page (·.name) after limit.toNat (clusters k).nodes = page at *
    obtain ⟨ends, continues⟩ := nextCursor_spec after lower
      (fun node hnode => (named k node (member node hnode)).1) atMost
    by_cases full : page.length = limit.toNat
    · have more : nextCursor limit (·.name) page ≠ "" := by
        intro empty
        exact absurd full (Nat.ne_of_lt (ends.mp empty))
      have nextShort : (Cursor.position (·.name) after page).utf8ByteSize ≤ 253 := by
        rw [Cursor.position]
        cases hlast : page.getLast? with
        | none => exact short
        | some last => exact (named k last (member last (List.mem_of_getLast? hlast))).2
      obtain ⟨pages, hpages, nodes, cursors, totals⟩ := ih _ (k + 1) nextShort
      rw [if_pos full]
      refine ⟨.kubernetes gpu page (nextCursor limit GpuNodeCapacity.name page) :: pages,
        Except.bind_eq_ok.mpr ⟨_, rfl, ?_⟩, congrArg₂ List.cons rfl nodes,
        List.forall_mem_cons.mpr ⟨ends, cursors⟩,
        List.forall_mem_cons.mpr ⟨⟨k, gpu, hgpu, rfl⟩, totals⟩⟩
      rw [CapacityPage.next, if_neg more, continues full, hpages]
      rfl
    · rw [if_neg full]
      have last : nextCursor limit (·.name) page = "" := ends.mpr (lt_of_le_of_ne atMost full)
      exact ⟨[.kubernetes gpu page _], Except.bind_eq_ok.mpr ⟨_, rfl, if_pos last⟩, rfl,
        List.forall_mem_singleton.mpr ends,
        List.forall_mem_singleton.mpr ⟨k, gpu, hgpu, rfl⟩⟩

/-- Once an empty cursor was seen, the pages of the clusters' nodes have ended. -/
theorem follow_ended {pages : List CapacityPage} {n k : Nat}
    (nodes : pages.map (·.nodes) =
      Cursor.follow (·.name) limit.toNat (fun k => (clusters k).nodes) n k after)
    (cursors : ∀ page ∈ pages, page.next = "" ↔ page.nodes.length < limit.toNat) :
    (∃ page ∈ pages, page.next = "") ↔
      ∃ next ∈ Cursor.follow (·.name) limit.toNat (fun k => (clusters k).nodes) n k after,
        next.length < limit.toNat := by
  rw [← nodes]
  constructor
  · rintro ⟨page, hpage, empty⟩
    exact ⟨page.nodes, List.mem_map_of_mem hpage, (cursors page hpage).mp empty⟩
  · rintro ⟨next, hnext, less⟩
    obtain ⟨page, hpage, rfl⟩ := List.mem_map.mp hnext
    exact ⟨page, hpage, (cursors page hpage).mpr less⟩

theorem capacityPage_refused (source : CapacitySource) (long : 253 < after.utf8ByteSize) :
    capacityPage source limit after =
      .error (.thrown (.program (.error .invalid "invalid capacity pagination"))) := by
  have guard : (limit < 1 || 200 < limit || 253 < after.utf8ByteSize) = true := by
    rw [decide_eq_true long, Bool.or_true]
  unfold capacityPage
  rw [guard]
  rfl

/-- The whole of a cluster: the totals are the sums over the nodes. -/
structure ClusterTotals.Sums (gpu : ClusterTotals) (nodes : List GpuNodeCapacity) : Prop where
  capacity : gpu.capacity = (nodes.map (·.capacity)).sum
  allocatable : gpu.allocatable = (nodes.map (·.allocatable)).sum
  reserved : gpu.reserved = (nodes.map (·.reserved)).sum
  /-- What `encode` writes for the nodes and for the totals. -/
  fresh : gpu.fresh → ∃ estimates : List Int,
    nodes.mapM (nodeEstimate gpu.fresh) = .ok (estimates.map some) ∧
    gpu.availableEstimate = some estimates.sum
  stale : ¬gpu.fresh →
    nodes.mapM (nodeEstimate gpu.fresh) = .ok (nodes.map fun _ => none) ∧
    gpu.availableEstimate = none

theorem summarize_sums (h : summarize snapshot = .ok gpu) : gpu.Sums snapshot.nodes := by
  obtain ⟨total, estimates⟩ := summarize_fold h
  have available : gpu.available = (snapshot.nodes.map (·.spare)).sum := by
    rw [total]
    exact Int.zero_add _
  refine ⟨?_, ?_, ?_, ?_, ?_⟩
  · rw [total]
    exact Int.zero_add _
  · rw [total]
    exact Int.zero_add _
  · rw [total]
    exact Int.zero_add _
  · intro fresh
    refine ⟨snapshot.nodes.map (·.spare), ?_, ?_⟩
    · rw [List.map_map, fresh]
      exact Except.mapM_eq_ok estimates
    · rw [ClusterTotals.availableEstimate, if_pos fresh, available]
  · intro stale
    rw [ClusterTotals.availableEstimate, if_neg stale, Bool.eq_false_iff.mpr stale]
    exact ⟨Except.mapM_eq_ok fun _ _ => rfl, rfl⟩

/-- Every accepted request has the totals of the whole cluster. -/
theorem capacityPage_totals {page : CapacityPage}
    (h : capacityPage (.cluster snapshot) limit after = .ok page) :
    ∃ gpu, summarize snapshot = .ok gpu ∧ page.totals = some gpu := by
  obtain ⟨_, _, h⟩ := Except.bind_eq_ok.mp h
  obtain ⟨gpu, hgpu, h⟩ := Except.bind_eq_ok.mp h
  cases h
  exact ⟨gpu, hgpu, rfl⟩

/-- Following the cursor reads, in order and once, every node that stays; it ends where there are
finitely many nodes, and reads a cluster that does not change up to its totals. -/
theorem capacity_paging (lower : 1 ≤ limit) (upper : limit ≤ 200)
    (sorted : ∀ k, Cursor.Increasing (·.name) (clusters k).nodes)
    (named : ∀ k, ∀ node ∈ (clusters k).nodes, node.name ≠ "" ∧ node.name.utf8ByteSize ≤ 253)
    (fits : ∀ k, ∃ gpu, summarize (clusters k) = .ok gpu) :
    (∀ n, ∃ pages, followCluster limit clusters n 0 "" = .ok pages ∧
      Cursor.Increasing (·.name) (pages.flatMap (·.nodes)) ∧
      ((∃ page ∈ pages, page.next = "") →
        ∀ name, (∀ k < pages.length, ∃ node ∈ (clusters k).nodes, node.name = name) →
          ((pages.flatMap (·.nodes)).map (·.name)).count name = 1)) ∧
    (∀ names : Finset String, (∀ k, ∀ node ∈ (clusters k).nodes, node.name ∈ names) →
      ∃ pages, followCluster limit clusters (names.card + 1) 0 "" = .ok pages ∧
        ∃ page ∈ pages, page.next = "") ∧
    ∀ snapshot, (∀ k, clusters k = snapshot) → ∃ gpu, summarize snapshot = .ok gpu ∧
      (∀ limit after page, capacityPage (.cluster snapshot) limit after = .ok page →
        page.totals = some gpu) ∧
      ∀ n pages, followCluster limit clusters n 0 "" = .ok pages →
        (∃ page ∈ pages, page.next = "") →
        (∀ page ∈ pages, page.totals = some gpu) ∧ gpu.Sums (pages.flatMap (·.nodes)) := by
  refine ⟨fun n => ?_, fun names known => ?_, fun snapshot constant => ?_⟩
  · obtain ⟨pages, hpages, nodes, cursors, _⟩ :=
      followCluster_ok "" lower upper named fits n 0 (by decide)
    have increasing : Cursor.Increasing (·.name)
        (Cursor.follow (·.name) limit.toNat (fun k => (clusters k).nodes) n 0 "").flatten :=
      Cursor.follow_increasing sorted
    have all : (Cursor.follow (·.name) limit.toNat (fun k => (clusters k).nodes) n 0 "").flatten =
        pages.flatMap (·.nodes) := by rw [← nodes, List.flatMap_def]
    rw [all] at increasing
    refine ⟨pages, hpages, increasing, fun ended name present => ?_⟩
    have distinct : ((pages.flatMap (·.nodes)).map (·.name)).Nodup :=
      List.pairwise_map.mpr (increasing.imp fun hless => hless.ne)
    apply List.count_eq_one_of_mem distinct
    have read : (Cursor.follow (·.name) limit.toNat (fun k => (clusters k).nodes) n 0 "").length =
        pages.length := by rw [← nodes, List.length_map]
    rw [← read] at present
    obtain ⟨first, hfirst, hname⟩ := present 0 (by
      obtain ⟨page, hpage, _⟩ := ended
      rw [read]
      exact List.length_pos_of_mem hpage)
    have above : "" < name := empty_lt (hname ▸ (named 0 first hfirst).1)
    obtain ⟨node, hnode, same⟩ := Cursor.follow_complete sorted
      ((follow_ended nodes cursors).mp ended) (fun j hj => by
        rw [Nat.zero_add]
        exact present j hj) above
    rw [all] at hnode
    exact List.mem_map.mpr ⟨node, hnode, same⟩
  · obtain ⟨pages, hpages, nodes, cursors, _⟩ :=
      followCluster_ok "" lower upper named fits (names.card + 1) 0 (by decide)
    refine ⟨pages, hpages, (follow_ended nodes cursors).mpr ?_⟩
    apply Cursor.follow_ends (by omega) names known
    exact Nat.lt_succ_of_le (Finset.card_filter_le _ _)
  · obtain rfl : clusters = fun _ => snapshot := funext constant
    obtain ⟨gpu, hgpu⟩ := fits 0
    refine ⟨gpu, hgpu, fun limit after page hpage => ?_, fun n pages hpages ended => ?_⟩
    · obtain ⟨gpu', hgpu', totals⟩ := capacityPage_totals hpage
      cases hgpu.symm.trans hgpu'
      exact totals
    · obtain ⟨pages', hpages', nodes, cursors, totals⟩ :=
        followCluster_ok "" lower upper named fits n 0 (by decide)
      cases hpages.symm.trans hpages'
      constructor
      · intro page hpage
        obtain ⟨_, gpu', hgpu', htotals⟩ := totals page hpage
        cases hgpu.symm.trans hgpu'
        exact htotals
      · have whole := Cursor.follow_constant (sorted 0) ((follow_ended nodes cursors).mp ended)
        rw [← nodes, ← List.flatMap_def] at whole
        rw [whole, List.filter_eq_self.mpr]
        · exact summarize_sums hgpu
        · intro node hnode
          exact decide_eq_true (empty_lt (named 0 node hnode).1)

end Follow

/-- Two nodes with one free GPU each, which do not change. -/
def twoNodes : ClusterGpuSnapshot where
  nodes := [⟨"a", 2, 2, 1, true, true, true⟩, ⟨"b", 1, 1, 0, true, true, true⟩]
  fresh := true

/-- A page for each node and the empty one. -/
theorem capacity_paging_pair : ∃ pages, followCluster 1 (fun _ => twoNodes) 3 0 "" = .ok pages ∧
    ∃ page ∈ pages, page.next = "" :=
  (capacity_paging (by decide) (by decide) (fun _ => by unfold Cursor.Increasing; decide)
    (fun _ => by decide) (fun _ => ⟨_, rfl⟩)).2.1 {"a", "b"} (fun _ => by decide)

/-- One node with a name of 254 bytes. -/
def longName : ClusterGpuSnapshot where
  nodes := [⟨String.ofList (List.replicate 254 'a'), 1, 1, 0, true, true, true⟩]

/-- More GPUs than 64 bits can count. -/
def manyGpus : ClusterGpuSnapshot where
  nodes := [⟨"a", 2 ^ 63 - 1, 1, 0, true, true, true⟩, ⟨"b", 1, 1, 0, true, true, true⟩]

/-- A cursor of more than 253 bytes is refused, and totals above 64 bits have no value: there is
no next page, or none at all. -/
theorem capacity_paging_refused :
    (Cursor.Increasing (·.name) longName.nodes ∧ (∀ node ∈ longName.nodes, node.name ≠ "") ∧
      ¬∃ pages, followCluster 1 (fun _ => longName) 2 0 "" = .ok pages) ∧
    Cursor.Increasing (·.name) manyGpus.nodes ∧ (∀ node ∈ manyGpus.nodes, node.name ≠ "") ∧
      ¬∃ pages, followCluster 1 (fun _ => manyGpus) 1 0 "" = .ok pages := by
  have size : (String.ofList (List.replicate 254 'a')).utf8ByteSize = 254 :=
    utf8ByteSize_replicate (by decide) 254
  have named : String.ofList (List.replicate 254 'a') ≠ "" := by
    intro empty
    rw [empty] at size
    cases size
  constructor
  · refine ⟨List.pairwise_singleton _ _, List.forall_mem_singleton.mpr named, ?_⟩
    rintro ⟨pages, hpages⟩
    obtain ⟨page, hpage, hpages⟩ := Except.bind_eq_ok.mp hpages
    have first : Cursor.page (·.name) "" 1 longName.nodes = longName.nodes := by
      rw [Cursor.page, List.filter_eq_self.mpr]
      · rfl
      · exact List.forall_mem_singleton.mpr (decide_eq_true (empty_lt named))
    have fits : summarize longName = .ok ⟨1, 1, 0, 1, 0, false, "", none⟩ := rfl
    rw [capacityPage_cluster (by decide) (by decide) (by decide) fits, Int.toNat_one,
      first] at hpage
    cases hpage
    have next : nextCursor 1 (·.name) longName.nodes = String.ofList (List.replicate 254 'a') := rfl
    rw [CapacityPage.next, next, if_neg named] at hpages
    obtain ⟨_, hrest, _⟩ := Except.bind_eq_ok.mp hpages
    obtain ⟨_, hpage, _⟩ := Except.bind_eq_ok.mp hrest
    rw [capacityPage_refused _ (by omega)] at hpage
    cases hpage
  · refine ⟨by unfold Cursor.Increasing; decide, by decide, ?_⟩
    rintro ⟨pages, hpages⟩
    cases hpages

end Runyard
