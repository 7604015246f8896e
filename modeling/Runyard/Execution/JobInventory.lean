import Runyard.Cluster.Demand
import Runyard.Cluster.Refresh
import Runyard.Execution.Launching
import Runyard.Walk

/-!
# Listing loops

`each_page` and `inventory` follow the `continue` tokens of the cluster. The first has a limit of
items, a deadline and a set of tokens; the second trusts the server.
-/

namespace Runyard

namespace KubernetesBackend

/-- What a request is answered with, or the exception of the HTTP client. -/
abbrev Answer := String → Result HttpResult

variable (b : KubernetesBackend) (escape : String → String)

def jobs : String := "/apis/batch/v1/namespaces/" ++ escape b.config.nameSpace ++ "/jobs"

def inventoryPath (cursor : String) : String :=
  b.jobs escape ++
    "?labelSelector=app.kubernetes.io%2Fmanaged-by%3Drunyard&limit=100&continue=" ++ escape cursor

/-- `kubernetes_request`. -/
def fetch (answer : Answer) (path : String) : Result HttpResult := do
  let result ← answer path
  throwIf (500 ≤ result.status || result.status = 429) .unavailable "Kubernetes API unavailable"
  return result

def attemptLabel (job : Json Number) : Json.Access String := do
  (← (← (← job.field "metadata").field "labels").field "runyard.attempt").getString

/-- `result.push_back`. -/
def pushLabel (result : List String) (job : Json Number) : Decoding (List String) := do
  return result ++ [← attemptLabel job]

/-- One turn of the loop, with the result and the next cursor. -/
def inventoryPage (result : List String) (cursor : String) (answer : Answer) :
    Decoding (List String × String) := do
  let response ← fetch answer (b.inventoryPath escape cursor)
  throwIf (response.status ≠ 200) .unavailable "cannot list Kubernetes Jobs"
  let body ← b.parse response.body
  let items ← body.field "items"
  let result ← items.elements.foldlM pushLabel result
  let cursor ← (← body.field "metadata").valueOr "continue" "" Json.getString
  return (result, cursor)

/-- The loop over the answers to its requests; `none` while it waits for another one. -/
def inventory (result : List String) (cursor : String) :
    List Answer → Option (Decoding (List String))
  | [] => none
  | answer :: rest =>
    match b.inventoryPage escape result cursor answer with
    | .error e => some (.error e)
    | .ok (result, cursor) =>
      if cursor = "" then some (.ok result) else inventory result cursor rest

/-- The token of an answer, where it is a page with another one after it. -/
def nextToken (answer : Answer) (cursor : String) : Option String :=
  match b.inventoryPage escape [] cursor answer with
  | .ok (_, token) => if token = "" then none else some token
  | .error _ => none

/-- The answer is a page with these items and this token. -/
def JobPage (answer : Answer) (cursor : String) (items : List (Json Number)) (next : String) :
    Prop :=
  ∃ body page list metadata, answer (b.inventoryPath escape cursor) = .ok ⟨200, body⟩ ∧
    b.parse body = .ok page ∧ page.field "items" = .ok list ∧ list.elements = items ∧
    page.field "metadata" = .ok metadata ∧
    metadata.valueOr "continue" "" Json.getString = .ok next

/-- The answers are pages with these items, up to one without a token. -/
inductive JobPages : String → List Answer → List (Json Number) → Prop where
  | last {cursor : String} {answer : Answer} {rest : List Answer} {items : List (Json Number)} :
      b.JobPage escape answer cursor items "" → JobPages cursor (answer :: rest) items
  | more {cursor next : String} {answer : Answer} {rest : List Answer}
      {items later : List (Json Number)} : b.JobPage escape answer cursor items next →
      next ≠ "" → JobPages next rest later → JobPages cursor (answer :: rest) (items ++ later)

variable {b escape}

theorem pushLabel_ok {job : Json Number} {result r : List String} :
    pushLabel result job = .ok r ↔ ∃ id, attemptLabel job = .ok id ∧ r = result ++ [id] := by
  simp only [pushLabel, Except.bind_eq_ok, Decoding.lift_access_ok, Except.pure_eq,
    Except.ok.injEq]
  exact exists_congr fun id => and_congr_right fun _ => eq_comm

theorem labels_ok {items : List (Json Number)} {result r : List String} :
    items.foldlM pushLabel result = .ok r ↔
      ∃ ids, List.Forall₂ (fun job id => attemptLabel job = .ok id) items ids ∧
        r = result ++ ids := by
  induction items generalizing result with
  | nil =>
    simp only [List.foldlM_nil, Except.pure_eq, Except.ok.injEq, List.forall₂_nil_left_iff,
      exists_eq_left, List.append_nil]
    exact eq_comm
  | cons job items ih =>
    simp only [List.foldlM_cons, Except.bind_eq_ok, pushLabel_ok, ih]
    constructor
    · rintro ⟨_, ⟨id, label, rfl⟩, ids, labels, rfl⟩
      exact ⟨id :: ids, .cons label labels, by simp⟩
    · rintro ⟨_, labels, rfl⟩
      cases labels with
      | @cons _ id _ ids label labels =>
        exact ⟨_, ⟨id, label, rfl⟩, ids, labels, by simp⟩

theorem inventoryPage_ok {result r : List String} {cursor next : String} {answer : Answer} :
    b.inventoryPage escape result cursor answer = .ok (r, next) ↔
      ∃ items ids, b.JobPage escape answer cursor items next ∧
        List.Forall₂ (fun job id => attemptLabel job = .ok id) items ids ∧ r = result ++ ids := by
  simp only [inventoryPage, fetch, Except.bind_eq_ok, Decoding.lift_result_eq_ok,
    Decoding.lift_access_ok, Result.throwIf_ok, exists_const, Except.pure_eq, Except.ok.injEq,
    labels_ok, Prod.mk.injEq]
  constructor
  · rintro ⟨⟨status, body⟩, ⟨_, answered, _, rfl⟩, ok, page, parsed, list, found, _,
      ⟨ids, labels, rfl⟩, metadata, hmetadata, _, token, rfl, rfl⟩
    simp only [ne_eq, decide_not, Bool.not_eq_true', decide_eq_false_iff_not, not_not] at ok
    subst ok
    exact ⟨list.elements, ids, ⟨body, page, list, metadata, answered, parsed, found, rfl,
      hmetadata, token⟩, labels, rfl⟩
  · rintro ⟨items, ids, ⟨body, page, list, metadata, answered, parsed, found, rfl, hmetadata,
      token⟩, labels, rfl⟩
    exact ⟨⟨200, body⟩, ⟨_, answered, by simp, rfl⟩, by simp, page, parsed, list, found, _,
      ⟨ids, labels, rfl⟩, metadata, hmetadata, next, token, rfl, rfl⟩

/-- The result is what the pages list, in their order. -/
theorem inventory_ok {answers : List Answer} {result r : List String} {cursor : String}
    (h : b.inventory escape result cursor answers = some (.ok r)) :
    ∃ items ids, b.JobPages escape cursor answers items ∧
      List.Forall₂ (fun job id => attemptLabel job = .ok id) items ids ∧ r = result ++ ids := by
  induction answers generalizing result cursor with
  | nil => cases h
  | cons answer rest ih =>
    rw [inventory] at h
    split at h
    · cases h
    next result' next page =>
      obtain ⟨items, ids, given, labels, rfl⟩ := inventoryPage_ok.mp page
      split at h
      next last =>
        cases h
        exact ⟨items, ids, .last (last ▸ given), labels, rfl⟩
      next more =>
        obtain ⟨later, others, pages, labelled, rfl⟩ := ih h
        refine ⟨items ++ later, ids ++ others, .more given more pages, ?_, by simp⟩
        exact List.rel_append labels labelled

/-- What is collected so far does not change which page comes next. -/
theorem nextToken_some {answer : Answer} {cursor next : String} (result : List String) :
    b.nextToken escape answer cursor = some next ↔
      next ≠ "" ∧ ∃ r, b.inventoryPage escape result cursor answer = .ok (r, next) := by
  have same : (∃ r, b.inventoryPage escape result cursor answer = .ok (r, next)) ↔
      ∃ r, b.inventoryPage escape [] cursor answer = .ok (r, next) := by
    simp only [inventoryPage_ok]
    constructor
    · rintro ⟨_, items, ids, page, labels, _⟩
      exact ⟨_, items, ids, page, labels, rfl⟩
    · rintro ⟨_, items, ids, page, labels, _⟩
      exact ⟨_, items, ids, page, labels, rfl⟩
  rw [same, nextToken]
  cases hpage : b.inventoryPage escape [] cursor answer with
  | error e => simp
  | ok found =>
    obtain ⟨r, token⟩ := found
    dsimp only
    constructor
    · intro h
      split at h
      · cases h
      next more =>
        cases h
        exact ⟨more, r, rfl⟩
    · rintro ⟨more, _, h⟩
      cases h
      exact if_neg more

/-- There is no token after a page that fails or that is the last one. -/
theorem nextToken_none {answer : Answer} {cursor : String} (result : List String)
    (ended : ∀ r next, b.inventoryPage escape result cursor answer = .ok (r, next) → next = "") :
    b.nextToken escape answer cursor = none := by
  refine Option.eq_none_iff_forall_ne_some.mpr fun next h => ?_
  obtain ⟨more, r, found⟩ := (nextToken_some result).mp h
  exact more (ended r next found)

/-- The loop still waits after `n` answers where the tokens go on after `n` pages. -/
theorem inventory_none {answers : Nat → Answer} {result : List String} {cursor : String}
    (n : Nat) : b.inventory escape result cursor ((List.range n).map answers) = none ↔
      Walk.after (fun k => b.nextToken escape (answers k)) cursor n ≠ none := by
  induction n generalizing answers result cursor with
  | zero => simp [inventory, Walk.after]
  | succ n ih =>
    rw [List.range_succ_eq_map, List.map_cons, List.map_map, inventory, Walk.after_succ]
    split
    next e failed =>
      rw [nextToken_none result fun r next found => by cases failed.symm.trans found]
      simp
    next r next found =>
      split
      next last =>
        have ended : b.nextToken escape (answers 0) cursor = none :=
          nextToken_none result fun r' next' found' => by
            cases found.symm.trans found'
            exact last
        rw [ended]
        simp
      next more =>
        rw [(nextToken_some result).mpr ⟨more, r, found⟩, Option.bind_some]
        exact ih

/-- `inventory` comes to an end exactly where the tokens of its answers do. -/
theorem inventory_ends (answers : Nat → Answer) :
    (∃ n r, b.inventory escape [] "" ((List.range n).map answers) = some r) ↔
      Walk.Ends (fun k => b.nextToken escape (answers k)) "" := by
  refine exists_congr fun n => ?_
  rw [← Option.ne_none_iff_exists', ← not_iff_not, not_not]
  exact inventory_none n

end KubernetesBackend

/-- A request that is made too late ends the loop. -/
theorem KubernetesCapacity.eachPage_ends {c : KubernetesCapacity} {σ : Type} {resource : String}
    {consume : σ → Json Number → Checked σ} {deadline : Int} {x : PageExchange}
    {exchanges : List PageExchange} (late : x ∈ exchanges) (after : deadline ≤ x.now)
    (scan : Scan σ) : ∃ r, c.eachPage resource consume deadline scan exchanges = some r := by
  induction exchanges generalizing scan with
  | nil => cases late
  | cons first rest ih =>
    rw [eachPage]
    split
    · exact ⟨_, rfl⟩
    next next page =>
      split
      · exact ⟨_, rfl⟩
      · rcases List.mem_cons.mp late with rfl | late
        · obtain ⟨_, gives, _⟩ := onePage_ok.mp page
          have intime := gives.2.1
          omega
        · exact ih late next

open KubernetesBackend in
/-- The loop over the resources of the cluster ends at its deadline at the latest, whatever the
server answers. The loop over the Jobs ends exactly where the tokens of the server come to an end;
a server with finitely many tokens keeps it forever if and only if one comes twice. Both return
the items of all pages in their order. -/
theorem listing_loops (c : KubernetesCapacity) (b : KubernetesBackend)
    (escape : String → String) :
    (∀ {σ : Type} (resource : String) (consume : σ → Json Number → Checked σ) (deadline : Int)
      (state : σ) (exchanges : Nat → PageExchange), (∃ i, deadline ≤ (exchanges i).now) →
      ∃ n r, c.eachPage resource consume deadline { state := state }
          ((List.range n).map exchanges) = some r ∧
        ∀ s, r = .ok s → ∃ items,
          KubernetesCapacity.Lists c resource deadline [] "" ((List.range n).map exchanges) items ∧
          items.foldlM consume state = .ok s) ∧
    (∀ answers : Nat → Answer,
      ((∃ n r, b.inventory escape [] "" ((List.range n).map answers) = some r) ↔
        Walk.Ends (fun k => b.nextToken escape (answers k)) "") ∧
      ∀ n r, b.inventory escape [] "" ((List.range n).map answers) = some (.ok r) →
        ∃ items, b.JobPages escape "" ((List.range n).map answers) items ∧
          List.Forall₂ (fun job id => attemptLabel job = .ok id) items r) ∧
    ∀ answer : Answer,
      {token | ∃ n, Walk.after (fun _ => b.nextToken escape answer) "" n = some token}.Finite →
      ((∃ n r, b.inventory escape [] "" ((List.range n).map fun _ => answer) = some r) ↔
        ∀ i j token, i < j → Walk.after (fun _ => b.nextToken escape answer) "" i = some token →
          Walk.after (fun _ => b.nextToken escape answer) "" j ≠ some token) := by
  refine ⟨?_, fun answers => ⟨inventory_ends answers, ?_⟩, fun answer finite => ?_⟩
  · intro σ resource consume deadline state exchanges ⟨i, late⟩
    have asked : exchanges i ∈ (List.range (i + 1)).map exchanges :=
      List.mem_map_of_mem (List.mem_range.mpr (Nat.lt_succ_self i))
    obtain ⟨r, ends⟩ : ∃ r, c.eachPage resource consume deadline { state := state }
        ((List.range (i + 1)).map exchanges) = some r :=
      KubernetesCapacity.eachPage_ends asked late _
    refine ⟨i + 1, r, ends, ?_⟩
    rintro s rfl
    obtain ⟨items, lists, _, folded⟩ := (KubernetesCapacity.eachPage_ok (Nat.zero_le _)).mp ends
    exact ⟨items, lists, folded⟩
  · intro n r ends
    obtain ⟨items, ids, pages, labels, rfl⟩ := inventory_ok ends
    exact ⟨items, pages, labels⟩
  · rw [inventory_ends]
    exact Walk.ends_iff finite

namespace Sample

/-- A page without Jobs. -/
def jobPage (token : String) : Json Number :=
  .object [("items", .array []), ("metadata", .object [("continue", .string token)])]

def answerPage (token : String) : KubernetesBackend.Answer :=
  fun _ => .ok ⟨200, FloatText.exact.dump (jobPage token)⟩

theorem jobPage_parses (token : String) :
    parse (FloatText.exact.dump (jobPage token)) = .ok (jobPage token) := by
  have valid : (jobPage token).Valid (·.isFinite) fun _ => True :=
    .pair (by decide +kernel) trivial trivial (.array (by simp)) (.single trivial (.string trivial))
  rw [parse, FloatText.exact.parse_dump valid]
  rfl

theorem jobPage_given (token cursor : String) :
    kubernetesBackend.JobPage id (answerPage token) cursor [] token := by
  refine ⟨FloatText.exact.dump (jobPage token), jobPage token, .array [],
    .object [("continue", .string token)], rfl, ?_, rfl, rfl, rfl, rfl⟩
  dsimp only [kubernetesBackend]
  exact jobPage_parses token

theorem jobPage_next (token cursor : String) :
    kubernetesBackend.inventoryPage id [] cursor (answerPage token) = .ok ([], token) :=
  KubernetesBackend.inventoryPage_ok.mpr ⟨[], [], jobPage_given token cursor, .nil, rfl⟩

end Sample

/-- A listing of the cluster after its deadline, and an empty page of Jobs without a token. -/
theorem listing_loops_last :
    (∃ n r, Sample.collector.eachPage "/api/v1/nodes" Sample.collector.nodeStep 0 { state := [] }
      ((List.range n).map fun _ => ⟨false, 0, fun _ => .ok ⟨200, ""⟩⟩) = some r) ∧
    (∃ items, Sample.kubernetesBackend.JobPages id "" [Sample.answerPage ""] items) ∧
    ∃ n r, Sample.kubernetesBackend.inventory id [] ""
      ((List.range n).map fun _ => Sample.answerPage "") = some r := by
  obtain ⟨scans, lists, steady⟩ := listing_loops Sample.collector Sample.kubernetesBackend id
  have only : Sample.kubernetesBackend.nextToken id (Sample.answerPage "") "" = none :=
    KubernetesBackend.nextToken_none [] fun r next found => by
      cases (Sample.jobPage_next "" "").symm.trans found
      rfl
  have ended {n : Nat} (positive : 0 < n) :
      Walk.after (fun _ => Sample.kubernetesBackend.nextToken id (Sample.answerPage "")) "" n =
        none := by
    refine Walk.after_none (i := 1) ?_ positive
    rw [Walk.after, Walk.after, Option.bind_some, only]
  refine ⟨?_, ?_, ?_⟩
  · obtain ⟨n, r, ends, _⟩ := scans "/api/v1/nodes" Sample.collector.nodeStep 0 []
      (fun _ => ⟨false, 0, fun _ => .ok ⟨200, ""⟩⟩) ⟨0, le_refl 0⟩
    exact ⟨n, r, ends⟩
  · have answered : Sample.kubernetesBackend.inventory id [] "" [Sample.answerPage ""] =
        some (.ok []) := by
      rw [KubernetesBackend.inventory, Sample.jobPage_next]
      rfl
    have once : (List.range 1).map (fun _ => Sample.answerPage "") = [Sample.answerPage ""] := rfl
    rw [← once] at answered
    obtain ⟨items, pages, _⟩ := (lists fun _ => Sample.answerPage "").2 1 [] answered
    rw [once] at pages
    exact ⟨items, pages⟩
  · refine (steady (Sample.answerPage "") ?_).mpr fun i j token lt _ again => ?_
    · refine Set.Finite.subset (Set.finite_singleton "") ?_
      rintro token ⟨n, here⟩
      rcases Nat.eq_zero_or_pos n with rfl | positive
      · exact (Option.some.inj here).symm
      · rw [ended positive] at here
        cases here
    · rw [ended (by omega)] at again
      cases again

/-- A server that answers each request with the same token. -/
theorem listing_loops_repeated : ¬∃ n r, Sample.kubernetesBackend.inventory id [] ""
    ((List.range n).map fun _ => Sample.answerPage "same") = some r := by
  have next (cursor : String) :
      Sample.kubernetesBackend.nextToken id (Sample.answerPage "same") cursor = some "same" :=
    (KubernetesBackend.nextToken_some []).mpr ⟨by decide, [], Sample.jobPage_next "same" cursor⟩
  rw [KubernetesBackend.inventory_ends]
  have first : Walk.after (fun _ => Sample.kubernetesBackend.nextToken id
      (Sample.answerPage "same")) "" 1 = some "same" := by
    rw [Walk.after, Walk.after, Option.bind_some, next]
  refine Walk.not_ends_of_returns first ?_ (by decide : 1 < 2)
  rw [Walk.after, first, Option.bind_some, next]

end Runyard
