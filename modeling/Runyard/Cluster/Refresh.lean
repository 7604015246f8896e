import Runyard.Cluster.Demand
import Runyard.Cluster.Snapshot

/-!
# Refreshing the snapshot

The loop over pages computes a fold over the listed items, however they are split. A refresh
that fails anywhere leaves what was published and marks it as not fresh.
-/

namespace Runyard

namespace KubernetesCapacity

variable {c : KubernetesCapacity} {σ : Type} {resource : String} {deadline : Int}
  {consume : σ → Json Number → Checked σ}

/-! ## Pages -/

/-- A request that is made in time is answered by a page with the items and the next cursor. -/
def Gives (c : KubernetesCapacity) (resource : String) (deadline : Int) (x : PageExchange)
    (cursor : String) (items : List (Json Number)) (next : String) : Prop :=
  x.stopRequested = false ∧ x.now < deadline ∧ ∃ body page list metadata,
    x.fetch (c.path resource cursor) = .ok ⟨200, body⟩ ∧ c.text.parse body = some page ∧
      page.field "items" = .ok list ∧ list.elements = items ∧
      page.field "metadata" = .ok metadata ∧
      metadata.valueOr "continue" "" Json.getString = .ok next

/-- The exchanges list the items in pages. No cursor comes twice, and the last page has none. -/
inductive Lists (c : KubernetesCapacity) (resource : String) (deadline : Int) :
    List String → String → List PageExchange → List (Json Number) → Prop where
  | last {seen : List String} {cursor : String} {x : PageExchange} {rest : List PageExchange}
      {items : List (Json Number)} : Gives c resource deadline x cursor items "" →
      Lists c resource deadline seen cursor (x :: rest) items
  | more {seen : List String} {cursor next : String} {x : PageExchange} {rest : List PageExchange}
      {items later : List (Json Number)} : Gives c resource deadline x cursor items next →
      next ≠ "" → next ∉ seen → Lists c resource deadline (next :: seen) next rest later →
      Lists c resource deadline seen cursor (x :: rest) (items ++ later)

theorem consumeItem_ok {acc acc' : Nat × σ} {item : Json Number} :
    consumeItem consume acc item = .ok acc' ↔
      acc.1 < 10000 ∧ acc'.1 = acc.1 + 1 ∧ consume acc.2 item = .ok acc'.2 := by
  simp only [consumeItem, Except.bind_eq_ok, Checked.lift_result_ok, Result.throwIf_ok,
    decide_eq_true_eq, exists_const, Except.pure_eq, Except.ok.injEq]
  constructor
  · rintro ⟨room, s, hs, rfl⟩
    exact ⟨by omega, rfl, hs⟩
  · rintro ⟨room, count, hs⟩
    exact ⟨by omega, acc'.2, hs, Prod.ext count.symm rfl⟩

/-- The items are consumed one by one, as far as the limit allows. -/
theorem consume_ok {items : List (Json Number)} {acc acc' : Nat × σ} (room : acc.1 ≤ 10000) :
    items.foldlM (consumeItem consume) acc = .ok acc' ↔
      acc.1 + items.length ≤ 10000 ∧ acc'.1 = acc.1 + items.length ∧
        items.foldlM consume acc.2 = .ok acc'.2 := by
  induction items generalizing acc with
  | nil =>
    simp only [List.foldlM_nil, Except.pure_eq, Except.ok.injEq, List.length_nil, Nat.add_zero]
    constructor
    · rintro rfl
      exact ⟨room, rfl, rfl⟩
    · rintro ⟨-, count, same⟩
      exact Prod.ext count.symm same
  | cons item rest ih =>
    rw [List.foldlM_cons, List.foldlM_cons, Except.bind_eq_ok, Except.bind_eq_ok,
      List.length_cons]
    constructor
    · rintro ⟨mid, hmid, hrest⟩
      obtain ⟨below, count, hs⟩ := consumeItem_ok.mp hmid
      obtain ⟨fits, total, hrest⟩ := (ih (by omega)).mp hrest
      exact ⟨by omega, by omega, mid.2, hs, hrest⟩
    · rintro ⟨fits, total, s, hs, hrest⟩
      exact ⟨(acc.1 + 1, s), consumeItem_ok.mpr ⟨by omega, rfl, hs⟩,
        (ih (by omega)).mpr ⟨by omega, by omega, hrest⟩⟩

theorem parse_ok {body : String} {page : Json Number} :
    c.parse body = .ok page ↔ c.text.parse body = some page := by
  rw [parse]
  cases c.text.parse body <;> simp

/-- A page that is read: it was given, all its items were consumed and its cursor is new. -/
theorem onePage_ok {scan next : Scan σ} {x : PageExchange} :
    c.onePage resource consume deadline scan x = .ok next ↔
      ∃ items, Gives c resource deadline x scan.cursor items next.cursor ∧
        (next.cursor = "" ∧ next.cursors = scan.cursors ∨ next.cursor ≠ "" ∧
          next.cursor ∉ scan.cursors ∧ next.cursors = next.cursor :: scan.cursors) ∧
        items.foldlM (consumeItem consume) (scan.total, scan.state) =
          .ok (next.total, next.state) := by
  simp only [onePage, Except.bind_eq_ok, Checked.lift_result_ok, Checked.lift_access_ok,
    Result.throwIf_ok, exists_const, Except.pure_eq, Except.ok.injEq, parse_ok]
  constructor
  · rintro ⟨intime, ⟨status, body⟩, hfetch, hstatus, page, hparse, list, hlist, acc, hconsume,
      metadata, hmetadata, cursor, hcursor, new, rfl⟩
    simp only [ne_eq, decide_not, Bool.not_eq_true', decide_eq_false_iff_not, not_not,
      Bool.or_eq_true, decide_eq_true_eq, not_or, Bool.and_eq_true, List.contains_iff_mem,
      not_and] at intime hstatus new
    obtain rfl := hstatus
    refine ⟨list.elements, ⟨by simpa using intime.1, by omega, body, page, list, metadata, hfetch,
      hparse, hlist, rfl, hmetadata, hcursor⟩, ?_, hconsume⟩
    by_cases last : cursor = ""
    · exact .inl ⟨last, if_pos last⟩
    · exact .inr ⟨last, new last, if_neg last⟩
  · rintro ⟨_, ⟨running, early, body, page, list, metadata, hfetch, hparse, hlist, rfl, hmetadata,
      hcursor⟩, new, hconsume⟩
    refine ⟨?_, ⟨200, body⟩, hfetch, by simp, page, hparse, list, hlist, _, hconsume, metadata,
      hmetadata, next.cursor, hcursor, ?_, ?_⟩
    · simp [running, early]
    · rcases new with ⟨last, -⟩ | ⟨-, fresh, -⟩
      · simp [last]
      · simp [fresh]
    · rcases new with ⟨last, same⟩ | ⟨more, -, added⟩
      · rw [if_pos last, ← same]
      · rw [if_neg more, ← added]

/-- The loop returns the fold over the listed items. -/
theorem eachPage_ok {exchanges : List PageExchange} {scan : Scan σ} {s : σ}
    (room : scan.total ≤ 10000) :
    c.eachPage resource consume deadline scan exchanges = some (.ok s) ↔
      ∃ items, Lists c resource deadline scan.cursors scan.cursor exchanges items ∧
        scan.total + items.length ≤ 10000 ∧ items.foldlM consume scan.state = .ok s := by
  induction exchanges generalizing scan with
  | nil =>
    constructor
    · intro h
      cases h
    · rintro ⟨_, h, -⟩
      cases h
  | cons x rest ih =>
    rw [eachPage]
    constructor
    · intro h
      split at h
      · cases h
      next next hpage =>
        obtain ⟨items, gives, new, hconsume⟩ := onePage_ok.mp hpage
        obtain ⟨fits, total, hstate⟩ := (consume_ok room).mp hconsume
        split at h
        · next last =>
          cases h
          exact ⟨items, .last (last ▸ gives), fits, hstate⟩
        · next more =>
          obtain ⟨-, fresh, added⟩ := new.resolve_left fun h => more h.1
          obtain ⟨later, lists, room, hlater⟩ := (ih (by omega)).mp h
          rw [added] at lists
          refine ⟨items ++ later, .more gives more fresh lists, ?_, ?_⟩
          · rw [List.length_append]
            omega
          · rw [List.foldlM_append]
            exact Except.bind_eq_ok.mpr ⟨_, hstate, hlater⟩
    · rintro ⟨items, lists, fits, hfold⟩
      cases lists with
      | last gives =>
        have hpage : c.onePage resource consume deadline scan x =
            .ok ⟨scan.cursors, "", scan.total + items.length, s⟩ :=
          onePage_ok.mpr ⟨items, gives, .inl ⟨rfl, rfl⟩,
            (consume_ok room).mpr ⟨fits, rfl, hfold⟩⟩
        rw [hpage]
        exact if_pos rfl
      | @more _ _ next _ _ items later gives more fresh lists =>
        rw [List.foldlM_append] at hfold
        obtain ⟨mid, hmid, hlater⟩ := Except.bind_eq_ok.mp hfold
        rw [List.length_append] at fits
        have hpage : c.onePage resource consume deadline scan x =
            .ok ⟨next :: scan.cursors, next, scan.total + items.length, mid⟩ :=
          onePage_ok.mpr ⟨items, gives, .inr ⟨more, fresh, rfl⟩,
            (consume_ok room).mpr ⟨show scan.total + items.length ≤ 10000 by omega, rfl, hmid⟩⟩
        rw [hpage]
        refine (if_neg more).trans ((ih ?_).mpr ⟨later, lists, ?_, hlater⟩)
        · show scan.total + items.length ≤ 10000
          omega
        · show scan.total + items.length + later.length ≤ 10000
          omega

/-! ## Pages that fail -/

/-- The call ends with an exception. -/
def Throws {α : Type} (x : Checked α) : Prop := ∃ e, x = .error (.thrown e)

section Throwing

variable {α β : Type}

theorem Throws.bind {x : Checked α} {f : α → Checked β} (h : Throws x) : Throws (x >>= f) := by
  obtain ⟨e, rfl⟩ := h
  exact ⟨e, rfl⟩

theorem throws_after {x : Checked α} {f : α → Checked β} {a : α} (h : x = .ok a)
    (later : Throws (f a)) : Throws (x >>= f) := by
  rw [h]
  exact later

/-- What a library or a check throws ends the call, and otherwise the rest does. -/
theorem throws_result {x : Result α} {f : α → Checked β} (h : ∀ a, x = .ok a → Throws (f a)) :
    Throws (liftM x >>= f) := by
  cases x with
  | ok a => exact h a rfl
  | error e => exact ⟨_, rfl⟩

theorem throws_access {x : Json.Access α} {f : α → Checked β}
    (h : ∀ a, x = .ok a → Throws (f a)) : Throws (liftM x >>= f) := by
  cases x with
  | ok a => exact h a rfl
  | error e => exact ⟨_, rfl⟩

end Throwing

/-- The server answers with a document. -/
def Answers (c : KubernetesCapacity) (resource : String) (scan : Scan σ) (x : PageExchange)
    (page list : Json Number) : Prop :=
  ∃ body, x.fetch (c.path resource scan.cursor) = .ok ⟨200, body⟩ ∧
    c.text.parse body = some page ∧ page.field "items" = .ok list

/-- Why a page fails. -/
inductive PageFails (c : KubernetesCapacity) (resource : String)
    (consume : σ → Json Number → Checked σ) (deadline : Int) (scan : Scan σ) (x : PageExchange) :
    Prop where
  | stopped : x.stopRequested → PageFails c resource consume deadline scan x
  | timeout : deadline ≤ x.now → PageFails c resource consume deadline scan x
  | request {e : Fault} : x.fetch (c.path resource scan.cursor) = .error e →
    PageFails c resource consume deadline scan x
  | status {response : HttpResult} :
    x.fetch (c.path resource scan.cursor) = .ok response → response.status ≠ 200 →
    PageFails c resource consume deadline scan x
  | malformed {response : HttpResult} :
    x.fetch (c.path resource scan.cursor) = .ok response → c.text.parse response.body = none →
    PageFails c resource consume deadline scan x
  | missing {response : HttpResult} {page : Json Number} {what : String} :
    x.fetch (c.path resource scan.cursor) = .ok response →
    c.text.parse response.body = some page → page.field "items" = .error what →
    PageFails c resource consume deadline scan x
  | item {page list item : Json Number} {before after : List (Json Number)} {acc : Nat × σ} :
    Answers c resource scan x page list → list.elements = before ++ item :: after →
    before.foldlM (consumeItem consume) (scan.total, scan.state) = .ok acc →
    Throws (consume acc.2 item) → PageFails c resource consume deadline scan x
  | tooMany {page list item : Json Number} {before after : List (Json Number)} {s : σ} :
    Answers c resource scan x page list → list.elements = before ++ item :: after →
    before.foldlM (consumeItem consume) (scan.total, scan.state) = .ok (10000, s) →
    PageFails c resource consume deadline scan x
  | metadata {page list : Json Number} {acc : Nat × σ} {what : String} :
    Answers c resource scan x page list →
    list.elements.foldlM (consumeItem consume) (scan.total, scan.state) = .ok acc →
    (do (← page.field "metadata").valueOr "continue" "" Json.getString) = Except.error what →
    PageFails c resource consume deadline scan x
  | repeated {page list metadata : Json Number} {acc : Nat × σ} {cursor : String} :
    Answers c resource scan x page list →
    list.elements.foldlM (consumeItem consume) (scan.total, scan.state) = .ok acc →
    page.field "metadata" = .ok metadata →
    metadata.valueOr "continue" "" Json.getString = .ok cursor → cursor ≠ "" →
    cursor ∈ scan.cursors → PageFails c resource consume deadline scan x

/-- The loop has come to a page, at any position. -/
inductive Reaches (c : KubernetesCapacity) (resource : String)
    (consume : σ → Json Number → Checked σ) (deadline : Int) (start : Scan σ) :
    List PageExchange → Scan σ → Prop where
  | start : Reaches c resource consume deadline start [] start
  | page {before : List PageExchange} {scan next : Scan σ} {x : PageExchange} :
    Reaches c resource consume deadline start before scan →
    c.onePage resource consume deadline scan x = .ok next → next.cursor ≠ "" →
    Reaches c resource consume deadline start (before ++ [x]) next

theorem eachPage_reaches {start scan : Scan σ} {before : List PageExchange}
    (h : Reaches c resource consume deadline start before scan) (rest : List PageExchange) :
    c.eachPage resource consume deadline start (before ++ rest) =
      c.eachPage resource consume deadline scan rest := by
  induction h generalizing rest with
  | start => rfl
  | @page before scan next x _ hpage more ih =>
    rw [List.append_assoc, ih, List.singleton_append, eachPage, hpage]
    exact if_neg more

theorem fold_throws {items before after : List (Json Number)} {item : Json Number}
    {acc acc' : Nat × σ} (split : items = before ++ item :: after)
    (hbefore : before.foldlM (consumeItem consume) acc = .ok acc')
    (h : Throws (consumeItem consume acc' item)) :
    Throws (items.foldlM (consumeItem consume) acc) := by
  rw [split, List.foldlM_append]
  refine throws_after hbefore ?_
  rw [List.foldlM_cons]
  exact h.bind

/-- For each of these reasons the page throws. -/
theorem onePage_throws {scan : Scan σ} {x : PageExchange}
    (fails : PageFails c resource consume deadline scan x) :
    Throws (c.onePage resource consume deadline scan x) := by
  rw [onePage]
  refine throws_result fun _ intime => throws_result fun response hfetch =>
    throws_result fun _ hstatus => throws_access fun page hparse =>
    throws_access fun list hlist => ?_
  rw [Result.throwIf_ok] at intime hstatus
  rw [parse_ok] at hparse
  have same : ∀ {page' list' : Json Number}, Answers c resource scan x page' list' →
      page' = page ∧ list' = list := by
    rintro page' list' ⟨body, hfetch', hparse', hlist'⟩
    cases hfetch.symm.trans hfetch'
    cases hparse.symm.trans hparse'
    cases hlist.symm.trans hlist'
    exact ⟨rfl, rfl⟩
  cases fails with
  | stopped stop => exact absurd (by simp [stop]) intime
  | timeout late => exact absurd (by simp [late]) intime
  | request h => cases hfetch.symm.trans h
  | status h other =>
    cases hfetch.symm.trans h
    exact absurd (decide_eq_true other) hstatus
  | malformed h none =>
    cases hfetch.symm.trans h
    cases hparse.symm.trans none
  | missing h hpage none =>
    cases hfetch.symm.trans h
    cases hparse.symm.trans hpage
    cases hlist.symm.trans none
  | @item page' list' item before after acc answers split hbefore h =>
    obtain ⟨rfl, rfl⟩ := same answers
    refine (fold_throws split hbefore (throws_result fun _ _ => h.bind)).bind
  | @tooMany page' list' item before after s answers split hbefore =>
    obtain ⟨rfl, rfl⟩ := same answers
    refine (fold_throws split hbefore (throws_result fun _ room => ?_)).bind
    exact absurd (by simp) (Result.throwIf_ok.mp room)
  | metadata answers hconsume h =>
    obtain ⟨rfl, rfl⟩ := same answers
    refine throws_after hconsume (throws_access fun metadata hmetadata => throws_access
      fun cursor hcursor => ?_)
    rw [hmetadata] at h
    cases h.symm.trans hcursor
  | repeated answers hconsume hmetadata hcursor more seen =>
    obtain ⟨rfl, rfl⟩ := same answers
    refine throws_after hconsume (throws_access fun metadata' hmetadata' => throws_access
      fun cursor' hcursor' => throws_result fun _ new => ?_)
    cases hmetadata.symm.trans hmetadata'
    cases hcursor.symm.trans hcursor'
    exact absurd (by simp [more, seen]) (Result.throwIf_ok.mp new)

/-! ## What a snapshot shows -/

/-- The text at a path, empty where there is none. -/
def textAt (j : Json Number) (path : List String) : String :=
  match j.path? path with
  | some (.string text) => text
  | _ => ""

/-- The phase of the pod is final. -/
def finished (pod : Json Number) : Bool :=
  textAt pod ["status", "phase"] = "Succeeded" || textAt pod ["status", "phase"] = "Failed"

def nodeOf (pod : Json Number) : String := textAt pod ["spec", "nodeName"]

def unbound (pod : Json Number) : Bool := nodeOf pod = ""

def boundTo (name : String) (pod : Json Number) : Bool := !unbound pod && nodeOf pod = name

def demandOf (c : KubernetesCapacity) (pod : Json Number) : Int :=
  match podGpuRequest c.arithmetic pod with
  | .ok count => count
  | .error _ => 0

/-- The demand of the pods that are not finished and meet a condition. -/
def demandWhere (c : KubernetesCapacity) (condition : Json Number → Bool)
    (pods : List (Json Number)) : Int :=
  ((pods.filter fun pod => !finished pod && condition pod).map c.demandOf).sum

/-- What the snapshot of these nodes and pods is. -/
structure Shows (c : KubernetesCapacity) (nodes pods : List (Json Number))
    (snapshot : ClusterGpuSnapshot) : Prop where
  sorted : snapshot.nodes.Pairwise fun a b => a.name ≤ b.name
  nodes : ∃ read, nodes.mapM (gpuNodeCapacity c.arithmetic) = .ok read ∧
    snapshot.nodes.Perm (read.map fun node => { node with
      reserved := c.demandWhere (boundTo node.name) pods })
  pending : snapshot.pending = c.demandWhere unbound pods
  valid : ∀ pod ∈ pods, finished pod ∨ ∃ count, podGpuRequest c.arithmetic pod = .ok count

theorem nodes_ok {nodes : List (Json Number)} {before after : List GpuNodeCapacity} :
    nodes.foldlM c.nodeStep before = .ok after ↔
      ∃ read, nodes.mapM (gpuNodeCapacity c.arithmetic) = .ok read ∧ after = before ++ read := by
  induction nodes generalizing before with
  | nil => simp [eq_comm]
  | cons node rest ih =>
    simp only [List.foldlM_cons, List.mapM_cons, nodeStep, Except.bind_eq_ok, Checked.lift_ok,
      Except.pure_eq, Except.ok.injEq, ih]
    constructor
    · rintro ⟨_, ⟨n, hn, rfl⟩, read, hread, rfl⟩
      exact ⟨n :: read, ⟨n, hn, read, hread, rfl⟩, by simp⟩
    · rintro ⟨_, ⟨n, hn, read, hread, rfl⟩, rfl⟩
      exact ⟨before ++ [n], ⟨n, hn, rfl⟩, read, hread, by simp⟩

/-- A text field that is read is the text at its path. -/
theorem value_text {j outer : Json Number} {key key' text : String}
    (houter : outer = (j.find? key).getD (.object []))
    (h : outer.valueOr key' "" Json.getString = .ok text) : textAt j [key, key'] = text := by
  have path : j.path? [key, key'] = outer.find? key' := by
    rw [houter, Json.find?_getD]
    simp
  rw [textAt, path]
  rw [Json.valueOr] at h
  split at h
  · cases hfind : outer.find? key' with
    | none =>
      rw [hfind] at h
      exact Except.ok.inj h
    | some value =>
      rw [hfind] at h
      cases value with
      | string => exact Except.ok.inj h
      | _ => cases h
  · cases h

theorem field_getD {j value : Json Number} {key : String} (h : j.field key = .ok value) :
    value = (j.find? key).getD (.object []) := by
  rcases Json.field_cases key j with ⟨found, hfind, hfield⟩ | ⟨_, what, hfield⟩
  · rw [hfind, ← Except.ok.inj (hfield.symm.trans h)]
    rfl
  · cases hfield.symm.trans h

theorem int64Add_fits {a b sum : Int} (h : int64Add a b = .ok sum) : sum < 2 ^ 63 := by
  have same := int64Add_ok h
  rw [int64Add] at h
  split at h
  · next fits => exact same ▸ fits.2
  · cases h

theorem podStep_ok {acc acc' : Int × StringMap Int} {pod : Json Number}
    (h : c.podStep acc pod = .ok acc') :
    finished pod ∧ acc' = acc ∨ finished pod = false ∧
      ∃ count, podGpuRequest c.arithmetic pod = .ok count ∧
        (nodeOf pod = "" ∧ acc' = (acc.1 + count, acc.2) ∧ acc.1 + count < 2 ^ 63 ∨
          nodeOf pod ≠ "" ∧
          acc' = (acc.1, acc.2.insert (nodeOf pod) (acc.2.getD (nodeOf pod) + count)) ∧
          acc.2.getD (nodeOf pod) + count < 2 ^ 63) := by
  obtain ⟨status, hstatus, h⟩ := Except.bind_eq_ok.mp h
  obtain ⟨phase, hphase, h⟩ := Except.bind_eq_ok.mp h
  rw [Checked.lift_access_ok] at hstatus hphase
  have phased := value_text (Json.valueOr_getD hstatus).symm hphase
  split at h
  · next final =>
    refine .inl ⟨?_, (Except.ok.inj h).symm⟩
    rw [finished, phased]
    exact final
  · next active =>
    refine .inr ⟨?_, ?_⟩
    · rw [finished, phased]
      exact Bool.eq_false_iff.mpr active
    obtain ⟨count, hcount, h⟩ := Except.bind_eq_ok.mp h
    obtain ⟨spec, hspec, h⟩ := Except.bind_eq_ok.mp h
    obtain ⟨node, hnode, h⟩ := Except.bind_eq_ok.mp h
    rw [Checked.lift_access_ok] at hspec hnode
    have placed : nodeOf pod = node := value_text (field_getD hspec) hnode
    refine ⟨count, hcount, ?_⟩
    split at h
    · next none =>
      obtain ⟨sum, hsum, h⟩ := Except.bind_eq_ok.mp h
      cases h
      have same := int64Add_ok hsum
      exact .inl ⟨placed.trans none, by rw [same], same ▸ int64Add_fits hsum⟩
    · next some =>
      obtain ⟨sum, hsum, h⟩ := Except.bind_eq_ok.mp h
      cases h
      have same := int64Add_ok hsum
      exact .inr ⟨placed ▸ some, by rw [placed, same], by
        rw [placed, ← same]
        exact int64Add_fits hsum⟩

theorem getD_insert (m : StringMap Int) (key name : String) (value : Int) :
    (m.insert key value).getD name = if key = name then value else m.getD name := by
  rw [StringMap.getD, StringMap.insert, Entries.lookup_assign]
  split
  · rfl
  · rfl

theorem demandWhere_cons {condition : Json Number → Bool} {pod : Json Number}
    {pods : List (Json Number)} : c.demandWhere condition (pod :: pods) =
      (if !finished pod && condition pod then c.demandOf pod else 0) +
        c.demandWhere condition pods := by
  rw [demandWhere, List.filter_cons]
  split
  · rfl
  · exact (Int.zero_add _).symm

theorem pods_ok {pods : List (Json Number)} {acc acc' : Int × StringMap Int}
    (h : pods.foldlM c.podStep acc = .ok acc') :
    acc'.1 = acc.1 + c.demandWhere unbound pods ∧
      (∀ name, acc'.2.getD name = acc.2.getD name + c.demandWhere (boundTo name) pods) ∧
      ∀ pod ∈ pods, finished pod ∨ ∃ count, podGpuRequest c.arithmetic pod = .ok count := by
  induction pods generalizing acc with
  | nil =>
    cases h
    exact ⟨(Int.add_zero _).symm, fun _ => (Int.add_zero _).symm, by simp⟩
  | cons pod rest ih =>
    rw [List.foldlM_cons] at h
    obtain ⟨mid, hstep, hrest⟩ := Except.bind_eq_ok.mp h
    obtain ⟨pending, reserved, valid⟩ := ih hrest
    simp only [demandWhere_cons, List.forall_mem_cons]
    rcases podStep_ok hstep with ⟨final, rfl⟩ | ⟨active, count, hcount, placement⟩
    · simp only [final, Bool.not_true, Bool.false_and, Bool.false_eq_true, if_false, Int.zero_add]
      exact ⟨pending, reserved, .inl trivial, valid⟩
    have demand : c.demandOf pod = count := by rw [demandOf, hcount]
    refine ⟨?_, fun name => ?_, .inr ⟨count, hcount⟩, valid⟩
    · rw [pending, demand]
      rcases placement with ⟨free, rfl, -⟩ | ⟨placed, rfl, -⟩
      · simp [active, unbound, free, Int.add_assoc]
      · simp [active, unbound, placed]
    · rw [reserved name, demand]
      rcases placement with ⟨free, rfl, -⟩ | ⟨placed, rfl, -⟩
      · simp [active, boundTo, unbound, free]
      · rw [getD_insert]
        rcases eq_or_ne (nodeOf pod) name with rfl | hname
        · simp [active, boundTo, unbound, placed, Int.add_assoc]
        · simp [active, boundTo, hname]

/-! ## Listings that can be counted -/

/-- The refresh can read the pod: its phase is final, or its demand and its node are there. -/
structure PodReads (c : KubernetesCapacity) (pod : Json Number) : Prop where
  phase : ∃ status phase, pod.valueOr "status" (.object []) .ok = .ok status ∧
    status.valueOr "phase" "" Json.getString = .ok phase
  placed : finished pod ∨ ∃ count spec node, podGpuRequest c.arithmetic pod = .ok count ∧
    pod.field "spec" = .ok spec ∧ spec.valueOr "nodeName" "" Json.getString = .ok node

/-- Nodes and pods that a refresh can read, and whose sums fit 64 bits. -/
structure Countable (c : KubernetesCapacity) (nodes pods : List (Json Number)) : Prop where
  nodesRead : ∀ node ∈ nodes, ∃ read, gpuNodeCapacity c.arithmetic node = .ok read
  podsRead : ∀ pod ∈ pods, c.PodReads pod
  pending : c.demandWhere unbound pods < 2 ^ 63
  reserved : ∀ name, c.demandWhere (boundTo name) pods < 2 ^ 63

theorem podGpuRequest_nonneg {d : LongDouble} {pod : Json Number} {count : Int}
    (h : podGpuRequest d pod = .ok count) : 0 ≤ count := by
  -- The largest sum of the init containers starts at zero and never falls.
  have grows : ∀ (containers : List (Json Number)) (acc acc' : Int × Int),
      containers.foldlM (initStep d) acc = .ok acc' → acc.2 ≤ acc'.2 := by
    intro containers
    induction containers with
    | nil =>
      rintro acc _ ⟨⟩
      exact le_refl _
    | cons container rest ih =>
      intro acc acc' h
      rw [List.foldlM_cons] at h
      obtain ⟨mid, hmid, hrest⟩ := Except.bind_eq_ok.mp h
      refine le_trans ?_ (ih mid acc' hrest)
      obtain ⟨_, _, hmid⟩ := Except.bind_eq_ok.mp hmid
      obtain ⟨_, _, hmid⟩ := Except.bind_eq_ok.mp hmid
      split at hmid
      · obtain ⟨_, _, hmid⟩ := Except.bind_eq_ok.mp hmid
        cases hmid
        exact le_max_left _ _
      · obtain ⟨_, _, hmid⟩ := Except.bind_eq_ok.mp hmid
        cases hmid
        exact le_max_left _ _
  obtain ⟨_, _, h⟩ := Except.bind_eq_ok.mp h
  obtain ⟨_, _, h⟩ := Except.bind_eq_ok.mp h
  obtain ⟨_, _, h⟩ := Except.bind_eq_ok.mp h
  obtain ⟨_, _, h⟩ := Except.bind_eq_ok.mp h
  obtain ⟨⟨sidecars, initialization⟩, hinit, h⟩ := Except.bind_eq_ok.mp h
  obtain ⟨overhead, hoverhead, h⟩ := Except.bind_eq_ok.mp h
  obtain ⟨running, _, h⟩ := Except.bind_eq_ok.mp h
  have started : 0 ≤ initialization := grows _ _ _ hinit
  obtain ⟨_, _, hoverhead⟩ := Except.bind_eq_ok.mp (Checked.lift_ok.mp hoverhead)
  obtain ⟨_, _, hoverhead⟩ := Except.bind_eq_ok.mp hoverhead
  have lower := (gpuQuantity_range hoverhead).1
  have larger := le_max_right running initialization
  rw [int64Add_ok h]
  omega

theorem demandWhere_nonneg (condition : Json Number → Bool) (pods : List (Json Number)) :
    0 ≤ c.demandWhere condition pods := by
  refine List.sum_nonneg fun demand hdemand => ?_
  obtain ⟨pod, -, rfl⟩ := List.mem_map.mp hdemand
  rw [demandOf]
  split
  · next hcount => exact podGpuRequest_nonneg hcount
  · exact le_refl _

theorem demandWhere_append {condition : Json Number → Bool} (before after : List (Json Number)) :
    c.demandWhere condition (before ++ after) =
      c.demandWhere condition before + c.demandWhere condition after := by
  simp [demandWhere]

theorem int64Add_total {a b : Int} (ha : 0 ≤ a) (hb : 0 ≤ b) (fits : a + b < 2 ^ 63) :
    int64Add a b = .ok (a + b) :=
  if_pos ⟨by omega, fits⟩

/-- What the callback for pods has summed up is in range. -/
structure InRange (acc : Int × StringMap Int) : Prop where
  pending : 0 ≤ acc.1 ∧ acc.1 < 2 ^ 63
  reserved : ∀ name, 0 ≤ acc.2.getD name ∧ acc.2.getD name < 2 ^ 63

theorem podStep_total {acc : Int × StringMap Int} {pod : Json Number} (reads : c.PodReads pod)
    (range : InRange acc) (pending : acc.1 + c.demandWhere unbound [pod] < 2 ^ 63)
    (reserved : ∀ name, acc.2.getD name + c.demandWhere (boundTo name) [pod] < 2 ^ 63) :
    ∃ acc', c.podStep acc pod = .ok acc' := by
  obtain ⟨⟨status, phase, hstatus, hphase⟩, placed⟩ := reads
  have phased : textAt pod ["status", "phase"] = phase :=
    value_text (Json.valueOr_getD hstatus).symm hphase
  simp only [podStep, Except.bind_eq_ok, Checked.lift_access_ok, hstatus, Except.ok.injEq,
    exists_eq_left', hphase]
  by_cases final : phase = "Succeeded" || phase = "Failed"
  · exact ⟨acc, if_pos final⟩
  have active : finished pod = false := by
    rw [finished, phased]
    exact Bool.eq_false_iff.mpr final
  rw [active] at placed
  obtain ⟨count, spec, node, hcount, hspec, hnode⟩ := placed.resolve_left (by simp)
  have named : nodeOf pod = node := value_text (field_getD hspec) hnode
  have demand : c.demandOf pod = count := by rw [demandOf, hcount]
  have lower := podGpuRequest_nonneg hcount
  simp only [if_neg final, Except.bind_eq_ok, Checked.lift_access_ok, hcount, hspec, hnode,
    Except.ok.injEq, exists_eq_left']
  by_cases free : node = ""
  · have alone : c.demandWhere unbound [pod] = count := by
      simp [demandWhere, active, unbound, named, free, demand]
    rw [alone] at pending
    refine ⟨(acc.1 + count, acc.2), ?_⟩
    rw [if_pos free, int64Add_total range.pending.1 lower pending]
    rfl
  · have alone : c.demandWhere (boundTo node) [pod] = count := by
      simp [demandWhere, active, boundTo, unbound, named, free, demand]
    have fits := reserved node
    rw [alone] at fits
    refine ⟨(acc.1, acc.2.insert node (acc.2.getD node + count)), ?_⟩
    rw [if_neg free, int64Add_total (range.reserved node).1 lower fits]
    rfl

theorem podStep_reads {acc acc' : Int × StringMap Int} {pod : Json Number}
    (h : c.podStep acc pod = .ok acc') : c.PodReads pod := by
  have placed := podStep_ok h
  obtain ⟨status, hstatus, h⟩ := Except.bind_eq_ok.mp h
  obtain ⟨phase, hphase, h⟩ := Except.bind_eq_ok.mp h
  rw [Checked.lift_access_ok] at hstatus hphase
  refine ⟨⟨status, phase, hstatus, hphase⟩, placed.imp (·.1) ?_⟩
  rintro ⟨active, -⟩
  have phased := value_text (Json.valueOr_getD hstatus).symm hphase
  rw [finished, phased] at active
  rw [if_neg (Bool.eq_false_iff.mp active)] at h
  obtain ⟨count, hcount, h⟩ := Except.bind_eq_ok.mp h
  obtain ⟨spec, hspec, h⟩ := Except.bind_eq_ok.mp h
  obtain ⟨node, hnode, h⟩ := Except.bind_eq_ok.mp h
  exact ⟨count, spec, node, hcount, Checked.lift_access_ok.mp hspec,
    Checked.lift_access_ok.mp hnode⟩

/-- The sums stay in range, whatever was read. -/
theorem podStep_range {acc acc' : Int × StringMap Int} {pod : Json Number} (range : InRange acc)
    (h : c.podStep acc pod = .ok acc') : InRange acc' := by
  rcases podStep_ok h with ⟨-, rfl⟩ | ⟨-, count, hcount, ⟨-, rfl, fits⟩ | ⟨-, rfl, fits⟩⟩
  · exact range
  · have lower := podGpuRequest_nonneg hcount
    have sum := range.pending.1
    refine ⟨⟨?_, fits⟩, range.reserved⟩
    dsimp only
    omega
  · have lower := podGpuRequest_nonneg hcount
    have sum := (range.reserved (nodeOf pod)).1
    refine ⟨range.pending, fun name => ?_⟩
    dsimp only
    rw [getD_insert]
    split
    · exact ⟨by omega, fits⟩
    · exact range.reserved name

/-- The pods can be summed up exactly where each can be read and no sum leaves the range. -/
theorem pods_total {pods : List (Json Number)} {acc : Int × StringMap Int} (range : InRange acc) :
    (∃ acc', pods.foldlM c.podStep acc = .ok acc') ↔ (∀ pod ∈ pods, c.PodReads pod) ∧
      acc.1 + c.demandWhere unbound pods < 2 ^ 63 ∧
      ∀ name, acc.2.getD name + c.demandWhere (boundTo name) pods < 2 ^ 63 := by
  induction pods generalizing acc with
  | nil =>
    have none (condition : Json Number → Bool) : c.demandWhere condition [] = 0 := rfl
    have pending := range.pending
    have reserved := range.reserved
    simp only [List.foldlM_nil, none, Int.add_zero]
    exact ⟨fun _ => ⟨by simp, pending.2, fun name => (reserved name).2⟩, fun _ => ⟨acc, rfl⟩⟩
  | cons pod rest ih =>
    have split (condition : Json Number → Bool) : c.demandWhere condition (pod :: rest) =
        c.demandWhere condition [pod] + c.demandWhere condition rest :=
      demandWhere_append [pod] rest
    simp only [List.foldlM_cons, Except.bind_eq_ok, List.forall_mem_cons, split]
    -- One pod adds its demand to the sums.
    have sums {mid : Int × StringMap Int} (hmid : c.podStep acc pod = .ok mid) :
        mid.1 = acc.1 + c.demandWhere unbound [pod] ∧
          ∀ name, mid.2.getD name = acc.2.getD name + c.demandWhere (boundTo name) [pod] := by
      have single : [pod].foldlM c.podStep acc = .ok mid := by
        rw [List.foldlM_cons, hmid]
        rfl
      obtain ⟨pending, reserved, -⟩ := pods_ok single
      exact ⟨pending, reserved⟩
    constructor
    · rintro ⟨acc', mid, hmid, hrest⟩
      obtain ⟨pending, reserved⟩ := sums hmid
      obtain ⟨reads, fits, room⟩ := (ih (podStep_range range hmid)).mp ⟨acc', hrest⟩
      refine ⟨⟨podStep_reads hmid, reads⟩, by omega, fun name => ?_⟩
      have := room name
      rw [reserved name] at this
      omega
    · rintro ⟨⟨reads, others⟩, fits, room⟩
      have later := c.demandWhere_nonneg unbound rest
      obtain ⟨mid, hmid⟩ := podStep_total reads range (by omega) fun name => by
        have := c.demandWhere_nonneg (boundTo name) rest
        have := room name
        omega
      obtain ⟨pending, reserved⟩ := sums hmid
      obtain ⟨acc', hrest⟩ := (ih (podStep_range range hmid)).mpr ⟨others, by omega, fun name => by
        have := room name
        rw [reserved name]
        omega⟩
      exact ⟨acc', mid, hmid, hrest⟩

/-! ## Refreshes -/

/-- The pages of a refresh list these nodes and pods, in time and not too many. -/
def Presents (c : KubernetesCapacity) (r : Refresh) (nodes pods : List (Json Number)) : Prop :=
  (Lists c "/api/v1/nodes" r.deadline [] "" r.nodes nodes ∧ nodes.length ≤ 10000) ∧
    Lists c "/api/v1/pods" r.deadline [] "" r.pods pods ∧ pods.length ≤ 10000

/-- What the listed items are folded to, without the pages that brought them. -/
def observe (c : KubernetesCapacity) (nodes pods : List (Json Number)) :
    Checked (List GpuNodeCapacity × Int) := do
  let read ← nodes.foldlM c.nodeStep []
  let (pending, reservations) ← pods.foldlM c.podStep (0, .empty)
  return (c.reserve reservations read, pending)

theorem refresh_ok {r : Refresh} {snapshot : ClusterGpuSnapshot} :
    c.refresh r = some (.ok snapshot) ↔ ∃ nodes pods shown pending, c.Presents r nodes pods ∧
      c.observe nodes pods = .ok (shown, pending) ∧
      snapshot = { nodes := shown, pending, observedAt := r.timestamp } := by
  have nodesRead : ∀ read, c.eachPage "/api/v1/nodes" c.nodeStep r.deadline { state := [] }
      r.nodes = some (.ok read) ↔ ∃ nodes, Lists c "/api/v1/nodes" r.deadline [] "" r.nodes nodes ∧
        0 + nodes.length ≤ 10000 ∧ nodes.foldlM c.nodeStep [] = .ok read :=
    fun read => eachPage_ok (Nat.zero_le _)
  have podsRead : ∀ read, c.eachPage "/api/v1/pods" c.podStep r.deadline
      { state := (0, .empty) } r.pods = some (.ok read) ↔
        ∃ pods, Lists c "/api/v1/pods" r.deadline [] "" r.pods pods ∧
          0 + pods.length ≤ 10000 ∧ pods.foldlM c.podStep (0, .empty) = .ok read :=
    fun read => eachPage_ok (Nat.zero_le _)
  constructor
  · intro h
    rw [refresh] at h
    split at h
    · cases h
    · cases h
    next read hnodes =>
      split at h
      · cases h
      · cases h
      next pending reservations hpods =>
        cases h
        obtain ⟨nodes, listed, few, hread⟩ := (nodesRead read).mp hnodes
        obtain ⟨pods, listed', few', hread'⟩ := (podsRead _).mp hpods
        rw [Nat.zero_add] at few few'
        exact ⟨nodes, pods, _, pending, ⟨⟨listed, few⟩, listed', few'⟩,
          Except.bind_eq_ok.mpr ⟨_, hread, Except.bind_eq_ok.mpr ⟨_, hread', rfl⟩⟩, rfl⟩
  · rintro ⟨nodes, pods, shown, pending, ⟨⟨listed, few⟩, listed', few'⟩, h, rfl⟩
    obtain ⟨read, hread, h⟩ := Except.bind_eq_ok.mp h
    obtain ⟨⟨_, reservations⟩, hread', h⟩ := Except.bind_eq_ok.mp h
    cases h
    rw [refresh, (nodesRead read).mpr ⟨nodes, listed, by omega, hread⟩]
    dsimp only
    rw [(podsRead _).mpr ⟨pods, listed', by omega, hread'⟩]

theorem observe_shows {nodes pods : List (Json Number)} {shown : List GpuNodeCapacity}
    {pending : Int} (h : c.observe nodes pods = .ok (shown, pending)) (observedAt : String) :
    c.Shows nodes pods { nodes := shown, pending, observedAt } := by
  obtain ⟨read, hread, h⟩ := Except.bind_eq_ok.mp h
  obtain ⟨⟨pending, reservations⟩, hpods, h⟩ := Except.bind_eq_ok.mp h
  cases h
  obtain ⟨_, hnodes, rfl⟩ := nodes_ok.mp hread
  obtain ⟨hpending, hreserved, valid⟩ := pods_ok hpods
  have reserved : ∀ name, reservations.getD name = c.demandWhere (boundTo name) pods := by
    intro name
    exact (hreserved name).trans (Int.zero_add _)
  refine ⟨c.sort.sorted _, ⟨_, hnodes, (c.sort.perm _).trans ?_⟩, ?_, valid⟩
  · refine .of_eq (List.map_congr_left fun node _ => ?_)
    rw [reserved node.name]
  · exact hpending.trans (Int.zero_add _)

theorem observe_total {nodes pods : List (Json Number)} :
    (∃ shown pending, c.observe nodes pods = .ok (shown, pending)) ↔ c.Countable nodes pods := by
  have none (name : String) : (StringMap.empty : StringMap Int).getD name = 0 := rfl
  have range : InRange (0, .empty) := by
    refine ⟨by decide, fun name => ?_⟩
    dsimp only
    rw [none name]
    decide
  have summed : (∃ sums, pods.foldlM c.podStep (0, .empty) = .ok sums) ↔
      (∀ pod ∈ pods, c.PodReads pod) ∧ c.demandWhere unbound pods < 2 ^ 63 ∧
        ∀ name, c.demandWhere (boundTo name) pods < 2 ^ 63 := by
    simpa only [none, Int.zero_add] using c.pods_total range
  constructor
  · rintro ⟨shown, pending, h⟩
    obtain ⟨read, hread, h⟩ := Except.bind_eq_ok.mp h
    obtain ⟨sums, hpods, -⟩ := Except.bind_eq_ok.mp h
    obtain ⟨each, hnodes, -⟩ := nodes_ok.mp hread
    obtain ⟨reads, fits, room⟩ := summed.mp ⟨sums, hpods⟩
    exact ⟨Except.mapM_total.mp ⟨each, hnodes⟩, reads, fits, room⟩
  · rintro ⟨nodesRead, podsRead, fits, room⟩
    obtain ⟨each, hnodes⟩ := Except.mapM_total.mpr nodesRead
    obtain ⟨⟨pending, reservations⟩, hpods⟩ := summed.mpr ⟨podsRead, fits, room⟩
    refine ⟨c.reserve reservations each, pending, Except.bind_eq_ok.mpr ⟨each, ?_,
      Except.bind_eq_ok.mpr ⟨_, hpods, rfl⟩⟩⟩
    exact nodes_ok.mpr ⟨each, hnodes, rfl⟩

theorem gives_unique {x : PageExchange} {cursor next next' : String}
    {items items' : List (Json Number)} (h : Gives c resource deadline x cursor items next)
    (h' : Gives c resource deadline x cursor items' next') : items = items' ∧ next = next' := by
  obtain ⟨_, _, _, _, _, _, hfetch, hparse, hitems, rfl, hmetadata, hnext⟩ := h
  obtain ⟨_, _, _, _, _, _, hfetch', hparse', hitems', rfl, hmetadata', hnext'⟩ := h'
  cases hfetch.symm.trans hfetch'
  cases hparse.symm.trans hparse'
  cases hitems.symm.trans hitems'
  cases hmetadata.symm.trans hmetadata'
  cases hnext.symm.trans hnext'
  exact ⟨rfl, rfl⟩

theorem lists_unique {seen : List String} {cursor : String} {exchanges : List PageExchange}
    {items items' : List (Json Number)} (h : Lists c resource deadline seen cursor exchanges items)
    (h' : Lists c resource deadline seen cursor exchanges items') : items = items' := by
  induction h generalizing items' with
  | last gives =>
    cases h' with
    | last gives' => exact (gives_unique gives gives').1
    | more gives' more => exact absurd (gives_unique gives gives').2.symm more
  | more gives more _ _ ih =>
    cases h' with
    | last gives' => exact absurd (gives_unique gives gives').2 more
    | more gives' _ _ lists' =>
      obtain ⟨rfl, rfl⟩ := gives_unique gives gives'
      rw [ih lists']

/-- A page of a refresh fails: one of the nodes, or one of the pods after all nodes. -/
def FailsAt (c : KubernetesCapacity) (r : Refresh) : Prop :=
  (∃ before x rest scan, r.nodes = before ++ x :: rest ∧
    Reaches c "/api/v1/nodes" c.nodeStep r.deadline { state := [] } before scan ∧
    PageFails c "/api/v1/nodes" c.nodeStep r.deadline scan x) ∨
  (∃ read, c.eachPage "/api/v1/nodes" c.nodeStep r.deadline { state := [] } r.nodes =
    some (.ok read)) ∧
  ∃ before x rest scan, r.pods = before ++ x :: rest ∧
    Reaches c "/api/v1/pods" c.podStep r.deadline { state := (0, .empty) } before scan ∧
    PageFails c "/api/v1/pods" c.podStep r.deadline scan x

theorem eachPage_throws {start scan : Scan σ} {before : List PageExchange} {x : PageExchange}
    (rest : List PageExchange) (reaches : Reaches c resource consume deadline start before scan)
    (fails : PageFails c resource consume deadline scan x) :
    ∃ e, c.eachPage resource consume deadline start (before ++ x :: rest) =
      some (.error (.thrown e)) := by
  obtain ⟨e, h⟩ := onePage_throws fails
  exact ⟨e, by rw [eachPage_reaches reaches, eachPage, h]⟩

theorem refresh_throws {r : Refresh} (h : c.FailsAt r) :
    ∃ e, c.refresh r = some (.error (.thrown e)) := by
  rcases h with ⟨before, x, rest, scan, split, reaches, fails⟩ |
    ⟨⟨read, hread⟩, before, x, rest, scan, split, reaches, fails⟩
  · obtain ⟨e, h⟩ := eachPage_throws rest reaches fails
    exact ⟨e, by rw [refresh, split, h]⟩
  · obtain ⟨e, h⟩ := eachPage_throws rest reaches fails
    refine ⟨e, ?_⟩
    rw [refresh, hread]
    dsimp only
    rw [split, h]

/-! ## Sequences of refreshes and reads -/

/-- The state after a sequence of events. -/
def run (c : KubernetesCapacity) (s : State) (events : List Event) : Option State :=
  c.system.replay (fun _ _ => true) s events

theorem commit_ok {r : Refresh} {s : State} {published : ClusterGpuSnapshot}
    (h : c.refresh r = some (.ok published)) : c.commit r s = some ⟨published, r.finish, true⟩ := by
  rw [commit, h]

/-- Without a success the snapshot stays, and after any refresh it is not fresh. -/
theorem run_failures {s s' : State} {events : List Event} (h : c.run s events = some s')
    (failures : ∀ r, .refresh r ∈ events → ∀ published, c.refresh r ≠ some (.ok published)) :
    s'.last = s.last ∧ (s.successful = false → s'.successful = false) ∧
      ((∃ r, .refresh r ∈ events) → s'.successful = false) := by
  induction events generalizing s with
  | nil =>
    cases h
    exact ⟨rfl, id, by rintro ⟨_, ⟨⟩⟩⟩
  | cons e rest ih =>
    obtain ⟨mid, hmid, h⟩ := Option.bind_eq_some_iff.mp h
    obtain ⟨last, stale, later⟩ := ih h fun r hr => failures r (List.mem_cons_of_mem e hr)
    cases e with
    | read now =>
      cases hmid
      refine ⟨last, stale, ?_⟩
      rintro ⟨r, hr⟩
      rcases List.mem_cons.mp hr with ⟨⟨⟩⟩ | hr
      exact later ⟨r, hr⟩
    | refresh r =>
      have failed := failures r List.mem_cons_self
      have hmid : c.commit r s = some mid := hmid
      rw [commit] at hmid
      split at hmid
      · cases hmid
      · next hok => exact absurd hok (failed _)
      · cases hmid
        exact ⟨last, fun _ => stale rfl, fun _ => stale rfl⟩
      · cases hmid

theorem run_append {s : State} {events more : List Event} :
    c.run s (events ++ more) = (c.run s events).bind fun s' => c.run s' more :=
  System.replay_append

theorem step_refresh {r : Refresh} {s : State} :
    c.system.step s (.refresh r) = c.commit r s := rfl

theorem run_single {s : State} {e : Event} : c.run s [e] = c.system.step s e := by
  rw [run, System.replay, if_pos rfl]
  exact Option.bind_fun_some _

/-- What a state shows of its last snapshot. -/
theorem snapshot_shows (s : State) (now : Int) :
    (s.snapshot now).nodes = s.last.nodes ∧ (s.snapshot now).pending = s.last.pending ∧
      (s.snapshot now).observedAt = s.last.observedAt := by
  rw [State.snapshot]
  split
  · exact ⟨rfl, rfl, rfl⟩
  · exact ⟨rfl, rfl, rfl⟩

theorem snapshot_stale {s : State} {now : Int} (failed : s.successful = false)
    (last : s.last.fresh = false) : (s.snapshot now).fresh = false := by
  rw [State.snapshot]
  split
  · exact last
  · simp [failed]

theorem snapshot_fresh {s : State} (succeeded : s.successful) (known : s.last.observedAt ≠ "")
    (now : Int) : (s.snapshot now).fresh ↔ (now - s.observed).tdiv (seconds 1) < 45 := by
  rw [State.snapshot, if_neg known]
  simp [succeeded]

/-- A refresh succeeds exactly when pages list nodes and pods that can be read, and publishes what
these are, whatever the pages; it is fresh for 45 seconds. A failure of any page leaves the last
success published and not fresh, until the next success. -/
theorem cluster_refresh (c : KubernetesCapacity) :
    (∀ r nodes pods, c.Presents r nodes pods → c.Countable nodes pods →
      ∃ snapshot, c.refresh r = some (.ok snapshot)) ∧
    (∀ r snapshot, c.refresh r = some (.ok snapshot) →
      (∃ nodes pods, c.Presents r nodes pods ∧ c.Countable nodes pods ∧
        c.Shows nodes pods snapshot ∧ snapshot.observedAt = r.timestamp) ∧
      ∀ s, ∃ s', c.commit r s = some s' ∧ ∀ now, (s'.snapshot now).nodes = snapshot.nodes ∧
        (s'.snapshot now).pending = snapshot.pending ∧
        (s'.snapshot now).observedAt = snapshot.observedAt ∧
        ((s'.snapshot now).fresh ↔ (now - r.finish).tdiv (seconds 1) < 45)) ∧
    (∀ r r' nodes pods snapshot, c.Presents r nodes pods → c.Presents r' nodes pods →
      c.refresh r = some (.ok snapshot) →
      c.refresh r' = some (.ok { snapshot with observedAt := r'.timestamp })) ∧
    (∀ r s, c.FailsAt r → c.commit r s = some { s with successful := false }) ∧
    (∀ before r published after s, c.run {} (before ++ .refresh r :: after) = some s →
      c.refresh r = some (.ok published) →
      (∀ r', .refresh r' ∈ after → ∀ later, c.refresh r' ≠ some (.ok later)) → ∀ now,
      (s.snapshot now).nodes = published.nodes ∧ (s.snapshot now).pending = published.pending ∧
        (s.snapshot now).observedAt = published.observedAt ∧
        ((∃ r', .refresh r' ∈ after) → (s.snapshot now).fresh = false)) ∧
    ∀ events s, c.run {} events = some s →
      (∀ r, .refresh r ∈ events → ∀ published, c.refresh r ≠ some (.ok published)) →
      ∀ now, s.snapshot now = {} := by
  refine ⟨?_, ?_, ?_, ?_, ?_, ?_⟩
  · intro r nodes pods presents countable
    obtain ⟨shown, pending, hobserve⟩ := observe_total.mpr countable
    exact ⟨_, refresh_ok.mpr ⟨nodes, pods, shown, pending, presents, hobserve, rfl⟩⟩
  · intro r snapshot h
    refine ⟨?_, fun s => ⟨_, commit_ok h, fun now => ?_⟩⟩
    · obtain ⟨nodes, pods, shown, pending, presents, hobserve, rfl⟩ := refresh_ok.mp h
      exact ⟨nodes, pods, presents, observe_total.mp ⟨shown, pending, hobserve⟩,
        observe_shows hobserve _, rfl⟩
    · obtain ⟨nodes, pending, observedAt⟩ := snapshot_shows ⟨snapshot, r.finish, true⟩ now
      refine ⟨nodes, pending, observedAt, snapshot_fresh rfl ?_ now⟩
      obtain ⟨_, _, _, _, _, _, rfl⟩ := refresh_ok.mp h
      exact r.timestamp.property
  · intro r r' nodes pods snapshot presents presents' h
    obtain ⟨nodes', pods', shown, pending, ⟨⟨listed, _⟩, listed', _⟩, hobserve, rfl⟩ :=
      refresh_ok.mp h
    obtain rfl := lists_unique presents.1.1 listed
    obtain rfl := lists_unique presents.2.1 listed'
    exact refresh_ok.mpr ⟨nodes, pods, shown, pending, presents', hobserve, rfl⟩
  · intro r s fails
    obtain ⟨e, h⟩ := refresh_throws fails
    rw [commit, h]
  · intro before r published after s h success failures now
    rw [run_append] at h
    obtain ⟨mid, -, h⟩ := Option.bind_eq_some_iff.mp h
    rw [← List.singleton_append, run_append, run_single] at h
    obtain ⟨next, hnext, h⟩ := Option.bind_eq_some_iff.mp h
    obtain rfl := Option.some.inj ((commit_ok success).symm.trans hnext)
    obtain ⟨last, -, stale⟩ := run_failures h failures
    obtain ⟨nodes, pending, observedAt⟩ := snapshot_shows s now
    rw [last] at nodes pending observedAt
    refine ⟨nodes, pending, observedAt, fun failed => snapshot_stale (stale failed) ?_⟩
    obtain ⟨_, _, _, _, _, _, rfl⟩ := refresh_ok.mp success
    rw [last]
  · intro events s h failures now
    obtain ⟨last, -, -⟩ := run_failures h failures
    rw [State.snapshot, last]
    rfl

end KubernetesCapacity

namespace Sample

def nameSort : NodeSort where
  sort nodes := nodes.insertionSort fun a b => a.name ≤ b.name
  perm := List.perm_insertionSort _
  sorted nodes := by
    have total : Std.Total fun a b : GpuNodeCapacity => a.name ≤ b.name :=
      ⟨fun a b => le_total a.name b.name⟩
    have transitive : IsTrans GpuNodeCapacity fun a b => a.name ≤ b.name :=
      ⟨fun _ _ _ => le_trans⟩
    exact List.pairwise_insertionSort _ nodes

def collector : KubernetesCapacity :=
  ⟨FloatText.exact, LongDouble.exact, fun text => text, fun _ => "", nameSort⟩

/-- A page of a listing. -/
def clusterPage (items : List (Json Number)) (next : String) : Json Number :=
  .object [("items", .array items), ("metadata", .object [("continue", .string next)])]

def wholeGpus (count : Nat) : Json Number :=
  .object [("nvidia.com/gpu", .number (.unsigned (.ofNat count)))]

def listedNode (name : String) : Json Number :=
  .object [("metadata", .object [("name", .string name)]),
    ("status", .object [("allocatable", wholeGpus 8), ("capacity", wholeGpus 8)])]

def listedPod (node phase : String) (count : Nat) : Json Number :=
  .object [("spec", .object [
      ("containers", .array [.object [("resources", .object [("limits", wholeGpus count)])]]),
      ("nodeName", .string node)]),
    ("status", .object [("phase", .string phase)])]

def firstPods : List (Json Number) := [listedPod "a" "Running" 2, listedPod "a" "Succeeded" 4]

def otherPods : List (Json Number) := [listedPod "" "Pending" 1, listedPod "a" "Running" 3]

/-- Two pages of nodes and two of pods: bound ones, a finished one and an unbound one. -/
def clusterPages : List (String × Json Number) :=
  [("/api/v1/nodes?limit=100&continue=", clusterPage [listedNode "b"] "second"),
    ("/api/v1/nodes?limit=100&continue=second", clusterPage [listedNode "a"] ""),
    ("/api/v1/pods?limit=100&continue=", clusterPage firstPods "third"),
    ("/api/v1/pods?limit=100&continue=third", clusterPage otherPods "")]

def clusterServer (path : String) : Result HttpResult :=
  match Entries.lookup path clusterPages with
  | some page => .ok ⟨200, FloatText.exact.dump page⟩
  | none => .ok ⟨404, ""⟩

/-- A refresh that is stopped before its last page, or not. -/
def pagedRefresh (stopped : Bool) : Refresh where
  begin := 0
  nodes := [⟨false, 1, clusterServer⟩, ⟨false, 2, clusterServer⟩]
  pods := [⟨false, 3, clusterServer⟩, ⟨stopped, 4, clusterServer⟩]
  timestamp := ⟨"1970-01-01T00:00:00Z", by decide⟩
  finish := 5

theorem listedNode_valid (name : String) : (listedNode name).Valid (·.isFinite) fun _ => True :=
  .pair (by decide +kernel) trivial trivial (.single trivial (.string trivial))
    (.pair (by decide +kernel) trivial trivial (.single trivial (.number rfl))
      (.single trivial (.number rfl)))

theorem listedPod_valid (node phase : String) (count : Nat) :
    (listedPod node phase count).Valid (·.isFinite) fun _ => True := by
  have container : (Json.object [("resources", .object [("limits", wholeGpus count)])]).Valid
      (·.isFinite) fun _ => True :=
    .single trivial (.single trivial (.single trivial (.number rfl)))
  exact .pair (by decide +kernel) trivial trivial
    (.pair (by decide +kernel) trivial trivial (.array (by simpa using container))
      (.string trivial)) (.single trivial (.string trivial))

/-- A page of the server, as the loop finds it. -/
theorem clusterPage_given {x : PageExchange} {resource cursor next : String} {deadline : Int}
    {items : List (Json Number)} (running : x.stopRequested = false) (early : x.now < deadline)
    (answered : x.fetch (collector.path resource cursor) =
      .ok ⟨200, FloatText.exact.dump (clusterPage items next)⟩)
    (valid : ∀ item ∈ items, item.Valid (·.isFinite) fun _ => True)
    (reread : (clusterPage items next).map Number.reread = clusterPage items next) :
    KubernetesCapacity.Gives collector resource deadline x cursor items next := by
  have page : (clusterPage items next).Valid (·.isFinite) fun _ => True :=
    .pair (by decide +kernel) trivial trivial (.array valid) (.single trivial (.string trivial))
  have parses : collector.text.parse (FloatText.exact.dump (clusterPage items next)) =
      some (clusterPage items next) := by
    dsimp only [collector]
    rw [FloatText.exact.parse_dump page, reread]
  exact ⟨running, early, _, _, .array items, .object [("continue", .string next)], answered, parses,
    rfl, rfl, rfl, rfl⟩

/-- Each page of the server, asked for in time. -/
theorem clusterServer_gives {deadline now : Int} (early : now < deadline) :
    collector.Gives "/api/v1/nodes" deadline ⟨false, now, clusterServer⟩ "" [listedNode "b"]
      "second" ∧
    collector.Gives "/api/v1/nodes" deadline ⟨false, now, clusterServer⟩ "second" [listedNode "a"]
      "" ∧
    collector.Gives "/api/v1/pods" deadline ⟨false, now, clusterServer⟩ "" firstPods "third" ∧
    collector.Gives "/api/v1/pods" deadline ⟨false, now, clusterServer⟩ "third" otherPods "" := by
  refine ⟨clusterPage_given rfl early rfl ?_ rfl, clusterPage_given rfl early rfl ?_ rfl,
    clusterPage_given rfl early rfl ?_ rfl, clusterPage_given rfl early rfl ?_ rfl⟩
  · simpa using listedNode_valid "b"
  · simpa using listedNode_valid "a"
  · simp [firstPods, listedPod_valid]
  · simp [otherPods, listedPod_valid]

theorem pagedRefresh_presents :
    collector.Presents (pagedRefresh false) [listedNode "b", listedNode "a"]
      (firstPods ++ otherPods) := by
  have gives {now : Int} (early : now < (pagedRefresh false).deadline) := clusterServer_gives early
  constructor
  · exact ⟨.more (gives (by decide)).1 (by decide) List.not_mem_nil
      (.last (gives (by decide)).2.1), by decide⟩
  · exact ⟨.more (gives (by decide)).2.2.1 (by decide) List.not_mem_nil
      (.last (gives (by decide)).2.2.2), by decide⟩

theorem pagedRefresh_countable :
    collector.Countable [listedNode "b", listedNode "a"] (firstPods ++ otherPods) :=
  KubernetesCapacity.observe_total.mp ⟨_, _, rfl⟩

open KubernetesCapacity in
theorem pagedRefresh_fails : collector.FailsAt (pagedRefresh true) := by
  have gives {now : Int} (early : now < (pagedRefresh true).deadline) := clusterServer_gives early
  have nodes : Lists collector "/api/v1/nodes" (pagedRefresh true).deadline [] ""
      (pagedRefresh true).nodes ([listedNode "b"] ++ [listedNode "a"]) :=
    .more (gives (by decide)).1 (by decide) List.not_mem_nil (.last (gives (by decide)).2.1)
  obtain ⟨read, hread⟩ : ∃ read,
      [listedNode "b", listedNode "a"].foldlM collector.nodeStep [] = .ok read := ⟨_, rfl⟩
  obtain ⟨acc, hacc⟩ : ∃ acc,
      firstPods.foldlM (consumeItem collector.podStep) (0, (0, .empty)) = .ok acc := ⟨_, rfl⟩
  refine .inr ⟨⟨read, (eachPage_ok (Nat.zero_le _)).mpr ⟨_, nodes, by decide, hread⟩⟩,
    [⟨false, 3, clusterServer⟩], ⟨true, 4, clusterServer⟩, [],
    ⟨["third"], "third", acc.1, acc.2⟩, rfl, ?_, .stopped rfl⟩
  have named : "third" ≠ "" := by decide
  have first : collector.onePage "/api/v1/pods" collector.podStep (pagedRefresh true).deadline
      { state := (0, .empty) } ⟨false, 3, clusterServer⟩ =
        .ok ⟨["third"], "third", acc.1, acc.2⟩ :=
    onePage_ok.mpr ⟨firstPods, (gives (by decide)).2.2.1,
      .inr ⟨named, List.not_mem_nil, rfl⟩, hacc⟩
  exact .page .start first named

end Sample

open Sample in
/-- What was listed in pages stays published while a later refresh is stopped at its last page. -/
theorem KubernetesCapacity.cluster_refresh_paged : ∃ snapshot s,
    collector.refresh (pagedRefresh false) = some (.ok snapshot) ∧ snapshot.pending = 1 ∧
    (snapshot.nodes.map fun node => (node.name, node.reserved)).Perm [("a", 5), ("b", 0)] ∧
    collector.run {} [.refresh (pagedRefresh false), .refresh (pagedRefresh true)] = some s ∧
    ∀ now, (s.snapshot now).nodes = snapshot.nodes ∧ (s.snapshot now).pending = 1 ∧
      (s.snapshot now).fresh = false := by
  obtain ⟨succeeds, published, -, fails, last, -⟩ := cluster_refresh collector
  obtain ⟨snapshot, success⟩ := succeeds _ _ _ pagedRefresh_presents pagedRefresh_countable
  obtain ⟨⟨nodes, pods, presents, -, shows, -⟩, -⟩ := published _ _ success
  obtain rfl := lists_unique presents.1.1 pagedRefresh_presents.1.1
  obtain rfl := lists_unique presents.2.1 pagedRefresh_presents.2.1
  have pending : snapshot.pending = 1 := shows.pending.trans (by decide +kernel)
  obtain ⟨read, hread, perm⟩ := shows.nodes
  obtain rfl := Except.ok.inj (hread.symm.trans (by rfl))
  have committed := commit_ok (s := {}) success
  have stopped := fails (pagedRefresh true) ⟨snapshot, (pagedRefresh false).finish, true⟩
    pagedRefresh_fails
  have runs : collector.run {} ([.refresh (pagedRefresh false)] ++ [.refresh (pagedRefresh true)]) =
      some ⟨snapshot, (pagedRefresh false).finish, false⟩ := by
    rw [run_append, run_single, step_refresh, committed, Option.bind_some, run_single,
      step_refresh, stopped]
  have failures : ∀ r', .refresh r' ∈ [Event.refresh (pagedRefresh true)] →
      ∀ later, collector.refresh r' ≠ some (.ok later) := by
    intro r' hr' later hlater
    obtain ⟨⟩ := List.mem_singleton.mp hr'
    cases (commit_ok hlater).symm.trans stopped
  refine ⟨snapshot, _, success, pending, (perm.map _).trans (by decide +kernel), runs,
    fun now => ?_⟩
  obtain ⟨hnodes, hpending, -, stale⟩ := last [] _ snapshot _ _ runs success failures now
  exact ⟨hnodes, hpending.trans pending, stale ⟨_, List.mem_singleton.mpr rfl⟩⟩

end Runyard
