import Runyard.Cluster.Resources
import Runyard.Serialization.Codec
import Runyard.Serialization.Text
import Runyard.System

/-!
# The snapshot of the cluster

`kubernetes_capacity.cpp`: a refresh reads the nodes and the pods of the cluster page by page and
then replaces the published snapshot under the lock; readers take a copy. What the server, the
clock and the stop token say during a refresh is an input of the call. A call that waits for the
next answer has not returned.
-/

namespace Runyard

structure HttpResult where
  status : Int
  body : String

structure ClusterGpuSnapshot where
  nodes : List GpuNodeCapacity := []
  pending : Int := 0
  observedAt : String := ""
  ageSeconds : Option Int := none
  fresh : Bool := false
  deriving DecidableEq, Repr

/-- What one iteration of the loop over pages finds. -/
structure PageExchange where
  stopRequested : Bool := false
  now : Int
  fetch : String → Result HttpResult

/-- The variables of the loop over pages, with what the callback has built. -/
structure Scan (σ : Type) where
  cursors : List String := []
  cursor : String := ""
  total : Nat := 0
  state : σ

/-- Everything that a call of `refresh` meets. -/
structure Refresh where
  begin : Int
  nodes : List PageExchange
  pods : List PageExchange
  /-- The time of day as text, which is never empty. -/
  timestamp : { text : String // text ≠ "" }
  finish : Int

def Refresh.deadline (r : Refresh) : Int := r.begin + seconds 10

/-- `std::sort` by the names, which need not be stable. -/
structure NodeSort where
  sort : List GpuNodeCapacity → List GpuNodeCapacity
  perm : ∀ nodes, (sort nodes).Perm nodes
  sorted : ∀ nodes, (sort nodes).Pairwise fun a b => a.name ≤ b.name

/-- The libraries that the collector uses. -/
structure KubernetesCapacity where
  text : FloatText
  arithmetic : LongDouble
  escape : String → String
  /-- The text of the exception of `Json::parse`. -/
  parseError : String → String
  sort : NodeSort

def StringMap.getD (m : StringMap Int) (key : String) : Int := (Entries.lookup key m.entries).getD 0

namespace KubernetesCapacity

variable (c : KubernetesCapacity)

def parse (body : String) : Json.Access (Json Number) :=
  match c.text.parse body with
  | some page => .ok page
  | none => .error (c.parseError body)

def path (resource cursor : String) : String :=
  resource ++ "?limit=100&continue=" ++ c.escape cursor

section Pages

variable {σ : Type} (resource : String) (consume : σ → Json Number → Checked σ) (deadline : Int)

def consumeItem (acc : Nat × σ) (item : Json Number) : Checked (Nat × σ) := do
  throwIf (10000 < acc.1 + 1) .exhausted "cluster capacity inventory exceeds 10000 resources"
  return (acc.1 + 1, ← consume acc.2 item)

/-- One page. -/
def onePage (scan : Scan σ) (x : PageExchange) : Checked (Scan σ) := do
  throwIf (x.stopRequested || deadline ≤ x.now) .unavailable
    "capacity scan interrupted or timed out"
  let response ← x.fetch (c.path resource scan.cursor)
  throwIf (response.status ≠ 200) .unavailable "cluster capacity listing unavailable"
  let page ← c.parse response.body
  let items ← page.field "items"
  let (total, state) ← items.elements.foldlM (consumeItem consume) (scan.total, scan.state)
  let cursor ← (← page.field "metadata").valueOr "continue" "" Json.getString
  throwIf (cursor ≠ "" && scan.cursors.contains cursor) .unavailable
    "cluster capacity pagination repeated a cursor"
  return ⟨if cursor = "" then scan.cursors else cursor :: scan.cursors, cursor, total, state⟩

/-- The loop; `none` while it waits for another page. -/
def eachPage (scan : Scan σ) : List PageExchange → Option (Checked σ)
  | [] => none
  | x :: rest =>
    match c.onePage resource consume deadline scan x with
    | .error e => some (.error e)
    | .ok next => if next.cursor = "" then some (.ok next.state) else eachPage next rest

end Pages

def nodeStep (nodes : List GpuNodeCapacity) (node : Json Number) :
    Checked (List GpuNodeCapacity) := do
  return nodes ++ [← gpuNodeCapacity c.arithmetic node]

/-- The callback for pods, over the pending requests and the requests by node. -/
def podStep (acc : Int × StringMap Int) (pod : Json Number) : Checked (Int × StringMap Int) := do
  let status ← pod.valueOr "status" (.object []) .ok
  let phase ← status.valueOr "phase" "" Json.getString
  if phase = "Succeeded" || phase = "Failed" then return acc
  else do
    let count ← podGpuRequest c.arithmetic pod
    let node ← (← pod.field "spec").valueOr "nodeName" "" Json.getString
    if node = "" then do return (← int64Add acc.1 count, acc.2)
    else do return (acc.1, acc.2.insert node (← int64Add (acc.2.getD node) count))

/-- The nodes with what is reserved on them. -/
def reserve (reservations : StringMap Int) (nodes : List GpuNodeCapacity) :
    List GpuNodeCapacity :=
  c.sort.sort (nodes.map fun node => { node with reserved := reservations.getD node.name })

def refresh (r : Refresh) : Option (Checked ClusterGpuSnapshot) :=
  match c.eachPage "/api/v1/nodes" c.nodeStep r.deadline { state := [] } r.nodes with
  | none => none
  | some (.error e) => some (.error e)
  | some (.ok nodes) =>
    match c.eachPage "/api/v1/pods" c.podStep r.deadline { state := (0, .empty) } r.pods with
    | none => none
    | some (.error e) => some (.error e)
    | some (.ok (pending, reservations)) =>
      some (.ok { nodes := c.reserve reservations nodes, pending, observedAt := r.timestamp })

structure State where
  last : ClusterGpuSnapshot := {}
  observed : Int := 0
  successful : Bool := false

/-- The end of a call of `refresh`. Nothing is defined after an overflow. -/
def commit (r : Refresh) (s : State) : Option State :=
  match c.refresh r with
  | none => none
  | some (.ok next) => some ⟨next, r.finish, true⟩
  | some (.error (.thrown _)) => some { s with successful := false }
  | some (.error .overflow) => none

def State.snapshot (s : State) (now : Int) : ClusterGpuSnapshot :=
  if s.last.observedAt = "" then s.last
  else
    let age := max 0 ((now - s.observed).tdiv (seconds 1))
    { s.last with
      ageSeconds := some age
      fresh := s.successful && age < 45 }

inductive Event where
  | refresh (r : Refresh)
  | read (now : Int)

/-- The collector thread and the readers. -/
def system : System State Event where
  init := {}
  step s
    | .refresh r => c.commit r s
    | .read _ => some s

end KubernetesCapacity

end Runyard
