import FlowGraph.Topology

/-!
# Supersteps

A machine is a graph whose nested graphs are known only by what they do.  It
runs in supersteps: every node of the frontier acts on one snapshot of the
store, their updates are written in frontier order, and then the router or the
static edges of each node, again in frontier order, say which nodes come next.

Between two supersteps the run stands at a `Boundary`, a store and the ids of
the nodes to run next, with the exit left out.

* `Machine.enter`: the first boundary, from the inputs.
* `Machine.advance`: one superstep, from a boundary to the next.
* `Machine.run`: boundaries are passed until nothing is left to run, a node to
  stop before comes up, or the steps are used up, asked in this order.
* `Machine.loop_of_halts`, `Machine.loop_succ`: **the equations of a run**.
-/

namespace FlowGraph

/-- What a node body does, told the id of its node. -/
def Body.act (id : String) : Body Runner → Action
  | .action run => run
  | .executor run => run id
  | .subgraph run => run

/-- A graph whose nested graphs are known only by what they do. -/
structure Machine where
  keys : KeyTable
  topology : Topology Runner
  config : CompileConfig

/-- The state of a run between two supersteps. -/
structure Boundary where
  store : Store
  /-- The nodes to run next, in order; the exit is never among them. -/
  frontier : List String

/-- The boundary with the given targets, of which the exit is dropped. -/
def Boundary.at (store : Store) (targets : List String) : Boundary :=
  ⟨store, targets.filter fun id => !(id == endId)⟩

/-- Add the targets that are not in a list yet at its end, in order. -/
def addNew (ids targets : List String) : List String :=
  targets.foldl (fun ids id => if ids.contains id then ids else ids ++ [id]) ids

namespace Machine

variable (m : Machine)

/-- What comes after a node: the targets of its static edges, or the one
destination that its router chooses, whose update is written at once. -/
def successors (ctx : RunConfig) (source : String) (store : Store) :
    Except Fault (List String × Store) :=
  match m.topology.router? source with
  | none => .ok (m.topology.targets source, store)
  | some router =>
    match router.choose store ctx with
    | .error fault => .error (.nodeFailed source fault.message)
    | .ok decision =>
      match router.routes.get? decision.goto with
      | none => .error (.unknownRoute source decision.goto)
      | some target => .ok ([target], store.update m.keys decision.update)

/-- The node that a frontier names. -/
def nodeOf (id : String) : Except Fault (Node Runner) :=
  match m.topology.node? id with
  | some node => .ok node
  | none => .error (.unknownNode id "frontier")

/-- What a node makes of a snapshot; a failure is named after the node. -/
def output (ctx : RunConfig) (store : Store) (node : Node Runner) : Except Fault Update :=
  (node.body.act node.id store ctx).mapError (Fault.atNode node.id)

/-- The rules for writing a node's update: a nested graph hands back a whole
store, whose values stand as they are. -/
def rulesFor (node : Node Runner) : KeyTable :=
  if node.body.isSubgraph then .empty else m.keys

/-- Write the update of one node. -/
def absorb (store : Store) (result : Node Runner × Update) : Store :=
  store.update (m.rulesFor result.1) result.2

/-- Every node of a frontier acts on the same store; then the updates are
written in frontier order.  The first node in this order that fails decides
the fault. -/
def actAll (ctx : RunConfig) (b : Boundary) : Except Fault Store := do
  let nodes ← b.frontier.mapM m.nodeOf
  let updates ← nodes.mapM (output ctx b.store)
  return (nodes.zip updates).foldl m.absorb b.store

/-- Collect what comes after each node of a list, each id once, in order; the
updates of routers are seen by the routers after them. -/
def routeAll (ctx : RunConfig) : List String → List String → Store →
    Except Fault (List String × Store)
  | [], next, store => .ok (next, store)
  | id :: rest, next, store =>
    match m.successors ctx id store with
    | .error fault => .error fault
    | .ok (targets, store) => routeAll ctx rest (addNew next targets) store

/-- The first boundary: the inputs are written to an empty store, and the run
follows what leaves the entry. -/
def enter (ctx : RunConfig) (inputs : Store) : Except Fault Boundary := do
  let (targets, store) ← m.successors ctx startId (Store.update m.keys .empty inputs)
  return .at store targets

/-- One superstep. -/
def advance (ctx : RunConfig) (b : Boundary) : Except Fault Boundary := do
  let merged ← m.actAll ctx b
  let (next, store) ← m.routeAll ctx b.frontier [] merged
  return .at store next

/-- Whether a node to stop before is up next. -/
def interrupts (b : Boundary) : Bool :=
  b.frontier.any fun id => m.config.interruptBefore.contains id

/-- Whether a run ends here with the store it has. -/
def halts (b : Boundary) : Bool := b.frontier.isEmpty || m.interrupts b

/-- Pass boundaries until the run ends, at most `budget` times. -/
def loop (ctx : RunConfig) : (budget : Nat) → Boundary → Except Fault Store
  | 0, b =>
    if m.halts b then .ok b.store else .error (.stepLimitExceeded m.config.maxSteps)
  | budget + 1, b =>
    if m.halts b then .ok b.store
    else
      match m.advance ctx b with
      | .error fault => .error fault
      | .ok next => loop ctx budget next

/-- A whole run: the final store, or the fault that ended it. -/
def run (inputs : Store) (ctx : RunConfig) : Except Fault Store :=
  match m.enter ctx inputs with
  | .error fault => .error fault
  | .ok b => m.loop ctx m.config.maxSteps b

/-- A run that ends at a boundary hands back its store, whatever the budget. -/
theorem loop_of_halts (ctx : RunConfig) (budget : Nat) {b : Boundary}
    (h : m.halts b = true) : m.loop ctx budget b = .ok b.store := by
  cases budget <;> simp [loop, h]

/-- A run that goes on spends one step on a superstep. -/
theorem loop_succ (ctx : RunConfig) (budget : Nat) {b : Boundary} (h : m.halts b = false) :
    m.loop ctx (budget + 1) b = (m.advance ctx b).bind (m.loop ctx budget) := by
  simp only [loop, h]
  cases m.advance ctx b <;> rfl

end Machine

end FlowGraph
