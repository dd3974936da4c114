import FlowGraph.Run
import FlowGraph.Text.Blank

/-!
# Nodes, edges and routers

The structure of a graph: nodes, static edges and routers, each in the order in
which they were added.  The type of nested graphs is a parameter, so the same
structure serves for graphs inside graphs and for what those graphs do.

* `Topology.map`: exchange the nested graphs and keep everything else.
* `Topology.mayBegin`, `Topology.mayEnd`: where an edge may begin and end.
-/

namespace FlowGraph

/-- What stands behind a node; `γ` is what stands for a nested graph. -/
inductive Body (γ : Type) where
  /-- An action in its full form. -/
  | action (run : Action)
  /-- An action that is also told the id of the node it runs as. -/
  | executor (run : String → Action)
  /-- A nested graph, run on the whole store. -/
  | subgraph (graph : γ)

/-- A node: an id and what stands behind it. -/
structure Node (γ : Type) where
  id : String
  body : Body γ

/-- A router: how to choose a label, and where the labels lead. -/
structure Router where
  choose : Choice
  routes : Table String

/-- Nodes, static edges and routers, in the order in which they were added. -/
structure Topology (γ : Type) where
  nodes : List (Node γ) := []
  edges : List (String × String) := []
  routers : List (String × Router) := []

/-- Exchange the nested graph of a node body. -/
def Body.map {γ δ : Type} (f : γ → δ) : Body γ → Body δ
  | .action run => .action run
  | .executor run => .executor run
  | .subgraph graph => .subgraph (f graph)

/-- Whether a node body is a nested graph. -/
def Body.isSubgraph {γ : Type} : Body γ → Bool
  | .subgraph _ => true
  | _ => false

/-- Exchange the nested graph of a node. -/
def Node.map {γ δ : Type} (f : γ → δ) (node : Node γ) : Node δ :=
  ⟨node.id, node.body.map f⟩

namespace Topology

variable {γ δ : Type}

/-- Exchange all nested graphs. -/
def map (f : γ → δ) (topology : Topology γ) : Topology δ :=
  ⟨topology.nodes.map (Node.map f), topology.edges, topology.routers⟩

/-- The node with an id. -/
def node? (topology : Topology γ) (id : String) : Option (Node γ) :=
  topology.nodes.find? fun node => node.id == id

/-- Whether a node with an id is there. -/
def hasNode (topology : Topology γ) (id : String) : Bool :=
  topology.nodes.any fun node => node.id == id

/-- The ids of the nodes. -/
def nodeIds (topology : Topology γ) : List String := topology.nodes.map Node.id

/-- The targets of the static edges from a source. -/
def targets (topology : Topology γ) (source : String) : List String :=
  (topology.edges.filter fun edge => edge.1 == source).map Prod.snd

/-- The router of a source, if it has one. -/
def router? (topology : Topology γ) (source : String) : Option Router :=
  (topology.routers.find? fun entry => entry.1 == source).map Prod.snd

/-- An edge may begin at the entry or at a node. -/
def mayBegin (topology : Topology γ) (id : String) : Bool :=
  id == startId || topology.hasNode id

/-- An edge may end at the exit or at a node. -/
def mayEnd (topology : Topology γ) (id : String) : Bool :=
  id == endId || topology.hasNode id

/-- The static edges stay. -/
@[simp] theorem edges_map (f : γ → δ) (topology : Topology γ) :
    (topology.map f).edges = topology.edges := rfl

/-- The routers stay. -/
@[simp] theorem routers_map (f : γ → δ) (topology : Topology γ) :
    (topology.map f).routers = topology.routers := rfl

/-- The ids of the nodes stay. -/
@[simp] theorem nodeIds_map (f : γ → δ) (topology : Topology γ) :
    (topology.map f).nodeIds = topology.nodeIds := by
  simp [nodeIds, map, Node.map, Function.comp_def]

/-- An id is among the ids iff there is a node with it. -/
theorem hasNode_iff (topology : Topology γ) (id : String) :
    topology.hasNode id = true ↔ id ∈ topology.nodeIds := by
  simp [hasNode, nodeIds]

/-- Look-ups of nodes commute with exchanging nested graphs. -/
theorem node?_map (f : γ → δ) (topology : Topology γ) (id : String) :
    (topology.map f).node? id = (topology.node? id).map (Node.map f) := by
  simp [node?, map, List.find?_map, Function.comp_def, Node.map]

end Topology

end FlowGraph
