import FlowGraph.Machine
import FlowGraph.Text.Quoted

/-!
# Compiled graphs

A graph ready to run.  Its nodes may be graphs themselves, to any depth; to run
it, every nested graph is replaced by what it does, and the machine that comes
out is run.

* `Graph.run_eq`: a graph runs as the machine over the runs of its children.
* `Graph.induct`: **induction on nesting**, a fact about a graph may be assumed
  of the graphs in its nodes.
-/

namespace FlowGraph

/-- A graph ready to run. -/
structure Graph where
  id : String
  /-- The write rules of its keys. -/
  keys : KeyTable
  /-- Its nodes, edges and routers; nested graphs stand in its nodes. -/
  topology : Topology Graph
  config : CompileConfig

namespace Graph

mutual

/-- Run a graph on inputs: the final store, or the fault that ended the run. -/
def run : Graph → Store → RunConfig → Except Fault Store
  | ⟨_, keys, ⟨nodes, edges, routers⟩, config⟩ =>
    Machine.run ⟨keys, ⟨runNodes nodes, edges, routers⟩, config⟩

/-- The nodes of a graph, their nested graphs replaced by what they do. -/
def runNodes : List (Node Graph) → List (Node Runner)
  | [] => []
  | node :: rest => runNode node :: runNodes rest

/-- A node, its nested graph replaced by what it does. -/
def runNode : Node Graph → Node Runner
  | ⟨id, body⟩ => ⟨id, runBody body⟩

/-- A node body, its nested graph replaced by what it does. -/
def runBody : Body Graph → Body Runner
  | .action act => .action act
  | .executor act => .executor act
  | .subgraph graph => .subgraph graph.run

end

/-- The machine of a graph: every nested graph is replaced by what it does. -/
def machine (graph : Graph) : Machine :=
  ⟨graph.keys, graph.topology.map run, graph.config⟩

/-- What a node does in the machine of its graph. -/
theorem runNode_eq (node : Node Graph) : runNode node = node.map run := by
  obtain ⟨id, body⟩ := node
  cases body <;> simp only [runNode, runBody, Node.map, Body.map]

/-- What the nodes do in the machine of their graph. -/
theorem runNodes_eq (nodes : List (Node Graph)) : runNodes nodes = nodes.map (Node.map run) := by
  induction nodes with
  | nil => rfl
  | cons node rest ih => rw [runNodes, runNode_eq, ih, List.map_cons]

/-- **A graph runs as its machine.** -/
theorem run_eq (graph : Graph) : graph.run = graph.machine.run := by
  obtain ⟨id, keys, ⟨nodes, edges, routers⟩, config⟩ := graph
  rw [run, runNodes_eq]
  rfl

/-- The machine of a graph finds what stands in the nodes of the graph. -/
theorem machine_node? (graph : Graph) (id : String) :
    graph.machine.topology.node? id = (graph.topology.node? id).map (Node.map run) :=
  Topology.node?_map run graph.topology id

mutual

/-- **Induction on nesting.**  What holds of a graph whenever it holds of the
graphs in its nodes holds of every graph. -/
theorem induct {motive : Graph → Prop}
    (hstep : ∀ graph : Graph,
      (∀ node ∈ graph.topology.nodes, ∀ child, node.body = .subgraph child → motive child) →
      motive graph) :
    (graph : Graph) → motive graph
  | ⟨id, keys, ⟨nodes, edges, routers⟩, config⟩ =>
    hstep ⟨id, keys, ⟨nodes, edges, routers⟩, config⟩ (induct_nodes hstep nodes)

/-- The induction hypothesis for a list of nodes. -/
theorem induct_nodes {motive : Graph → Prop}
    (hstep : ∀ graph : Graph,
      (∀ node ∈ graph.topology.nodes, ∀ child, node.body = .subgraph child → motive child) →
      motive graph) :
    (nodes : List (Node Graph)) →
      ∀ node ∈ nodes, ∀ child, node.body = .subgraph child → motive child
  | [], _, hmem, _, _ => nomatch hmem
  | ⟨id, body⟩ :: rest, node, hmem, child, hbody => by
      rcases List.mem_cons.mp hmem with rfl | hmem
      · exact induct_body hstep body child hbody
      · exact induct_nodes hstep rest node hmem child hbody

/-- The induction hypothesis for a node body. -/
theorem induct_body {motive : Graph → Prop}
    (hstep : ∀ graph : Graph,
      (∀ node ∈ graph.topology.nodes, ∀ child, node.body = .subgraph child → motive child) →
      motive graph) :
    (body : Body Graph) → ∀ child, body = .subgraph child → motive child
  | .subgraph graph, child, hbody => by
      cases hbody
      exact induct hstep graph

end

/-! ## Looking at a graph -/

/-- The ids of the nodes, in the order in which they were added. -/
def nodeIds (graph : Graph) : List String := graph.topology.nodeIds

/-- A graph on one line: its id, its keys in order and its nodes. -/
def describe (graph : Graph) : String :=
  let id := Text.quote graph.id
  let keys := Text.quotedList graph.keys.keys
  let nodes := Text.quotedList graph.nodeIds
  s!"CompiledGraph \x7b id: {id}, keys: {keys}, nodes: {nodes} \x7d"

end Graph

end FlowGraph
