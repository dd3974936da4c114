import FlowGraph.Topology

/-!
# Flowcharts

A topology drawn as the text of a Mermaid flowchart: the entry and the exit,
one line for each node in the order of adding, one for each static edge, and
one for each route, the routes of a router in order of their labels.

* `Topology.flowchartLines`, `Topology.flowchart`: the lines, and the text as a whole.
-/

namespace FlowGraph

/-- The line of a node; nested graphs have a double frame. -/
def Node.line {γ : Type} (node : Node γ) : String :=
  if node.body.isSubgraph then s!"    {node.id}[[\"{node.id}\"]]\n"
  else s!"    {node.id}[\"{node.id}\"]\n"

namespace Topology

/-- The line of a static edge. -/
def edgeLine (edge : String × String) : String := s!"    {edge.1} --> {edge.2}\n"

/-- The line of one route of a router. -/
def routeLine (source : String) (route : String × String) : String :=
  s!"    {source} -.->|{route.1}| {route.2}\n"

/-- The lines of a router, labels in order. -/
def routerLines (entry : String × Router) : List String :=
  entry.2.routes.fields.map (routeLine entry.1)

/-- The lines of the entry and the exit. -/
def frameLines : List String :=
  ["flowchart TD\n", s!"    {startId}((start))\n", s!"    {endId}((stop))\n"]

/-- All lines of the flowchart. -/
def flowchartLines {γ : Type} (topology : Topology γ) : List String :=
  frameLines ++ topology.nodes.map Node.line ++ topology.edges.map edgeLine
    ++ topology.routers.flatMap routerLines

/-- The flowchart of a topology. -/
def flowchart {γ : Type} (topology : Topology γ) : String :=
  String.join topology.flowchartLines

end Topology

end FlowGraph
