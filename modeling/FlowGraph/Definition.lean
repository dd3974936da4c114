import FlowGraph.Scan

/-!
# The compiler

From a composer to its graph: the members are scanned into a plan, and the plan
is built with the composer's hooks.  Every error of a marked composer names the
id that the graph would have had.

* `Compiler.define`: a composer with a marker, under the id of its graph.
* `Compiler.compile`: any composer.
-/

namespace FlowGraph

/-- The id of the graph of a composer: the marker's, or else the type name. -/
def Composer.graphId (composer : Composer) (marker : Marker) : String :=
  (Text.given marker.id).getD composer.typeName

/-- Makes graphs from composers. -/
structure Compiler where
  /-- Stands in for missing values of members. -/
  supplier : Supplier := .none
  /-- Are offered every member before the built-in handlers. -/
  extensions : List Handler := []

namespace Compiler

/-- The plan before any member is scanned. -/
def emptyPlan (compiler : Compiler) (graphId : String) : Plan :=
  { graphId, supplier := compiler.supplier }

/-- Scan the members of a composer for the graph with the given id. -/
def scanMembers (compiler : Compiler) (graphId : String) (members : List Member) :
    Except DefinitionError Unit × Plan :=
  scan compiler.extensions members (compiler.emptyPlan graphId)

/-- The graph of a marked composer. -/
def define (compiler : Compiler) (graphId : String) (composer : Composer) :
    Except DefinitionError Graph :=
  match compiler.scanMembers graphId composer.members with
  | (.error error, _) => .error error
  | (.ok (), plan) => (plan.build composer.hooks).mapError plan.error

/-- The graph of a composer. -/
def compile (compiler : Compiler) (composer : Composer) : Except CompileError Graph :=
  match composer.marker with
  | none => .error (.notAComposer composer.typeName)
  | some marker =>
    (compiler.define (composer.graphId marker) composer).mapError .definition

end Compiler

end FlowGraph
