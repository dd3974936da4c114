/-!
# What goes wrong in a graph

One list of causes for building a graph and for running one.  The first group
describes a structure that is not a graph; the rest is what a run can end in.

* `Fault.message`, `Fault.name`: the wording of each cause, and a name for it.
* `Fault.isStructural`: which group a cause belongs to.
-/

namespace FlowGraph

/-- A cause for refusing a graph, or for ending a run. -/
inductive Fault where
  /-- A node with this id is there already. -/
  | duplicateNode (id : String)
  /-- The id belongs to the entry or to the exit. -/
  | reservedNodeId (id : String)
  /-- The same static edge was given before. -/
  | duplicateEdge (source target : String)
  /-- The source has a router already. -/
  | duplicateRouter (source : String)
  /-- The source would have static edges and a router. -/
  | mixedEdges (source : String)
  /-- An edge leaves the exit or enters the entry. -/
  | invalidEndpoint (source target : String)
  /-- Nothing leaves the entry. -/
  | missingEntryPoint
  /-- Something refers to a node that is not there. -/
  | unknownNode (node context : String)
  /-- Any other fault of the structure. -/
  | invalid (reason : String)
  /-- An action reports a failure. -/
  | actionFailed (reason : String)
  /-- A node, or its router, failed during a run. -/
  | nodeFailed (node message : String)
  /-- A router chose a label without a destination. -/
  | unknownRoute (node label : String)
  /-- The run used up its steps. -/
  | stepLimitExceeded (limit : Nat)
  /-- A value could not be written or read. -/
  | serialization (detail : String)
deriving DecidableEq, Repr

namespace Fault

/-- The wording of a fault. -/
def message : Fault → String
  | .duplicateNode id => s!"node '{id}' already exist"
  | .reservedNodeId id => s!"node id '{id}' is reserved"
  | .duplicateEdge source target => s!"edge from '{source}' to '{target}' is duplicate"
  | .duplicateRouter source => s!"conditional edges from '{source}' are duplicate"
  | .mixedEdges source => s!"node '{source}' cannot have both static and conditional edges"
  | .invalidEndpoint source target => s!"invalid edge endpoint: '{source}' -> '{target}'"
  | .missingEntryPoint => "missing entry point: no edge leaves START"
  | .unknownNode node context => s!"{context} references unknown node '{node}'"
  | .invalid reason => s!"invalid graph: {reason}"
  | .actionFailed reason => s!"action failed: {reason}"
  | .nodeFailed node message => s!"node '{node}' failed: {message}"
  | .unknownRoute node label => s!"route '{label}' from '{node}' has no mapped destination"
  | .stepLimitExceeded limit => s!"run exceeded max steps ({limit})"
  | .serialization detail => s!"Serialization error: {detail}"

/-- The name of a fault. -/
def name : Fault → String
  | .duplicateNode _ => "DuplicateNode"
  | .reservedNodeId _ => "ReservedNodeId"
  | .duplicateEdge _ _ => "DuplicateEdge"
  | .duplicateRouter _ => "DuplicateConditionalEdges"
  | .mixedEdges _ => "MixedEdges"
  | .invalidEndpoint _ _ => "InvalidEndpoint"
  | .missingEntryPoint => "MissingEntryPoint"
  | .unknownNode _ _ => "UnknownNode"
  | .invalid _ => "Invalid"
  | .actionFailed _ => "ActionFailed"
  | .nodeFailed _ _ => "NodeFailed"
  | .unknownRoute _ _ => "UnknownRoute"
  | .stepLimitExceeded _ => "StepLimitExceeded"
  | .serialization _ => "Serialization"

/-- Whether a fault is about the structure of a graph rather than about a run. -/
def isStructural : Fault → Bool
  | .actionFailed _ | .nodeFailed _ _ | .unknownRoute _ _ | .stepLimitExceeded _
  | .serialization _ => false
  | _ => true

/-- A fault as seen from the node it came out of: the innermost node that
failed is named once, and everything else is named after this node. -/
def atNode (node : String) : Fault → Fault
  | .nodeFailed inner message => .nodeFailed inner message
  | fault => .nodeFailed node fault.message

/-- A fault seen from a node is a failure of some node. -/
theorem atNode_eq_nodeFailed (node : String) (fault : Fault) :
    ∃ inner message, fault.atNode node = .nodeFailed inner message := by
  cases fault <;> exact ⟨_, _, rfl⟩

/-- Naming is done once: a second node changes nothing. -/
@[simp] theorem atNode_atNode (outer inner : String) (fault : Fault) :
    (fault.atNode inner).atNode outer = fault.atNode inner := by
  cases fault <;> rfl

end Fault

end FlowGraph
