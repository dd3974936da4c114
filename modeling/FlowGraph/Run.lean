import FlowGraph.Fault
import FlowGraph.Store

/-!
# What a run is given and what it is asked

The options fixed when a graph is compiled, the context handed to every action
of one run, and the two kinds of answer that an action gives: an update of the
store, or a decision where to go next.
-/

namespace FlowGraph

/-- The name of the entry, where every run starts. -/
def startId : String := "__START__"

/-- The name of the exit, where paths of a run end. -/
def endId : String := "__END__"

/-- Options fixed when a graph is compiled. -/
structure CompileConfig where
  /-- How many supersteps a run may take. -/
  maxSteps : Nat := 1000
  /-- Ids of nodes before which a run stops and hands back its store. -/
  interruptBefore : List String := []
deriving DecidableEq, Repr, Inhabited

/-- What every action of one run may look at beside the store. -/
structure RunConfig where
  /-- The conversation the run belongs to. -/
  threadId : Option String := none
  /-- Free-form entries. -/
  metadata : Table Json := .empty
deriving DecidableEq, Inhabited

/-- A router's answer: a label, and an update made before moving on. -/
structure Decision where
  /-- The label to look up among the routes. -/
  goto : String
  /-- New values written before the next node sees the store. -/
  update : Update := .empty
deriving DecidableEq, Inhabited

/-- A node action in its full form. -/
abbrev Action := Store → RunConfig → Except Fault Update

/-- A routing action in its full form. -/
abbrev Choice := Store → RunConfig → Except Fault Decision

/-- What a whole graph does with its inputs. -/
abbrev Runner := Store → RunConfig → Except Fault Store

end FlowGraph
