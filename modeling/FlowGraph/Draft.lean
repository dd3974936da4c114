import FlowGraph.Graph

/-!
# Drafts

A draft is a graph under construction.  It is changed by calls, each of which
adds one node, one static edge or one router, or is refused with the first rule
that it breaks.  Compiling checks the draft as a whole and fixes its options.

* `Draft.apply`: one call.
* `Draft.attempt`, `Draft.attemptAll`: calls made in turn, refused ones skipped.
* `Draft.wholeRules`, `Draft.compile`: the checks of the whole, and the graph.
-/

namespace FlowGraph

/-- A graph under construction. -/
structure Draft where
  id : String
  /-- The write rules of its keys. -/
  keys : KeyTable
  topology : Topology Graph := {}

/-- One change of a draft. -/
inductive Draft.Call where
  /-- Add a node. -/
  | node (id : String) (body : Body Graph)
  /-- Add a static edge. -/
  | edge (source target : String)
  /-- Add a router to a source. -/
  | router (source : String) (router : Router)

namespace Draft

/-- Accept a value, unless one of the rules in the list is broken: the first
broken one decides. -/
def unlessBroken {α : Type} (rules : List (Bool × Fault)) (value : α) : Except Fault α :=
  match rules.find? Prod.fst with
  | some (_, fault) => .error fault
  | none => .ok value

/-- What a new node must not break, in the order in which it is asked. -/
def nodeRules (draft : Draft) (id : String) : List (Bool × Fault) :=
  [(Text.isBlank id, .invalid "node id must not be blank"),
   (id == startId || id == endId, .reservedNodeId id),
   (draft.topology.hasNode id, .duplicateNode id)]

/-- What a new static edge must not break, in the order in which it is asked. -/
def edgeRules (draft : Draft) (source target : String) : List (Bool × Fault) :=
  [(Text.isBlank source || Text.isBlank target, .invalid "edge endpoints must not be blank"),
   (source == endId || target == startId, .invalidEndpoint source target),
   (draft.topology.edges.contains (source, target), .duplicateEdge source target),
   ((draft.topology.router? source).isSome, .mixedEdges source)]

/-- What a new router must not break, in the order in which it is asked. -/
def routerRules (draft : Draft) (source : String) (router : Router) : List (Bool × Fault) :=
  [(Text.isBlank source, .invalid "conditional edge source must not be blank"),
   (source == endId, .invalidEndpoint source "<conditional>"),
   (router.routes.isEmpty, .invalid s!"conditional edges from '{source}' have no routes"),
   ((draft.topology.router? source).isSome, .duplicateRouter source),
   (draft.topology.edges.any fun edge => edge.1 == source, .mixedEdges source)]

/-- What a call must not break. -/
def rules (draft : Draft) : Call → List (Bool × Fault)
  | .node id _ => draft.nodeRules id
  | .edge source target => draft.edgeRules source target
  | .router source router => draft.routerRules source router

/-- The draft with the addition of a call, at the end of its list. -/
def extend (draft : Draft) : Call → Draft
  | .node id body =>
    { draft with topology.nodes := draft.topology.nodes ++ [⟨id, body⟩] }
  | .edge source target =>
    { draft with topology.edges := draft.topology.edges ++ [(source, target)] }
  | .router source router =>
    { draft with topology.routers := draft.topology.routers ++ [(source, router)] }

/-- Make a call: the draft with its addition, or the first rule that it breaks. -/
def apply (draft : Draft) (call : Call) : Except Fault Draft :=
  unlessBroken (draft.rules call) (draft.extend call)

/-- Add a node that runs an action. -/
def addNode (draft : Draft) (id : String) (run : Action) : Except Fault Draft :=
  draft.apply (.node id (.action run))

/-- Add a node that runs an action which is told its node's id. -/
def addExecutor (draft : Draft) (id : String) (run : String → Action) : Except Fault Draft :=
  draft.apply (.node id (.executor run))

/-- Add a node that runs a graph. -/
def addSubgraph (draft : Draft) (id : String) (graph : Graph) : Except Fault Draft :=
  draft.apply (.node id (.subgraph graph))

/-- Add a static edge. -/
def addEdge (draft : Draft) (source target : String) : Except Fault Draft :=
  draft.apply (.edge source target)

/-- Add a router with its routes. -/
def addRouter (draft : Draft) (source : String) (choose : Choice) (routes : Table String) :
    Except Fault Draft :=
  draft.apply (.router source ⟨choose, routes⟩)

/-- The draft after a call that may be refused: a refused call changes nothing. -/
def attempt (draft : Draft) (call : Call) : Draft :=
  match draft.apply call with
  | .ok next => next
  | .error _ => draft

/-- The draft after a list of calls, of which some may be refused. -/
def attemptAll (draft : Draft) (calls : List Call) : Draft := calls.foldl attempt draft

/-- The draft after a list of calls, up to the first that is refused. -/
def applyAll (draft : Draft) (calls : List Call) : Except Fault Draft :=
  calls.foldlM apply draft

/-! ## Compiling -/

/-- What a static edge must not break when a draft is compiled. -/
def edgeEndRules (topology : Topology Graph) (edge : String × String) : List (Bool × Fault) :=
  let context := s!"edge '{edge.1}' -> '{edge.2}'"
  [(!topology.mayBegin edge.1, .unknownNode edge.1 context),
   (!topology.mayEnd edge.2, .unknownNode edge.2 context)]

/-- What a router must not break when a draft is compiled.  Nothing fixes the order in
which its routes are looked at; the order of their labels stands for one such visit. -/
def routerEndRules (topology : Topology Graph) (entry : String × Router) :
    List (Bool × Fault) :=
  (!topology.mayBegin entry.1, .unknownNode entry.1 "conditional edges") ::
    entry.2.routes.fields.map fun route =>
      (!topology.mayEnd route.2,
        .unknownNode route.2 s!"route '{route.1}' from '{entry.1}'")

/-- Whether nothing leaves the entry. -/
def lacksEntry (topology : Topology Graph) : Bool :=
  (topology.targets startId).isEmpty && (topology.router? startId).isNone

/-- What a draft must not break to be compiled, in the order in which it is asked. -/
def wholeRules (draft : Draft) (config : CompileConfig) : List (Bool × Fault) :=
  (lacksEntry draft.topology, .missingEntryPoint) ::
    (draft.topology.edges.flatMap (edgeEndRules draft.topology)
      ++ draft.topology.routers.flatMap (routerEndRules draft.topology)
      ++ config.interruptBefore.map fun id =>
        (!draft.topology.hasNode id, .unknownNode id "interrupt_before"))

/-- The graph of a draft with the given options, or the first rule it breaks. -/
def compile (draft : Draft) (config : CompileConfig) : Except Fault Graph :=
  unlessBroken (draft.wholeRules config) ⟨draft.id, draft.keys, draft.topology, config⟩

/-! ## What a call answers -/

/-- A value is accepted iff no rule is broken. -/
theorem unlessBroken_eq_ok_iff {α : Type} {rules : List (Bool × Fault)} {value result : α} :
    unlessBroken rules value = .ok result ↔
      (∀ rule ∈ rules, rule.1 = false) ∧ result = value := by
  unfold unlessBroken
  cases hfirst : rules.find? Prod.fst with
  | none =>
      have hclean := List.find?_eq_none.mp hfirst
      constructor
      · intro h
        cases h
        refine ⟨fun rule hrule => ?_, rfl⟩
        simpa using hclean rule hrule
      · rintro ⟨-, rfl⟩
        rfl
  | some rule =>
      have hbroken := List.find?_some hfirst
      have hrule := List.mem_of_find?_eq_some hfirst
      constructor
      · intro h
        cases h
      · rintro ⟨hclean, -⟩
        rw [hclean rule hrule] at hbroken
        cases hbroken

/-- A call that is not refused makes its addition. -/
theorem apply_eq_ok_iff {draft next : Draft} {call : Call} :
    draft.apply call = .ok next ↔
      (∀ rule ∈ draft.rules call, rule.1 = false) ∧ next = draft.extend call :=
  unlessBroken_eq_ok_iff

/-- Compiling keeps the draft and adds the options. -/
theorem compile_eq_ok_iff {draft : Draft} {config : CompileConfig} {graph : Graph} :
    draft.compile config = .ok graph ↔
      (∀ rule ∈ draft.wholeRules config, rule.1 = false) ∧
        graph = ⟨draft.id, draft.keys, draft.topology, config⟩ :=
  unlessBroken_eq_ok_iff

end Draft

end FlowGraph
