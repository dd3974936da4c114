import FlowGraph.Proofs.Frontier
import FlowGraph.Proofs.StoreGrowth

/-!
# Graphs around graphs

A graph may be wrapped: another graph with the same keys holds it in its only
node, which stands between the entry and the exit.  Such a wrapper adds nothing
to what the inner graph does.  On the way in the inputs are entered once more,
which changes nothing; on the way out the inner store takes the place of the
outer one, which it covers; and a failure is named by the innermost node only.

* `Graph.Wraps`, `Graph.Nested`: one wrapper, and wrappers to any depth.
* `Wraps.run_eq`: **what a wrapper does.**
* `nesting_is_transparent`: what wrappers do to any depth.
-/

namespace FlowGraph.Graph

/-- A graph that holds another one in its only node, between the entry and the
exit, and does not stop before it. -/
structure Wraps (outer : Graph) (node : String) (inner : Graph) : Prop where
  keys : outer.keys = inner.keys
  nodes : outer.topology.nodes = [⟨node, .subgraph inner⟩]
  edges : outer.topology.edges.Perm [(startId, node), (node, endId)]
  routers : outer.topology.routers = []
  /-- The node's id is not one of the reserved ones. -/
  unreserved : node ≠ startId ∧ node ≠ endId
  steps : 1 ≤ outer.config.maxSteps
  stops : outer.config.interruptBefore = []

/-- A graph in wrappers; the node of the innermost one is named. -/
inductive Nested (core : Graph) (first : String) : Nat → Graph → Prop
  | once {outer : Graph} (hwraps : outer.Wraps first core) : Nested core first 1 outer
  | again {depth : Nat} {inner outer : Graph} {node : String}
      (hinner : Nested core first depth inner) (hwraps : outer.Wraps node inner) :
      Nested core first (depth + 1) outer

/-! ## One wrapper -/

/-- The calls of a wrapper, made in any order, build a wrapper. -/
theorem wraps_of_compile {id node : String} {inner outer : Graph} {calls : List Draft.Call}
    {draft : Draft} {config : CompileConfig}
    (hcalls : calls.Perm
      [.node node (.subgraph inner), .edge startId node, .edge node endId])
    (hbuild : Draft.applyAll { id, keys := inner.keys } calls = .ok draft)
    (hcompile : draft.compile config = .ok outer) (hsteps : 1 ≤ config.maxSteps)
    (hstops : config.interruptBefore = []) : outer.Wraps node inner := by
  have hempty : (Draft.mk id inner.keys {}).topology.Legal := Topology.legal_empty
  obtain ⟨hlegal, hdraft⟩ := (Draft.applyAll_eq_ok_iff hempty).mp hbuild
  obtain ⟨-, houter⟩ := Draft.compile_eq_ok_iff_closed.mp hcompile
  have hshape := Draft.extendAll_eq { id, keys := inner.keys } calls
  have hnodes : draft.topology.nodes = [⟨node, .subgraph inner⟩] := by
    rw [hdraft, hshape]
    exact List.perm_singleton.mp (hcalls.flatMap_right Draft.Call.nodes)
  have hid : node ∈ draft.topology.nodeIds := by
    rw [Topology.nodeIds, hnodes]
    exact List.mem_singleton_self node
  rw [← hdraft] at hlegal
  rw [houter]
  exact {
    keys := by rw [hdraft, hshape]
    nodes := hnodes
    edges := by
      rw [hdraft, hshape]
      exact hcalls.flatMap_right Draft.Call.edges
    routers := by
      rw [hdraft, hshape]
      exact List.perm_nil.mp (hcalls.flatMap_right Draft.Call.routers)
    unreserved := (hlegal.named node hid).2
    steps := hsteps
    stops := hstops }

namespace Wraps

variable {outer inner : Graph} {node : String}

/-- A wrapper leads from its entry to its node, and from its node to its exit. -/
theorem targets (h : outer.Wraps node inner) :
    outer.machine.topology.targets startId = [node] ∧
      outer.machine.topology.targets node = [endId] := by
  have hne := h.unreserved.1
  have hentry := ((h.edges.filter fun edge => edge.1 == startId).map Prod.snd)
  have hexit := ((h.edges.filter fun edge => edge.1 == node).map Prod.snd)
  constructor
  · refine List.perm_singleton.mp (hentry.trans ?_)
    simp [hne]
  · refine List.perm_singleton.mp (hexit.trans ?_)
    simp [hne.symm]

/-- A wrapper has no routers. -/
theorem router? (h : outer.Wraps node inner) (source : String) :
    outer.machine.topology.router? source = none := by
  have hnone : outer.machine.topology.routers = [] := h.routers
  rw [Topology.router?, hnone]
  rfl

/-- The node of a wrapper runs the inner graph. -/
theorem node? (h : outer.Wraps node inner) :
    outer.machine.topology.node? node = some ⟨node, .subgraph inner.run⟩ := by
  have hfound : outer.topology.node? node = some ⟨node, .subgraph inner⟩ := by
    rw [Topology.node?, h.nodes]
    simp
  rw [machine_node?, hfound]
  rfl

/-- In a wrapper static edges lead on, and the store stays. -/
theorem successors_eq (h : outer.Wraps node inner) (ctx : RunConfig) (source : String)
    (store : Store) :
    outer.machine.successors ctx source store =
      .ok (outer.machine.topology.targets source, store) := by
  unfold Machine.successors
  rw [h.router?]

/-- A run of a wrapper begins at its node. -/
theorem enter_eq (h : outer.Wraps node inner) (ctx : RunConfig) (inputs : Store) :
    outer.machine.enter ctx inputs = .ok ⟨Store.enter inner.keys inputs, [node]⟩ := by
  have hkeys : outer.machine.keys = inner.keys := h.keys
  refine Machine.enter_eq_ok_iff.mpr ⟨_, _, h.successors_eq ctx startId _, ?_⟩
  rw [h.targets.1, hkeys, Boundary.at]
  simp [h.unreserved.2, Store.enter]

/-- A wrapper does not stop before its node. -/
theorem halts_eq_false (h : outer.Wraps node inner) (store : Store) :
    outer.machine.halts ⟨store, [node]⟩ = false := by
  have hstops : outer.machine.config.interruptBefore = [] := h.stops
  simp [Machine.halts, Machine.interrupts, hstops]

/-- The superstep of a wrapper fails as its inner graph fails. -/
theorem advance_eq_error (h : outer.Wraps node inner) {ctx : RunConfig} {store : Store}
    {cause : Fault} (hinner : inner.run store ctx = .error cause) :
    outer.machine.advance ctx ⟨store, [node]⟩ = .error (cause.atNode node) := by
  refine Machine.advance_eq_error_of_first ?_ (List.nil_append _).symm ?_ h.node? hinner
  · intro id hid
    rw [List.mem_singleton.mp hid]
    exact Machine.hasNode_of_node? h.node?
  · intro id hid
    cases hid

/-- The superstep of a wrapper puts the inner store in place of its own, and
nothing is left to run. -/
theorem advance_eq_ok (h : outer.Wraps node inner) {ctx : RunConfig} {store final : Store}
    (hcovers : final.Covers store) (hinner : inner.run store ctx = .ok final) :
    outer.machine.advance ctx ⟨store, [node]⟩ = .ok ⟨final, []⟩ := by
  have hanswer : outer.machine.answer ctx store node =
      .ok (⟨node, .subgraph inner.run⟩, final) :=
    Machine.answer_eq_ok_iff.mpr ⟨h.node?, hinner⟩
  have hresults : [node].mapM (outer.machine.answer ctx store) =
      .ok [(⟨node, .subgraph inner.run⟩, final)] :=
    Traversal.mapM_eq_ok_iff.mpr (.cons hanswer .nil)
  have hmerged : outer.machine.actAll ctx ⟨store, [node]⟩ = .ok final := by
    refine Machine.actAll_eq_ok_iff.mpr ⟨_, hresults, ?_⟩
    exact (Store.update_empty_of_covers hcovers).symm
  have hroute : outer.machine.routeAll ctx [node] [] final = .ok ([endId], final) := by
    simp only [Machine.routeAll, h.successors_eq, h.targets.2]
    rfl
  exact Machine.advance_eq_ok_iff.mpr ⟨final, [endId], final, hmerged, hroute, rfl⟩

/-- **What a wrapper does**: what the inner graph does, and a failure that names
no node yet is named after the wrapper's node. -/
theorem run_eq (h : outer.Wraps node inner) (inputs : Store) (ctx : RunConfig) :
    outer.run inputs ctx = (inner.run inputs ctx).mapError (Fault.atNode node) := by
  have hentered : inner.run (Store.enter inner.keys inputs) ctx = inner.run inputs ctx := by
    rw [Graph.run_eq]
    exact Machine.run_enter inner.machine ctx inputs
  have hreach : outer.machine.Reaches ctx inputs 0 ⟨Store.enter inner.keys inputs, [node]⟩ :=
    .enter (h.enter_eq ctx inputs)
  have hgoes := h.halts_eq_false (Store.enter inner.keys inputs)
  have hbudget : 0 < outer.machine.config.maxSteps := h.steps
  -- the inner graph runs on what the inputs became, which it enters once more
  rw [Graph.run_eq outer, ← hentered]
  cases hinner : inner.run (Store.enter inner.keys inputs) ctx with
  | error cause =>
      exact (Machine.Ends.failed hreach hgoes hbudget (h.advance_eq_error hinner)).run_eq
  | ok final =>
      have hcovers : final.Covers (Store.enter inner.keys inputs) := by
        have hrun := hinner
        rw [Graph.run_eq] at hrun
        rw [← Store.enter_enter]
        exact Machine.run_covers hrun
      have hstep := h.advance_eq_ok hcovers hinner
      exact (Machine.Ends.halted (.advance hreach hgoes hbudget hstep) rfl).run_eq

end Wraps

/-! ## Wrappers to any depth -/

/-- Only the innermost wrapper can name a failure. -/
theorem Nested.run_eq {core outer : Graph} {first : String} {depth : Nat}
    (h : Nested core first depth outer) (inputs : Store) (ctx : RunConfig) :
    outer.run inputs ctx = (core.run inputs ctx).mapError (Fault.atNode first) := by
  induction h with
  | once hwraps => exact hwraps.run_eq inputs ctx
  | again _ hwraps ih =>
      rw [hwraps.run_eq, ih]
      cases core.run inputs ctx with
      | ok final => rfl
      | error cause => simp [Except.mapError]

/-- **Nesting is transparent.**  A graph in wrappers of any depth ends in the
store in which the graph alone ends; the failure of a node comes out as it is,
and any other failure as that of the innermost wrapper's node. -/
theorem nesting_is_transparent {core outer : Graph} {first : String} {depth : Nat}
    (h : Nested core first depth outer) (inputs : Store) (ctx : RunConfig) :
    (∀ final, core.run inputs ctx = .ok final → outer.run inputs ctx = .ok final) ∧
      (∀ id message, core.run inputs ctx = .error (.nodeFailed id message) →
        outer.run inputs ctx = .error (.nodeFailed id message)) ∧
      ∀ fault, core.run inputs ctx = .error fault →
        (∀ id message, fault ≠ .nodeFailed id message) →
        outer.run inputs ctx = .error (.nodeFailed first fault.message) := by
  rw [h.run_eq inputs ctx]
  refine ⟨?_, ?_, ?_⟩
  · intro final hcore
    rw [hcore]
    rfl
  · intro id message hcore
    rw [hcore]
    rfl
  · intro fault hcore hother
    rw [hcore]
    cases fault with
    | nodeFailed id message => exact absurd rfl (hother id message)
    | _ => rfl

/-- A wrapper with the default options. -/
def around (inner : Graph) (id node : String) : Graph where
  id := id
  keys := inner.keys
  topology :=
    { nodes := [⟨node, .subgraph inner⟩]
      edges := [(startId, node), (node, endId)] }
  config := {}

/-- A graph whose entry asks for a label that leads nowhere. -/
def astray : Graph where
  id := "astray"
  keys := .empty
  topology :=
    { routers := [(startId, ⟨fun _ _ => .ok { goto := "north" }, .ofList [("south", endId)]⟩)] }
  config := {}

/-- A label that leads nowhere is named after the node of the inner one of two wrappers. -/
theorem unknown_route_is_named_by_innermost_of_two :
    Nested astray "inner" 2 ((astray.around "one" "inner").around "two" "outer") ∧
      ((astray.around "one" "inner").around "two" "outer").run .empty {} =
        .error (.nodeFailed "inner" "route 'north' from '__START__' has no mapped destination") := by
  have hsteps : 1 ≤ CompileConfig.maxSteps {} := by decide
  have hone : (astray.around "one" "inner").Wraps "inner" astray :=
    wraps_of_compile (.refl _) rfl rfl hsteps rfl
  have htwo : ((astray.around "one" "inner").around "two" "outer").Wraps "outer"
      (astray.around "one" "inner") :=
    wraps_of_compile (.refl _) rfl rfl hsteps rfl
  have hnested : Nested astray "inner" 2 ((astray.around "one" "inner").around "two" "outer") :=
    .again (.once hone) htwo
  refine ⟨hnested, ?_⟩
  refine (nesting_is_transparent hnested .empty {}).2.2 (.unknownRoute startId "north") rfl ?_
  intro id message h
  cases h

end FlowGraph.Graph
