import FlowGraph.Proofs.Boundaries
import FlowGraph.Proofs.Legality

/-!
# Runs keep to their structure

A graph that was compiled is closed, and its static edges are distinct.  From
this every frontier of every run names nodes of the graph, each of them once:
an invariant of boundaries, kept by the routers and edges of every superstep.
So nothing that is wrong with a structure can come up while a graph runs.

* `Boundary.Sound`: **the frontier invariant.**
* `Reaches.sound`: it holds at every boundary of every run.
* `compiled_run_keeps_to_topology`: what is left to go wrong in a run.
-/

namespace FlowGraph

/-- **The frontier invariant**: the ids to run next are nodes, each listed once. -/
structure Boundary.Sound (m : Machine) (b : Boundary) : Prop where
  distinct : b.frontier.Nodup
  known : ∀ id ∈ b.frontier, m.topology.hasNode id = true

/-- The faults in which a run of a graph may end. -/
inductive Graph.RunFault (graph : Graph) : Fault → Prop
  /-- A node or a router failed. -/
  | node (id message : String) : RunFault graph (.nodeFailed id message)
  /-- A router chose a label that is not among its routes. -/
  | route {source label : String} {router : Router}
      (hrouter : graph.topology.router? source = some router)
      (hroute : router.routes.get? label = none) : RunFault graph (.unknownRoute source label)
  /-- The graph's own steps are used up. -/
  | limit : RunFault graph (.stepLimitExceeded graph.config.maxSteps)

/-- What a run of a compiled graph fails with is no fault of its structure. -/
theorem Graph.RunFault.isStructural_eq_false {graph : Graph} {fault : Fault}
    (h : graph.RunFault fault) : fault.isStructural = false := by
  cases h <;> rfl

namespace Machine

variable {m : Machine} {ctx : RunConfig} {inputs : Store} {stops : List String}

/-- Dropping the exit from targets leaves nodes. -/
theorem sound_at {store : Store} {targets : List String} (hdistinct : targets.Nodup)
    (hends : ∀ id ∈ targets, m.topology.mayEnd id = true) :
    (Boundary.at store targets).Sound m where
  distinct := hdistinct.filter _
  known := by
    intro id hid
    obtain ⟨hmem, hnotEnd⟩ := List.mem_filter.mp hid
    have hend := hends id hmem
    simp only [Topology.mayEnd, Bool.or_eq_true] at hend
    rcases hend with hend | hnode
    · simp [hend] at hnotEnd
    · exact hnode

/-- A source of a closed structure leads to the exit and to nodes, to each once. -/
theorem successors_lead_inside (hedges : m.topology.edges.Nodup)
    (hclosed : m.topology.Closed stops) {source : String} {store after : Store}
    {targets : List String} (h : m.successors ctx source store = .ok (targets, after)) :
    targets.Nodup ∧ ∀ id ∈ targets, m.topology.mayEnd id = true := by
  rcases successors_eq_ok h with ⟨-, rfl, -⟩ |
    ⟨router, decision, target, hrouter, -, hroute, rfl, -⟩
  · refine ⟨Topology.nodup_targets hedges source, ?_⟩
    intro id hid
    exact (hclosed.edges _ (Topology.mem_targets_iff.mp hid)).2
  · refine ⟨List.nodup_singleton target, ?_⟩
    intro id hid
    rw [List.mem_singleton.mp hid]
    exact (hclosed.routers _ (Topology.mem_routers_of_router? hrouter)).2 (decision.goto, target)
      ((Table.mem_fields_iff _ _ _).mpr hroute)

/-- The first boundary is sound. -/
theorem enter_sound (hedges : m.topology.edges.Nodup) (hclosed : m.topology.Closed stops)
    {b : Boundary} (h : m.enter ctx inputs = .ok b) : b.Sound m := by
  obtain ⟨targets, store, hfirst, rfl⟩ := enter_eq_ok_iff.mp h
  obtain ⟨hdistinct, hends⟩ := successors_lead_inside hedges hclosed hfirst
  exact sound_at hdistinct hends

/-- **One superstep keeps the invariant**, from any boundary: what is next is
collected without repetition from what the sources lead to. -/
theorem advance_sound (hedges : m.topology.edges.Nodup) (hclosed : m.topology.Closed stops)
    {b next : Boundary} (h : m.advance ctx b = .ok next) : next.Sound m := by
  obtain ⟨merged, targets, store, -, hroute, rfl⟩ := advance_eq_ok_iff.mp h
  have hcollected : targets.Nodup ∧ ∀ id ∈ targets, m.topology.mayEnd id = true := by
    refine routeAll_invariant
      (P := fun ids _ => ids.Nodup ∧ ∀ id ∈ ids, m.topology.mayEnd id = true) ?_
      ⟨List.nodup_nil, by simp⟩ hroute
    intro source _ ids before found after hids hfound
    have hends := (successors_lead_inside hedges hclosed hfound).2
    refine ⟨nodup_addNew hids.1 found, ?_⟩
    intro id hid
    rcases mem_addNew_iff.mp hid with hid | hid
    · exact hids.2 id hid
    · exact hends id hid
  exact sound_at hcollected.1 hcollected.2

/-- **The invariant holds at every boundary of every run.** -/
theorem Reaches.sound (hedges : m.topology.edges.Nodup) (hclosed : m.topology.Closed stops)
    {n : Nat} {b : Boundary} (h : m.Reaches ctx inputs n b) : b.Sound m :=
  h.invariant (fun _ henter => enter_sound hedges hclosed henter)
    (fun _ _ _ _ hstep => advance_sound hedges hclosed hstep)

/-- Where the nodes of a frontier are known, the first of them that fails decides
the fault. -/
theorem actAll_eq_error_of_known {b : Boundary} {fault : Fault}
    (hknown : ∀ id ∈ b.frontier, m.topology.hasNode id = true)
    (h : m.actAll ctx b = .error fault) :
    ∃ before node after cause, b.frontier = before ++ node.id :: after ∧
      (∀ id ∈ before, ∃ node' update, m.topology.node? id = some node' ∧
        node'.body.act id b.store ctx = .ok update) ∧
      m.topology.node? node.id = some node ∧
      node.body.act node.id b.store ctx = .error cause ∧ fault = cause.atNode node.id := by
  rw [actAll_eq_of_known hknown] at h
  cases hwalk : b.frontier.mapM (m.answer ctx b.store) with
  | ok results => simp [hwalk, Except.map] at h
  | error first =>
      simp only [hwalk, Except.map, Except.error.injEq] at h
      obtain ⟨before, id, after, hfrontier, hearlier, hfail⟩ :=
        Traversal.mapM_eq_error_iff.mp hwalk
      obtain ⟨node, hnode⟩ := exists_node?_of_hasNode (hknown id (by simp [hfrontier]))
      obtain ⟨cause, hcause, hfault⟩ := (answer_eq_error_iff hnode).mp hfail
      cases id_of_node? hnode
      refine ⟨before, node, after, cause, hfrontier, ?_, hnode, hcause, by rw [← h, hfault]⟩
      intro id hid
      obtain ⟨⟨node', update⟩, hanswer⟩ := hearlier id hid
      exact ⟨node', update, answer_eq_ok_iff.mp hanswer⟩

/-- **The earliest failing node decides.**  Whatever the nodes after it answer,
the superstep fails with the fault of the first node in frontier order that fails. -/
theorem advance_eq_error_of_first {b : Boundary}
    (hknown : ∀ id ∈ b.frontier, m.topology.hasNode id = true)
    {before after : List String} {id : String} {node : Node Runner} {cause : Fault}
    (hfrontier : b.frontier = before ++ id :: after)
    (hearlier : ∀ id' ∈ before, ∃ node' update, m.topology.node? id' = some node' ∧
      node'.body.act id' b.store ctx = .ok update)
    (hnode : m.topology.node? id = some node)
    (hfail : node.body.act id b.store ctx = .error cause) :
    m.advance ctx b = .error (cause.atNode id) := by
  have hwalk : b.frontier.mapM (m.answer ctx b.store) = .error (cause.atNode id) := by
    rw [Traversal.mapM_eq_error_iff]
    refine ⟨before, id, after, hfrontier, ?_, (answer_eq_error_iff hnode).mpr ⟨cause, hfail, rfl⟩⟩
    intro id' hid'
    obtain ⟨node', update, hnode', hact⟩ := hearlier id' hid'
    exact ⟨(node', update), answer_eq_ok_iff.mpr ⟨hnode', hact⟩⟩
  rw [advance_eq_error_iff, actAll_eq_of_known hknown, hwalk]
  exact Or.inl rfl

end Machine

namespace Graph

variable {graph : Graph} {ctx : RunConfig} {inputs : Store}

/-- A source fails to lead on in one of two ways, both of them a run's own. -/
theorem runFault_of_successors {source : String} {store : Store} {fault : Fault}
    (h : graph.machine.successors ctx source store = .error fault) : graph.RunFault fault := by
  obtain ⟨router, hrouter, ⟨cause, -, rfl⟩ | ⟨decision, -, hroute, rfl⟩⟩ :=
    Machine.successors_eq_error h
  · exact .node source cause.message
  · exact .route hrouter hroute

/-- **A run of a closed graph ends in a fault of its own or in none.** -/
theorem runFault_of_run {stops : List String} (hedges : graph.topology.edges.Nodup)
    (hclosed : graph.topology.Closed stops) {fault : Fault}
    (h : graph.run inputs ctx = .error fault) : graph.RunFault fault := by
  rw [run_eq] at h
  cases Machine.ends_iff_run_eq.mpr h with
  | refused henter => exact runFault_of_successors (Machine.enter_eq_error_iff.mp henter)
  | spent => exact .limit
  | failed hreach _ _ hstep =>
      rcases Machine.advance_eq_error_iff.mp hstep with hact | ⟨merged, -, hroute⟩
      · have hsound := hreach.sound hedges (hclosed.map run)
        obtain ⟨before, node, after, cause, -, -, -, -, rfl⟩ :=
          Machine.actAll_eq_error_of_known hsound.known hact
        obtain ⟨id, message, hnamed⟩ := Fault.atNode_eq_nodeFailed node.id cause
        rw [hnamed]
        exact .node id message
      · obtain ⟨before, source, after, found, reached, -, -, hsource⟩ :=
          Machine.routeAll_eq_error hroute
        exact runFault_of_successors hsource

/-- **A compiled graph never runs off its structure.**  Whatever calls built it,
at every boundary of every run the frontier lists nodes of the graph, each once,
so that every id of it finds its node; of several nodes that fail in one
superstep the earliest decides the fault; and a run ends only in the failure of
a node or router, in a label without a destination, or with its steps used up,
never in a fault of the structure. -/
theorem compiled_run_keeps_to_topology {id : String} {keys : KeyTable}
    {calls : List Draft.Call} {config : CompileConfig} {graph : Graph}
    (hcompile : (Draft.attemptAll { id, keys } calls).compile config = .ok graph)
    (inputs : Store) (ctx : RunConfig) :
    (∀ n b, graph.machine.Reaches ctx inputs n b →
      b.frontier.Nodup ∧ (∀ id ∈ b.frontier, id ∈ graph.nodeIds) ∧
        (∃ nodes, b.frontier.mapM graph.machine.nodeOf = .ok nodes ∧
          nodes.map Node.id = b.frontier) ∧
        ∀ before id after node cause, graph.machine.halts b = false →
          n < graph.config.maxSteps → b.frontier = before ++ id :: after →
          (∀ id' ∈ before, ∃ node' update, graph.machine.topology.node? id' = some node' ∧
            node'.body.act id' b.store ctx = .ok update) →
          graph.machine.topology.node? id = some node →
          node.body.act id b.store ctx = .error cause →
          graph.run inputs ctx = .error (cause.atNode id)) ∧
      ∀ fault, graph.run inputs ctx = .error fault →
        graph.RunFault fault ∧ fault.isStructural = false := by
  obtain ⟨hclosed, rfl⟩ := Draft.compile_eq_ok_iff_closed.mp hcompile
  have hempty : (Draft.mk id keys {}).topology.Legal := Topology.legal_empty
  have hlegal := Draft.legal_attemptAll hempty calls
  constructor
  · intro n b hreach
    have hsound := hreach.sound hlegal.edgesDistinct (hclosed.map run)
    refine ⟨hsound.distinct, ?_, Machine.exists_nodes_of_known hsound.known, ?_⟩
    · intro id hid
      have hnode := hsound.known id hid
      rwa [machine, Topology.hasNode_map, Topology.hasNode_iff] at hnode
    · intro before id after node cause hgoes hbudget hfrontier hearlier hnode hfail
      have hstep := Machine.advance_eq_error_of_first hsound.known hfrontier hearlier hnode hfail
      rw [run_eq]
      exact (Machine.Ends.failed hreach hgoes hbudget hstep).run_eq
  · intro fault hfault
    have hrun := runFault_of_run hlegal.edgesDistinct hclosed hfault
    exact ⟨hrun, hrun.isStructural_eq_false⟩

/-- Three nodes side by side, of which the last two fail. -/
def sideBySide : Graph where
  id := "side by side"
  keys := .empty
  topology :=
    { nodes :=
        [⟨"quiet", .action fun _ _ => .ok .empty⟩,
         ⟨"first", .executor fun id _ _ => .error (.unknownNode id "nowhere")⟩,
         ⟨"second", .action fun _ _ => .error (.actionFailed "too late")⟩]
      edges := [(startId, "quiet"), (startId, "first"), (startId, "second")] }
  config := {}

/-- Calls that build it; one of them is refused. -/
def sideBySideCalls : List Draft.Call :=
  sideBySide.topology.nodes.map (fun node => .node node.id node.body) ++
    .edge startId startId ::
      sideBySide.topology.edges.map fun edge => .edge edge.1 edge.2

/-- Two nodes of one superstep fail, one of them with a fault of a structure:
the run fails with the first one's failure. -/
theorem first_failure_decides_side_by_side :
    (Draft.attemptAll { id := "side by side", keys := .empty } sideBySideCalls).compile {} =
        .ok sideBySide ∧
      sideBySide.machine.Reaches {} .empty 0 ⟨.empty, ["quiet", "first", "second"]⟩ ∧
      sideBySide.run .empty {} =
        .error (.nodeFailed "first" "nowhere references unknown node 'first'") := by
  have hcompile : (Draft.attemptAll { id := "side by side", keys := .empty }
      sideBySideCalls).compile {} = .ok sideBySide := rfl
  have hreach : sideBySide.machine.Reaches {} .empty 0 ⟨.empty, ["quiet", "first", "second"]⟩ :=
    .enter rfl
  obtain ⟨-, -, -, hfirst⟩ := (compiled_run_keeps_to_topology hcompile .empty {}).1 0 _ hreach
  refine ⟨hcompile, hreach, ?_⟩
  refine hfirst ["quiet"] "first" ["second"] _ (.unknownNode "first" "nowhere")
    rfl (by decide) rfl ?_ rfl rfl
  intro id hid
  cases List.mem_singleton.mp hid
  exact ⟨_, _, rfl, rfl⟩

end Graph

end FlowGraph
