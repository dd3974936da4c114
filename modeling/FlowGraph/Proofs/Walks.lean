import FlowGraph.Proofs.Budget
import Mathlib.Data.List.Perm.Subperm

/-!
# Runs without routers

Where a graph has static edges only, nothing that happens in a run decides where
it goes next, and a run that does not fail is a walk of all its frontiers at
once: after some supersteps the nodes to run next are the ends of the walks of
one edge more.  So the budget suffices iff no walk is longer, and what decides
this for all budgets is whether a cycle can be reached.

* `Walk`: so many edges lead from one id to another.
* `Static.cycleReachable_of_walk`: **a walk longer than there are nodes goes round a cycle.**
* `Static.mem_frontier_iff`: **a frontier is the ends of the walks to it.**
* `static_run_follows_walks`: which nodes run when, and how the run ends.
-/

namespace FlowGraph

/-! ## Walks -/

/-- So many edges lead from one id to another, each going on where the one
before it ends. -/
inductive Walk (edges : List (String × String)) (source : String) : Nat → String → Prop
  | stay : Walk edges source 0 source
  | onward {middle target : String} {n : Nat} (hwalk : Walk edges source n middle)
      (hedge : (middle, target) ∈ edges) : Walk edges source (n + 1) target

/-- A walk from the entry comes to an id from which some edges lead back to it. -/
def CycleReachable (edges : List (String × String)) : Prop :=
  ∃ id n k, Walk edges startId n id ∧ Walk edges id (k + 1) id

namespace Walk

variable {edges : List (String × String)} {source middle target : String} {n k : Nat}

/-- A walk of no edges stays where it is. -/
theorem eq_of_zero (h : Walk edges source 0 target) : source = target := by
  cases h
  rfl

/-- The last edge of a walk. -/
theorem exists_last (h : Walk edges source (n + 1) target) :
    ∃ middle, Walk edges source n middle ∧ (middle, target) ∈ edges := by
  cases h with
  | onward hwalk hedge => exact ⟨_, hwalk, hedge⟩

/-- A walk may be followed by another. -/
theorem trans (h : Walk edges source n middle) (h' : Walk edges middle k target) :
    Walk edges source (n + k) target := by
  induction h' with
  | stay => exact h
  | onward _ hedge ih => exact .onward ih hedge

/-- A walk begins with a shorter one. -/
theorem exists_shorter (h : Walk edges source n target) (hk : k ≤ n) :
    ∃ middle, Walk edges source k middle := by
  induction h with
  | stay =>
      have hzero : k = 0 := by omega
      rw [hzero]
      exact ⟨source, .stay⟩
  | @onward middle target n hwalk hedge ih =>
      by_cases hlast : k = n + 1
      · rw [hlast]
        exact ⟨target, .onward hwalk hedge⟩
      · exact ih (by omega)

/-- The first edge of a walk. -/
theorem exists_first (h : Walk edges source (n + 1) target) :
    ∃ next, (source, next) ∈ edges := by
  induction n generalizing target with
  | zero =>
      obtain ⟨middle, hwalk, hedge⟩ := h.exists_last
      rw [hwalk.eq_of_zero]
      exact ⟨target, hedge⟩
  | succ n ih =>
      obtain ⟨middle, hwalk, -⟩ := h.exists_last
      exact ih hwalk

/-- A closed walk can be walked again and again. -/
theorem again (h : Walk edges source n source) (times : Nat) :
    Walk edges source (times * n) source := by
  induction times with
  | zero =>
      rw [Nat.zero_mul]
      exact .stay
  | succ times ih =>
      rw [Nat.succ_mul]
      exact ih.trans h

/-- **A walk repeats no id, or it goes round a cycle.**  Of a walk that does not,
the ids behind its first one are distinct, and the walk leads through each. -/
theorem exists_visited (h : Walk edges source n target) :
    (∃ visited : List String, visited.length = n ∧ visited.Nodup ∧
        ∀ id ∈ visited, ∃ i k, Walk edges source (i + 1) id ∧ Walk edges id k target) ∨
      ∃ id i k, Walk edges source i id ∧ Walk edges id (k + 1) id := by
  induction h with
  | stay => exact Or.inl ⟨[], rfl, List.nodup_nil, by simp⟩
  | @onward middle target n hwalk hedge ih =>
      rcases ih with ⟨visited, hlength, hdistinct, hthrough⟩ | hcycle
      · by_cases hback : target ∈ visited
        · obtain ⟨i, k, hto, hfrom⟩ := hthrough target hback
          exact Or.inr ⟨target, i + 1, k, hto, .onward hfrom hedge⟩
        · refine Or.inl ⟨visited ++ [target], by simp [hlength], ?_, ?_⟩
          · rw [← List.concat_eq_append, List.nodup_concat]
            exact ⟨hback, hdistinct⟩
          · intro id hid
            rcases List.mem_append.mp hid with hid | hid
            · obtain ⟨i, k, hto, hfrom⟩ := hthrough id hid
              exact ⟨i, k + 1, hto, .onward hfrom hedge⟩
            · rw [List.mem_singleton.mp hid]
              exact ⟨n, 0, .onward hwalk hedge, .stay⟩
      · exact Or.inr hcycle

end Walk

/-- Where a cycle can be reached, walks of every length begin at the entry. -/
theorem CycleReachable.exists_walk {edges : List (String × String)} (h : CycleReachable edges)
    (n : Nat) : ∃ id, Walk edges startId n id := by
  obtain ⟨id, first, k, hto, hround⟩ := h
  have hlong : Walk edges startId (first + n * (k + 1)) id := hto.trans (hround.again n)
  have hle : n ≤ n * (k + 1) := Nat.le_mul_of_pos_right n (Nat.succ_pos k)
  exact hlong.exists_shorter (by omega)

/-! ## Machines without routers -/

namespace Machine

/-- A machine that follows static edges only, stops before no node, and whose
edges keep to its nodes. -/
structure Static (m : Machine) : Prop where
  unrouted : m.topology.routers = []
  unstopped : m.config.interruptBefore = []
  named : ∀ id ∈ m.topology.nodeIds, id ≠ startId ∧ id ≠ endId
  inside : ∀ edge ∈ m.topology.edges, edge.1 ≠ endId ∧ edge.2 ≠ startId
  known : ∀ edge ∈ m.topology.edges,
    m.topology.mayBegin edge.1 = true ∧ m.topology.mayEnd edge.2 = true

/-- No node fails in any superstep of a run. -/
def ActionsSucceed (m : Machine) (ctx : RunConfig) (inputs : Store) : Prop :=
  ∀ n b, m.Reaches ctx inputs n b → m.halts b = false → n < m.config.maxSteps →
    ∀ id ∈ b.frontier, ∀ node, m.topology.node? id = some node →
      ∃ update, node.body.act id b.store ctx = .ok update

namespace Static

variable {m : Machine} {ctx : RunConfig} {inputs : Store}

/-- Without stops a run ends where nothing is left to run. -/
theorem halts_eq (h : m.Static) (b : Boundary) : m.halts b = b.frontier.isEmpty := by
  simp [halts, interrupts, h.unstopped]

/-- A static run goes on where there is a node to run. -/
theorem halts_eq_false (h : m.Static) {b : Boundary} {id : String} (hid : id ∈ b.frontier) :
    m.halts b = false := by
  rw [h.halts_eq]
  cases hfrontier : b.frontier with
  | nil => simp [hfrontier] at hid
  | cons _ _ => rfl

/-- The end of an edge is a node, unless it is the exit. -/
theorem mem_nodeIds_of_edge (h : m.Static) {source id : String}
    (hedge : (source, id) ∈ m.topology.edges) (hid : id ≠ endId) : id ∈ m.topology.nodeIds :=
  ((m.topology.mayEnd_iff id).mp (h.known _ hedge).2).resolve_left hid

/-- An id between two edges is a node. -/
theorem mem_nodeIds_of_between (h : m.Static) {source id target : String}
    (hto : (source, id) ∈ m.topology.edges) (hfrom : (id, target) ∈ m.topology.edges) :
    id ∈ m.topology.nodeIds :=
  h.mem_nodeIds_of_edge hto (h.inside _ hfrom).1

/-- Without routers static edges lead on, and the store stays. -/
theorem successors_eq (h : m.Static) (ctx : RunConfig) (source : String) (store : Store) :
    m.successors ctx source store = .ok (m.topology.targets source, store) := by
  have hrouter : m.topology.router? source = none := by simp [Topology.router?, h.unrouted]
  simp only [successors, hrouter]

/-- Without routers every run is entered. -/
theorem exists_enter (h : m.Static) (ctx : RunConfig) (inputs : Store) :
    ∃ b, m.enter ctx inputs = .ok b :=
  ⟨_, enter_eq_ok_iff.mpr ⟨_, _, h.successors_eq ctx startId _, rfl⟩⟩

/-- What is next is what the edges of all sources lead to. -/
theorem exists_routeAll (h : m.Static) (ctx : RunConfig) (ids next : List String)
    (store : Store) :
    ∃ last, m.routeAll ctx ids next store = .ok (last, store) ∧
      ∀ id, id ∈ last ↔ id ∈ next ∨ ∃ source ∈ ids, (source, id) ∈ m.topology.edges := by
  have hquiet : m.topology.Quiet := by simp [Topology.Quiet, h.unrouted]
  obtain ⟨last, hlast⟩ :=
    Machine.exists_routeAll (fun source _ => ⟨_, h.successors_eq ctx source store⟩) next
  obtain ⟨-, -, hmem⟩ := routeAll_of_quiet hquiet hlast
  have hleads : ∀ source id,
      m.LeadsTo ctx store source id ↔ (source, id) ∈ m.topology.edges := by
    intro source id
    simp [LeadsTo, h.successors_eq, Topology.mem_targets_iff]
  refine ⟨last, hlast, ?_⟩
  intro id
  simp only [hmem, hleads]

/-- **A frontier is the ends of the walks to it**, with the exit left out. -/
theorem mem_frontier_iff (h : m.Static) {n : Nat} {b : Boundary}
    (hreach : m.Reaches ctx inputs n b) {id : String} :
    id ∈ b.frontier ↔ id ∈ m.topology.nodeIds ∧ Walk m.topology.edges startId (n + 1) id := by
  have hnode : ∀ {n id}, Walk m.topology.edges startId (n + 1) id →
      (id ∈ m.topology.nodeIds ↔ id ≠ endId) := by
    intro n id hwalk
    obtain ⟨source, -, hedge⟩ := hwalk.exists_last
    exact ⟨fun hid => (h.named id hid).2, h.mem_nodeIds_of_edge hedge⟩
  rw [and_comm, and_congr_right hnode]
  -- on the boundaries: what leads to an id was in the frontier before
  induction hreach generalizing id with
  | @enter b henter =>
      obtain ⟨targets, store, hfirst, rfl⟩ := enter_eq_ok_iff.mp henter
      rw [h.successors_eq] at hfirst
      cases hfirst
      have hwalk : Walk m.topology.edges startId 1 id ↔ (startId, id) ∈ m.topology.edges := by
        constructor
        · intro hwalk
          obtain ⟨middle, hstay, hedge⟩ := hwalk.exists_last
          rwa [← hstay.eq_of_zero] at hedge
        · exact .onward .stay
      simp [Boundary.at, Topology.mem_targets_iff, hwalk]
  | @advance n b next hreach hgoes hbudget hstep ih =>
      obtain ⟨merged, targets, store, -, hroute, rfl⟩ := advance_eq_ok_iff.mp hstep
      obtain ⟨last, hlast, hmem⟩ := h.exists_routeAll ctx b.frontier [] merged
      rw [hlast] at hroute
      cases hroute
      have hwalk : Walk m.topology.edges startId (n + 1 + 1) id ↔
          ∃ source ∈ b.frontier, (source, id) ∈ m.topology.edges := by
        constructor
        · intro hwalk
          obtain ⟨source, hto, hedge⟩ := hwalk.exists_last
          exact ⟨source, ih.mpr ⟨hto, (h.inside _ hedge).1⟩, hedge⟩
        · intro hsource
          obtain ⟨source, hsource, hedge⟩ := hsource
          exact .onward (ih.mp hsource).1 hedge
      simp [Boundary.at, hmem, hwalk]

/-- Where no node fails a superstep succeeds. -/
theorem exists_advance (h : m.Static) (hsucceed : m.ActionsSucceed ctx inputs) {n : Nat}
    {b : Boundary} (hreach : m.Reaches ctx inputs n b) (hgoes : m.halts b = false)
    (hbudget : n < m.config.maxSteps) : ∃ next, m.advance ctx b = .ok next := by
  have hknown : ∀ id ∈ b.frontier, m.topology.hasNode id = true :=
    fun id hid => (m.topology.hasNode_iff id).mpr ((h.mem_frontier_iff hreach).mp hid).1
  cases hact : m.actAll ctx b with
  | ok merged =>
      obtain ⟨last, hlast, -⟩ := h.exists_routeAll ctx b.frontier [] merged
      exact ⟨_, advance_eq_ok_iff.mpr ⟨merged, last, merged, hact, hlast, rfl⟩⟩
  | error fault =>
      rw [actAll_eq_of_known hknown] at hact
      cases hwalk : b.frontier.mapM (m.answer ctx b.store) with
      | ok results => simp [hwalk, Except.map] at hact
      | error cause =>
          obtain ⟨before, id, after, hfrontier, -, hfail⟩ := Traversal.mapM_eq_error_iff.mp hwalk
          have hid : id ∈ b.frontier := by simp [hfrontier]
          obtain ⟨node, hnode⟩ := exists_node?_of_hasNode (hknown id hid)
          obtain ⟨reason, hreason, -⟩ := (answer_eq_error_iff hnode).mp hfail
          obtain ⟨update, hupdate⟩ := hsucceed n b hreach hgoes hbudget id hid node hnode
          rw [hreason] at hupdate
          cases hupdate

/-- **Every walk within the budget is walked.** -/
theorem exists_reaches_of_walk (h : m.Static) (hsucceed : m.ActionsSucceed ctx inputs) {n : Nat}
    {id : String} (hid : id ∈ m.topology.nodeIds)
    (hwalk : Walk m.topology.edges startId (n + 1) id) (hbudget : n ≤ m.config.maxSteps) :
    ∃ b, m.Reaches ctx inputs n b ∧ id ∈ b.frontier := by
  induction n generalizing id with
  | zero =>
      obtain ⟨b, henter⟩ := h.exists_enter ctx inputs
      have hreach : m.Reaches ctx inputs 0 b := .enter henter
      exact ⟨b, hreach, (h.mem_frontier_iff hreach).mpr ⟨hid, hwalk⟩⟩
  | succ n ih =>
      obtain ⟨source, hto, hedge⟩ := hwalk.exists_last
      obtain ⟨before, -, hbefore⟩ := hto.exists_last
      have hnode : source ∈ m.topology.nodeIds := h.mem_nodeIds_of_between hbefore hedge
      obtain ⟨b, hreach, hsource⟩ := ih hnode hto (by omega)
      have hgoes := h.halts_eq_false hsource
      obtain ⟨next, hstep⟩ := h.exists_advance hsucceed hreach hgoes hbudget
      have hnext : m.Reaches ctx inputs (n + 1) next := .advance hreach hgoes hbudget hstep
      exact ⟨next, hnext, (h.mem_frontier_iff hnext).mpr ⟨hid, hwalk⟩⟩

/-- **A node runs in a superstep iff a walk of so many edges leads to it**, as
long as the budget lasts. -/
theorem runsIn_iff (h : m.Static) (hsucceed : m.ActionsSucceed ctx inputs) (superstep : Nat)
    (id : String) :
    m.RunsIn ctx inputs superstep id ↔
      superstep ≤ m.config.maxSteps ∧ id ∈ m.topology.nodeIds ∧
        Walk m.topology.edges startId superstep id := by
  cases superstep with
  | zero =>
      constructor
      · intro hruns
        obtain ⟨n, ids, hzero, -⟩ := hruns
        cases hzero
      · intro hwalk
        obtain ⟨-, hid, hwalk⟩ := hwalk
        exact absurd hwalk.eq_of_zero.symm (h.named id hid).1
  | succ n =>
      rw [runsIn_succ_iff]
      constructor
      · intro hruns
        obtain ⟨b, hreach, -, hbudget, hid⟩ := hruns
        exact ⟨hbudget, (h.mem_frontier_iff hreach).mp hid⟩
      · intro hwalk
        obtain ⟨hbudget, hnode, hwalk⟩ := hwalk
        obtain ⟨b, hreach, hid⟩ := h.exists_reaches_of_walk hsucceed hnode hwalk (by omega)
        exact ⟨b, hreach, h.halts_eq_false hid, hbudget, hid⟩

/-! ## How such a run ends -/

/-- A run does not end on a budget that a walk to a node exceeds. -/
theorem run_eq_of_walk (h : m.Static) (hsucceed : m.ActionsSucceed ctx inputs) {id : String}
    (hid : id ∈ m.topology.nodeIds)
    (hwalk : Walk m.topology.edges startId (m.config.maxSteps + 1) id) :
    m.run inputs ctx = .error (.stepLimitExceeded m.config.maxSteps) := by
  obtain ⟨b, hreach, hfrontier⟩ := h.exists_reaches_of_walk hsucceed hid hwalk (Nat.le_refl _)
  exact (Ends.spent hreach (h.halts_eq_false hfrontier)).run_eq

/-- Nothing else keeps a run from its end. -/
theorem exists_final_or_walk (h : m.Static) (hsucceed : m.ActionsSucceed ctx inputs) :
    (∃ final, m.run inputs ctx = .ok final) ∨
      ∃ id ∈ m.topology.nodeIds, Walk m.topology.edges startId (m.config.maxSteps + 1) id := by
  have hends := ends_run m ctx inputs
  cases hrun : m.run inputs ctx with
  | ok final => exact Or.inl ⟨final, rfl⟩
  | error fault =>
      rw [hrun] at hends
      right
      cases hends with
      | refused henter =>
          obtain ⟨b, hb⟩ := h.exists_enter ctx inputs
          rw [hb] at henter
          cases henter
      | @spent b hreach hgoes =>
          rw [h.halts_eq, List.isEmpty_eq_false_iff_exists_mem] at hgoes
          obtain ⟨id, hid⟩ := hgoes
          exact ⟨id, (h.mem_frontier_iff hreach).mp hid⟩
      | failed hreach hgoes hbudget hstep =>
          obtain ⟨next, hnext⟩ := h.exists_advance hsucceed hreach hgoes hbudget
          rw [hstep] at hnext
          cases hnext

/-- **A run exceeds its budget iff a walk does.** -/
theorem run_eq_limit_iff (h : m.Static) (hsucceed : m.ActionsSucceed ctx inputs) :
    m.run inputs ctx = .error (.stepLimitExceeded m.config.maxSteps) ↔
      ∃ id ∈ m.topology.nodeIds, Walk m.topology.edges startId (m.config.maxSteps + 1) id := by
  constructor
  · intro hrun
    refine (h.exists_final_or_walk hsucceed).resolve_left ?_
    intro hends
    obtain ⟨final, hfinal⟩ := hends
    rw [hrun] at hfinal
    cases hfinal
  · intro hwalk
    obtain ⟨id, hid, hwalk⟩ := hwalk
    exact h.run_eq_of_walk hsucceed hid hwalk

/-- And else it ends well. -/
theorem exists_final_iff (h : m.Static) (hsucceed : m.ActionsSucceed ctx inputs) :
    (∃ final, m.run inputs ctx = .ok final) ↔
      ¬ ∃ id ∈ m.topology.nodeIds,
        Walk m.topology.edges startId (m.config.maxSteps + 1) id := by
  constructor
  · intro hends hwalk
    obtain ⟨final, hfinal⟩ := hends
    rw [(h.run_eq_limit_iff hsucceed).mpr hwalk] at hfinal
    cases hfinal
  · exact (h.exists_final_or_walk hsucceed).resolve_right

/-! ## Cycles -/

/-- **A walk longer than there are nodes goes round a cycle.** -/
theorem cycleReachable_of_walk (h : m.Static) {n : Nat} {id : String}
    (hid : id ∈ m.topology.nodeIds) (hwalk : Walk m.topology.edges startId n id)
    (hlong : m.topology.nodeIds.length < n) : CycleReachable m.topology.edges := by
  rcases hwalk.exists_visited with ⟨visited, hlength, hdistinct, hthrough⟩ | hcycle
  · have hnodes : visited ⊆ m.topology.nodeIds := by
      intro id' hid'
      obtain ⟨i, k, hto, hfrom⟩ := hthrough id' hid'
      obtain ⟨source, -, hedge⟩ := hto.exists_last
      cases k with
      | zero =>
          rw [hfrom.eq_of_zero]
          exact hid
      | succ k =>
          obtain ⟨next, hnext⟩ := hfrom.exists_first
          exact h.mem_nodeIds_of_between hedge hnext
    have hfew := (List.subperm_of_subset hdistinct hnodes).length_le
    omega
  · exact hcycle

/-- Where a cycle can be reached, every number of edges leads to some node. -/
theorem exists_walk_of_cycle (h : m.Static) (hcycle : CycleReachable m.topology.edges) (n : Nat) :
    ∃ id ∈ m.topology.nodeIds, Walk m.topology.edges startId (n + 1) id := by
  -- the last but one id of a walk of one edge more stands between two edges
  obtain ⟨target, hwalk⟩ := hcycle.exists_walk (n + 2)
  obtain ⟨id, hto, hfrom⟩ := hwalk.exists_last
  obtain ⟨source, -, hedge⟩ := hto.exists_last
  exact ⟨id, h.mem_nodeIds_of_between hedge hfrom, hto⟩

end Static

end Machine

/-! ## Graphs without routers -/

namespace Graph

/-- A compiled graph without routers and stops keeps to its static edges, on
every budget. -/
theorem static_of_compile {id : String} {keys : KeyTable} {calls : List Draft.Call}
    {config : CompileConfig} {graph : Graph}
    (hcompile : (Draft.attemptAll { id, keys } calls).compile config = .ok graph)
    (hunrouted : graph.topology.routers = []) (hunstopped : graph.config.interruptBefore = [])
    (budget : Nat) : (graph.withBudget budget).machine.Static := by
  obtain ⟨hlegal, hclosed⟩ := Draft.legal_closed_of_compile hcompile
  refine ⟨hunrouted, hunstopped, ?_, hlegal.edgesInside, (hclosed.map run).edges⟩
  intro id hid
  have hnode : id ∈ graph.topology.nodeIds := by
    rwa [← Topology.nodeIds_map run graph.topology]
  exact (hlegal.named id hnode).2

/-- **Static graphs run exactly their walks.**  Let a compiled graph have no
routers and stop before no node, and let no node fail in its run.  Then a node
runs in a superstep iff the budget allows for it and a walk of so many edges
leads from the entry to the node.  The run exceeds its budget iff a walk of one
edge more than the budget leads to a node, and ends well otherwise.  Hence a
budget of as many supersteps as there are nodes suffices if no cycle can be
reached, and none suffices if one can. -/
theorem static_run_follows_walks {id : String} {keys : KeyTable} {calls : List Draft.Call}
    {config : CompileConfig} {graph : Graph}
    (hcompile : (Draft.attemptAll { id, keys } calls).compile config = .ok graph)
    (hunrouted : graph.topology.routers = []) (hunstopped : graph.config.interruptBefore = [])
    (inputs : Store) (ctx : RunConfig) (budget : Nat)
    (hsucceed : (graph.withBudget budget).machine.ActionsSucceed ctx inputs) :
    (∀ superstep id, (graph.withBudget budget).machine.RunsIn ctx inputs superstep id ↔
        superstep ≤ budget ∧ id ∈ graph.nodeIds ∧
          Walk graph.topology.edges startId superstep id) ∧
      ((graph.withBudget budget).run inputs ctx = .error (.stepLimitExceeded budget) ↔
        ∃ id ∈ graph.nodeIds, Walk graph.topology.edges startId (budget + 1) id) ∧
      ((∃ final, (graph.withBudget budget).run inputs ctx = .ok final) ↔
        ¬ ∃ id ∈ graph.nodeIds, Walk graph.topology.edges startId (budget + 1) id) ∧
      (¬ CycleReachable graph.topology.edges → graph.nodeIds.length ≤ budget →
        ∃ final, (graph.withBudget budget).run inputs ctx = .ok final) ∧
      (CycleReachable graph.topology.edges →
        (graph.withBudget budget).run inputs ctx = .error (.stepLimitExceeded budget)) := by
  have hstatic := static_of_compile hcompile hunrouted hunstopped budget
  have hids : (graph.withBudget budget).machine.topology.nodeIds = graph.nodeIds :=
    Topology.nodeIds_map run graph.topology
  have hruns := hstatic.runsIn_iff hsucceed
  have hexceeds := hstatic.run_eq_limit_iff hsucceed
  have hends := hstatic.exists_final_iff hsucceed
  rw [hids] at hruns hexceeds hends
  rw [← run_eq] at hexceeds hends
  refine ⟨hruns, hexceeds, hends, ?_, ?_⟩
  · intro hacyclic hlength
    refine hends.mpr ?_
    intro hwalk
    obtain ⟨id, hid, hwalk⟩ := hwalk
    rw [← hids] at hid hlength
    exact hacyclic (hstatic.cycleReachable_of_walk hid hwalk (Nat.lt_succ_of_le hlength))
  · intro hcycle
    refine hexceeds.mpr ?_
    rw [← hids]
    exact hstatic.exists_walk_of_cycle hcycle budget

/-- Two nodes that lead to each other, one of them also to the exit. -/
def rally : Graph where
  id := "rally"
  keys := .empty
  topology :=
    { nodes := [⟨"ping", .action fun _ _ => .ok .empty⟩, ⟨"pong", .action fun _ _ => .ok .empty⟩]
      edges := [(startId, "ping"), ("ping", "pong"), ("pong", endId), ("pong", "ping")] }
  config := {}

theorem rally_actions_succeed (ctx : RunConfig) (inputs : Store) (budget : Nat) :
    (rally.withBudget budget).machine.ActionsSucceed ctx inputs := by
  intro n b hreach hgoes hbudget id hid node hnode
  have hmem : node ∈ rally.machine.topology.nodes := Machine.mem_of_node? hnode
  rcases List.mem_cons.mp hmem with rfl | hmem
  · exact ⟨.empty, rfl⟩
  · rw [List.mem_singleton.mp hmem]
    exact ⟨.empty, rfl⟩

/-- The rally comes back to its first node in the third superstep, and exceeds
every budget. -/
theorem cycle_exceeds_every_budget :
    (Draft.attemptAll { id := "rally", keys := .empty } rally.staticCalls).compile {} = .ok rally ∧
      rally.topology.routers = [] ∧ rally.config.interruptBefore = [] ∧
      (∀ budget, (rally.withBudget budget).machine.ActionsSucceed {} .empty) ∧
      (∀ budget, 3 ≤ budget → (rally.withBudget budget).machine.RunsIn {} .empty 3 "ping") ∧
      ∀ budget, (rally.withBudget budget).run .empty {} = .error (.stepLimitExceeded budget) := by
  have hcompile : (Draft.attemptAll { id := "rally", keys := .empty } rally.staticCalls).compile {} =
      .ok rally := rfl
  have hsucceed := rally_actions_succeed {} .empty
  have hfirst : Walk rally.topology.edges startId 1 "ping" := .onward .stay (by decide)
  have hround : Walk rally.topology.edges "ping" 2 "ping" :=
    .onward (.onward .stay (by decide : ("ping", "pong") ∈ rally.topology.edges)) (by decide)
  refine ⟨hcompile, rfl, rfl, hsucceed, ?_, ?_⟩
  · intro budget hbudget
    have hruns := (static_run_follows_walks hcompile rfl rfl .empty {} budget (hsucceed budget)).1
    exact (hruns 3 "ping").mpr ⟨hbudget, by decide, hfirst.trans hround⟩
  · intro budget
    obtain ⟨-, -, -, -, hcycle⟩ :=
      static_run_follows_walks hcompile rfl rfl .empty {} budget (hsucceed budget)
    exact hcycle ⟨"ping", 1, 1, hfirst, hround⟩

end Graph

end FlowGraph
