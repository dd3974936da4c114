import FlowGraph.Proofs.Rounds

/-!
# Independent nodes

The order of its static edges gives a graph the order of its frontiers, and with
it the order in which updates are written, routers are asked and what comes next
is collected.  None of this can be seen where the nodes of a superstep write
different keys and routers write nothing.

The frontiers of two such runs are equal only up to their order, so the runs are
compared by a relation, `Boundary.Reordered`, that every superstep keeps.

* `Store.update_comm`: updates without a common key can change places.
* `actAll_withEdges`: **the nodes of a reordered frontier write the same store.**
* `advance_withEdges`: one superstep keeps boundaries the same up to order.
* `independent_nodes_commute`: so does a run, and its result is the same.
-/

namespace FlowGraph

/-- Two tables have no key in common. -/
def Table.Apart {α : Type} (s t : Table α) : Prop := ∀ key, s.get? key = none ∨ t.get? key = none

/-- **Updates without a common key can change places**, whatever the rules. -/
theorem Store.update_comm {u v : Update} (h : Table.Apart u v) (keys keys' : KeyTable)
    (store : Store) :
    update keys' (update keys store u) v = update keys (update keys' store v) u := by
  refine Table.ext_get? fun key => ?_
  rw [get?_update, get?_update, get?_update, get?_update]
  rcases h key with hu | hv
  · simp [hu]
  · simp [hv]

/-- A graph with other static edges. -/
def Graph.withEdges (graph : Graph) (edges : List (String × String)) : Graph :=
  { graph with topology.edges := edges }

/-- Two boundaries have the same store, and the same nodes to run next in some order. -/
structure Boundary.Reordered (b b' : Boundary) : Prop where
  store : b.store = b'.store
  frontier : b.frontier.Perm b'.frontier

namespace Machine

/-- A machine with other static edges. -/
def withEdges (m : Machine) (edges : List (String × String)) : Machine :=
  { m with topology.edges := edges }

/-- No two nodes of a frontier write one key. -/
def ApartAt (m : Machine) (ctx : RunConfig) (b : Boundary) : Prop :=
  ∀ id ∈ b.frontier, ∀ other ∈ b.frontier, id ≠ other → ∀ node update node' update',
    m.answer ctx b.store id = .ok (node, update) →
      m.answer ctx b.store other = .ok (node', update') → Table.Apart update update'

/-- In no superstep of a run do two nodes write one key. -/
def WritesApart (m : Machine) (ctx : RunConfig) (inputs : Store) : Prop :=
  ∀ n b, m.Reaches ctx inputs n b → m.halts b = false → n < m.config.maxSteps → m.ApartAt ctx b

variable {m : Machine} {ctx : RunConfig} {inputs : Store} {edges : List (String × String)}

/-! ## Where sources lead -/

/-- A source leads to the same targets, in some order. -/
theorem successors_withEdges (hperm : m.topology.edges.Perm edges) {source : String}
    {store after : Store} {targets : List String}
    (h : m.successors ctx source store = .ok (targets, after)) :
    ∃ targets', (m.withEdges edges).successors ctx source store = .ok (targets', after) ∧
      targets.Perm targets' := by
  rcases successors_eq_ok h with ⟨hrouter, rfl, rfl⟩ |
    ⟨router, decision, target, hrouter, hchoose, hroute, rfl, rfl⟩
  · have hrouter' : (m.withEdges edges).topology.router? source = none := hrouter
    refine ⟨(m.withEdges edges).topology.targets source, by simp only [successors, hrouter'], ?_⟩
    exact (hperm.filter _).map _
  · have hrouter' : (m.withEdges edges).topology.router? source = some router := hrouter
    refine ⟨[target], ?_, .refl _⟩
    simp only [successors, hrouter', hchoose, hroute]
    rfl

/-- A source leads to the same nodes with its edges in another order. -/
theorem leadsTo_withEdges_iff (hperm : m.topology.edges.Perm edges) {store : Store}
    {source id : String} :
    (m.withEdges edges).LeadsTo ctx store source id ↔ m.LeadsTo ctx store source id := by
  constructor
  · intro h
    obtain ⟨targets', after, hsource, hid⟩ := h
    obtain ⟨targets, htargets, hsame⟩ := successors_withEdges hperm.symm hsource
    exact ⟨targets, after, htargets, hsame.mem_iff.mp hid⟩
  · intro h
    obtain ⟨targets, after, hsource, hid⟩ := h
    obtain ⟨targets', htargets, hsame⟩ := successors_withEdges hperm hsource
    exact ⟨targets', after, htargets, hsame.mem_iff.mp hid⟩

/-- What is next is listed once. -/
theorem nodup_routeAll {ids last : List String} {store after : Store}
    (h : m.routeAll ctx ids [] store = .ok (last, after)) : last.Nodup := by
  refine routeAll_invariant (P := fun ids _ => ids.Nodup) ?_ List.nodup_nil h
  intro _ _ next _ targets _ hnext _
  exact nodup_addNew hnext targets

/-- **The order of sources and edges does not matter to what is next.** -/
theorem routeAll_withEdges (hperm : m.topology.edges.Perm edges) (hquiet : m.topology.Quiet)
    {ids ids' last : List String} {store after : Store} (hids : ids.Perm ids')
    (h : m.routeAll ctx ids [] store = .ok (last, after)) :
    ∃ last', (m.withEdges edges).routeAll ctx ids' [] store = .ok (last', after) ∧
      last.Perm last' := by
  obtain ⟨rfl, hsources, hmem⟩ := routeAll_of_quiet hquiet h
  have hsources' : ∀ source ∈ ids', ∃ targets,
      (m.withEdges edges).successors ctx source after = .ok (targets, after) := by
    intro source hsource
    obtain ⟨targets, htargets⟩ := hsources source (hids.mem_iff.mpr hsource)
    obtain ⟨targets', htargets', -⟩ := successors_withEdges hperm htargets
    exact ⟨targets', htargets'⟩
  obtain ⟨last', hlast'⟩ := exists_routeAll hsources' []
  have hquiet' : (m.withEdges edges).topology.Quiet := hquiet
  obtain ⟨-, -, hmem'⟩ := routeAll_of_quiet hquiet' hlast'
  refine ⟨last', hlast', ?_⟩
  rw [List.perm_ext_iff_of_nodup (nodup_routeAll h) (nodup_routeAll hlast')]
  intro id
  simp only [hmem, hmem', leadsTo_withEdges_iff hperm, hids.mem_iff]

/-! ## What nodes write -/

/-- **The nodes of a reordered frontier write the same store**, if no two of them
write one key. -/
theorem actAll_withEdges {b b' : Boundary} (hsame : b.Reordered b') {merged : Store}
    (hapart : m.ApartAt ctx b) (h : m.actAll ctx b = .ok merged) :
    (m.withEdges edges).actAll ctx b' = .ok merged := by
  obtain ⟨results, hresults, rfl⟩ := actAll_eq_ok_iff.mp h
  obtain ⟨results', hasked, hanswers⟩ :=
    List.perm_comp_forall₂ hsame.frontier.symm (Traversal.mapM_eq_ok_iff.mp hresults)
  refine actAll_eq_ok_iff.mpr ⟨results', ?_, ?_⟩
  · rw [← hsame.store]
    exact Traversal.mapM_eq_ok_iff.mpr hasked
  · rw [← hsame.store]
    refine hanswers.symm.foldl_eq' ?_ b.store
    intro result hresult result' hresult' store
    obtain ⟨id, hid, hanswer⟩ := Traversal.exists_asked hresults hresult
    obtain ⟨other, hother, hanswer'⟩ := Traversal.exists_asked hresults hresult'
    by_cases heq : id = other
    · subst heq
      rw [Except.ok.inj (hanswer.symm.trans hanswer')]
    · exact Store.update_comm (hapart id hid other hother heq _ _ _ _ hanswer hanswer') _ _ store

/-! ## Two runs side by side -/

/-- Targets in another order make a boundary in another order. -/
theorem reordered_at {store : Store} {targets targets' : List String}
    (h : targets.Perm targets') :
    (Boundary.at store targets).Reordered (Boundary.at store targets') :=
  ⟨rfl, h.filter _⟩

/-- A run is entered alike, up to the order of the first frontier. -/
theorem enter_withEdges (hperm : m.topology.edges.Perm edges) {b : Boundary}
    (h : m.enter ctx inputs = .ok b) :
    ∃ b', (m.withEdges edges).enter ctx inputs = .ok b' ∧ b.Reordered b' := by
  obtain ⟨targets, store, hfirst, rfl⟩ := enter_eq_ok_iff.mp h
  obtain ⟨targets', hfirst', hsame⟩ := successors_withEdges hperm hfirst
  exact ⟨_, enter_eq_ok_iff.mpr ⟨targets', store, hfirst', rfl⟩, reordered_at hsame⟩

/-- **One superstep keeps boundaries the same up to order.** -/
theorem advance_withEdges (hperm : m.topology.edges.Perm edges) (hquiet : m.topology.Quiet)
    {b b' next : Boundary} (hsame : b.Reordered b') (hapart : m.ApartAt ctx b)
    (h : m.advance ctx b = .ok next) :
    ∃ next', (m.withEdges edges).advance ctx b' = .ok next' ∧ next.Reordered next' := by
  obtain ⟨merged, targets, store, hact, hroute, rfl⟩ := advance_eq_ok_iff.mp h
  obtain ⟨targets', hroute', htargets⟩ := routeAll_withEdges hperm hquiet hsame.frontier hroute
  have hact' : (m.withEdges edges).actAll ctx b' = .ok merged := actAll_withEdges hsame hapart hact
  exact ⟨_, advance_eq_ok_iff.mpr ⟨merged, targets', store, hact', hroute', rfl⟩,
    reordered_at htargets⟩

/-- The order of a frontier does not decide whether a run ends there. -/
theorem halts_withEdges {b b' : Boundary} (hsame : b.Reordered b') :
    (m.withEdges edges).halts b' = m.halts b := by
  have hempty : b'.frontier.isEmpty = b.frontier.isEmpty := hsame.frontier.symm.isEmpty_eq
  have hstops : (m.withEdges edges).interrupts b' = m.interrupts b := hsame.frontier.symm.any_eq
  rw [halts, halts, hempty, hstops]

/-- **The rest of a run**: from boundaries that are the same up to order both
machines come to the same store, and their supersteps run the same nodes. -/
theorem loop_withEdges (hperm : m.topology.edges.Perm edges) (hquiet : m.topology.Quiet)
    (hapart : m.WritesApart ctx inputs) {budget n : Nat} {b b' : Boundary} {final : Store}
    (hreach : m.Reaches ctx inputs n b) (hbudget : n + budget = m.config.maxSteps)
    (hsame : b.Reordered b') (h : m.loop ctx budget b = .ok final) :
    (m.withEdges edges).loop ctx budget b' = .ok final ∧
      List.Forall₂ List.Perm (m.roundsFrom ctx budget b)
        ((m.withEdges edges).roundsFrom ctx budget b') := by
  -- on the steps that are left: the boundaries stay the same up to order
  induction budget generalizing n b b' with
  | zero =>
      have hends : (m.withEdges edges).halts b' = m.halts b := halts_withEdges hsame
      cases hhalts : m.halts b with
      | false => simp [loop, hhalts] at h
      | true =>
          rw [hhalts] at hends
          rw [loop_of_halts m ctx 0 hhalts] at h
          rw [loop_of_halts _ ctx 0 hends, ← hsame.store]
          exact ⟨h, .nil⟩
  | succ budget ih =>
      have hends : (m.withEdges edges).halts b' = m.halts b := halts_withEdges hsame
      cases hhalts : m.halts b with
      | true =>
          rw [hhalts] at hends
          rw [loop_of_halts m ctx _ hhalts] at h
          rw [loop_of_halts _ ctx _ hends, ← hsame.store]
          refine ⟨h, ?_⟩
          simp [roundsFrom, hhalts, hends]
      | false =>
          rw [hhalts] at hends
          rw [loop_succ m ctx _ hhalts] at h
          cases hstep : m.advance ctx b with
          | error fault =>
              rw [hstep] at h
              cases h
          | ok next =>
              rw [hstep] at h
              have hleft : n < m.config.maxSteps := by omega
              obtain ⟨next', hstep', hnext⟩ :=
                advance_withEdges hperm hquiet hsame (hapart n b hreach hhalts hleft) hstep
              obtain ⟨hrun, hrounds⟩ := ih (.advance hreach hhalts hleft hstep) (by omega) hnext h
              rw [loop_succ _ ctx _ hends, hstep']
              refine ⟨hrun, ?_⟩
              simp only [roundsFrom, hhalts, hends, hstep, hstep', Bool.false_eq_true, if_false]
              exact .cons hsame.frontier hrounds

end Machine

namespace Graph

/-- **Independent nodes of a superstep commute.**  Let the routers of a graph
write nothing, and let no two nodes of a superstep write one key while it runs
on some inputs.  If this run hands back a store, then a graph that differs only
in the order of its static edges hands back the same store, and superstep by
superstep it runs the same nodes. -/
theorem independent_nodes_commute {graph : Graph} {edges : List (String × String)}
    (hperm : graph.topology.edges.Perm edges) (hquiet : graph.topology.Quiet)
    {inputs final : Store} {ctx : RunConfig} (hapart : graph.machine.WritesApart ctx inputs)
    (hrun : graph.run inputs ctx = .ok final) :
    (graph.withEdges edges).run inputs ctx = .ok final ∧
      List.Forall₂ List.Perm (graph.machine.rounds ctx inputs)
        ((graph.withEdges edges).machine.rounds ctx inputs) := by
  have hmachine : (graph.withEdges edges).machine = graph.machine.withEdges edges := rfl
  have hquiet' : graph.machine.topology.Quiet := hquiet
  rw [run_eq] at hrun ⊢
  rw [hmachine]
  cases henter : graph.machine.enter ctx inputs with
  | error fault => simp [Machine.run, henter] at hrun
  | ok b =>
      obtain ⟨b', henter', hsame⟩ := Machine.enter_withEdges hperm henter
      simp only [Machine.run, henter] at hrun
      simp only [Machine.run, Machine.rounds, henter, henter']
      exact Machine.loop_withEdges hperm hquiet' hapart (.enter henter) (Nat.zero_add _) hsame hrun

/-- A node that writes one value, under its own id. -/
def voice (id : String) (value : Json) : Node Graph :=
  ⟨id, .executor fun id _ _ => .ok (.ofList [(id, value)])⟩

/-- Two nodes side by side, and a third after them with a router to the exit. -/
def duet : Graph where
  id := "duet"
  keys := .ofList [("high", .append), ("low", .merge)]
  topology :=
    { nodes :=
        [voice "high" (.str "lark"), voice "low" (.obj [("c", .bool true)]),
         voice "coda" (.bool true)]
      edges := [(startId, "high"), (startId, "low"), ("high", "coda"), ("low", "coda")]
      routers := [("coda", ⟨fun _ _ => .ok ⟨"end", .empty⟩, .ofList [("end", endId)]⟩)] }
  config := {}

/-- What the duet is given: both voices have begun. -/
def duetInputs : Store := .ofList [("high", .str "owl"), ("low", .obj [("a", .null)])]

/-- What the duet comes to. -/
def duetStore : Store :=
  .ofList [("high", .arr [.str "owl", .str "lark"]),
    ("low", .obj [("a", .null), ("c", .bool true)]), ("coda", .bool true)]

/-- Every voice writes under its own id, whatever it finds. -/
theorem duet_answers {store : Store} {id : String} {node : Node Runner} {update : Update}
    (h : duet.machine.answer {} store id = .ok (node, update)) :
    ∃ value, update = .ofList [(id, value)] := by
  obtain ⟨hnode, hact⟩ := Machine.answer_eq_ok_iff.mp h
  have hmem : node ∈ duet.machine.topology.nodes := Machine.mem_of_node? hnode
  simp only [machine, Topology.map, duet, voice, Node.map, Body.map, List.map_cons,
    List.map_nil, List.mem_cons, List.not_mem_nil, or_false] at hmem
  rcases hmem with rfl | rfl | rfl
  all_goals exact ⟨_, (Except.ok.inj hact).symm⟩

theorem duet_writes_apart : duet.machine.WritesApart {} duetInputs := by
  intro n b _ _ _ id _ other _ hne node update node' update' hanswer hanswer' key
  obtain ⟨value, rfl⟩ := duet_answers hanswer
  obtain ⟨value', rfl⟩ := duet_answers hanswer'
  by_cases hkey : id = key
  · right
    have hother : other ≠ key := fun h => hne (hkey.trans h.symm)
    simp [Table.get?_ofList, Fields.get?_cons, hother]
  · left
    simp [Table.get?_ofList, Fields.get?_cons, hkey]

/-- With its edges the other way round the voices of the duet come in in the
other order, and to the same end. -/
theorem reversed_edges_end_the_same :
    duet.topology.edges.Perm duet.topology.edges.reverse ∧ duet.topology.Quiet ∧
      duet.machine.WritesApart {} duetInputs ∧ duet.run duetInputs {} = .ok duetStore ∧
      duet.machine.rounds {} duetInputs = [["high", "low"], ["coda"]] ∧
      (duet.withEdges duet.topology.edges.reverse).machine.rounds {} duetInputs =
        [["low", "high"], ["coda"]] ∧
      (duet.withEdges duet.topology.edges.reverse).run duetInputs {} = .ok duetStore := by
  have hperm : duet.topology.edges.Perm duet.topology.edges.reverse := (List.reverse_perm _).symm
  have hquiet : duet.topology.Quiet := by
    intro entry hentry store ctx decision hchoose
    cases List.mem_singleton.mp hentry
    cases hchoose
    rfl
  have hrun : duet.run duetInputs {} = .ok duetStore := rfl
  refine ⟨hperm, hquiet, duet_writes_apart, hrun, rfl, rfl, ?_⟩
  exact (independent_nodes_commute hperm hquiet duet_writes_apart hrun).1

end Graph

end FlowGraph
