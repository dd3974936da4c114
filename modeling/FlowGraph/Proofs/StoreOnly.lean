import FlowGraph.Proofs.DeclarationOrder
import FlowGraph.Proofs.Superstep

/-!
# Graphs that see the store only

The context of a run is handed to every node, router and nested graph.  An
action that sees the store only is lifted to one that is given the context and
leaves it out, and so a graph of such actions, nested to any depth, leaves it
out as well: one superstep in two contexts is one superstep, and so is a run.

* `Machine.Blind.run_eq`: **what looks at no context runs alike in any two.**
* `Assembled.backed`: what stands behind the nodes and routers of a compiled
  graph.
* `Graph.StoreOnly`: composers of actions that see the store only, to any depth.
* `storeOnly_run_eq`: the context has no influence on their graphs.
-/

namespace FlowGraph

/-! ## One run in two contexts -/

/-- No node and no router of a machine tells two contexts apart. -/
structure Machine.Blind (m : Machine) (ctx ctx' : RunConfig) : Prop where
  nodes : ∀ node ∈ m.topology.nodes, ∀ id store,
    node.body.act id store ctx = node.body.act id store ctx'
  routers : ∀ entry ∈ m.topology.routers, ∀ store,
    entry.2.choose store ctx = entry.2.choose store ctx'

namespace Machine.Blind

variable {m : Machine} {ctx ctx' : RunConfig}

/-- Sources of a blind machine lead on alike in the two contexts. -/
theorem successors_eq (h : m.Blind ctx ctx') (source : String) (store : Store) :
    m.successors ctx source store = m.successors ctx' source store := by
  unfold successors
  cases hrouter : m.topology.router? source with
  | none => rfl
  | some router =>
      have hsame : router.choose store ctx = router.choose store ctx' :=
        h.routers _ (Topology.mem_routers_of_router? hrouter) store
      simp only [hsame]

/-- Frontiers of a blind machine act alike in the two contexts. -/
theorem actAll_eq (h : m.Blind ctx ctx') (b : Boundary) : m.actAll ctx b = m.actAll ctx' b := by
  unfold actAll
  cases hnodes : b.frontier.mapM m.nodeOf with
  | error fault => rfl
  | ok nodes =>
      have houtputs : nodes.mapM (output ctx b.store) = nodes.mapM (output ctx' b.store) := by
        refine Traversal.mapM_congr ?_
        intro node hnode
        obtain ⟨id, -, hid⟩ := Traversal.exists_asked hnodes hnode
        unfold output
        rw [h.nodes node (mem_of_node? (nodeOf_eq_ok_iff.mp hid))]
      simp only [bind, Except.bind, houtputs]

/-- A blind machine is in step with itself. -/
theorem inStep (h : m.Blind ctx ctx') : m.InStep ctx m ctx' :=
  ⟨rfl, rfl, h.successors_eq, h.actAll_eq⟩

/-- **What looks at no context runs alike in any two.** -/
theorem run_eq (h : m.Blind ctx ctx') (inputs : Store) :
    m.run inputs ctx = m.run inputs ctx' := h.inStep.run_eq inputs

end Machine.Blind

/-! ## What stands behind nodes and routers -/

namespace Member

/-- A node member has a value: its own, or the one that it is supplied with. -/
def HoldsNode (supplier : Supplier) (member : Member) (value : Component) : Prop :=
  ∃ tag, member.nodeTag? = some tag ∧
    member.resolved supplier (some (member.nodeId tag)) = some value

/-- A router member has a value: its own, or the one that it is supplied with. -/
def HoldsRouter (supplier : Supplier) (member : Member) (value : Component) : Prop :=
  ∃ tag, member.routerTag? = some tag ∧ member.resolved supplier none = some value

variable {supplier : Supplier} {member : Member} {found : Contribution}

/-- A node that a member declares is backed by the member's value. -/
theorem backs_of_declares (h : member.declares supplier = .ok found) {node : Node Graph}
    (hnode : node ∈ found.calls.flatMap Draft.Call.nodes) :
    ∃ value, member.HoldsNode supplier value ∧ value.Backs node.body := by
  cases declared_of_declares h with
  | @node tag value body hrole htag hvalue hbody =>
      rw [calls_node, List.flatMap_cons, (flatMap_edge_calls _).1] at hnode
      rw [List.mem_singleton.mp hnode]
      exact ⟨value, ⟨tag, nodeTag?_eq_some_iff.mpr ⟨hrole, htag⟩, hvalue⟩, hbody⟩
  | key | router | config | nothing => cases hnode

/-- A router that a member declares is the full form of the member's value. -/
theorem choice_of_declares (h : member.declares supplier = .ok found) {entry : String × Router}
    (hentry : entry ∈ found.calls.flatMap Draft.Call.routers) :
    ∃ value, member.HoldsRouter supplier value ∧ value.choice? = some entry.2.choose := by
  cases declared_of_declares h with
  | @node tag value body =>
      rw [calls_node, List.flatMap_cons, (flatMap_edge_calls _).2.2] at hentry
      cases hentry
  | @router tag value choose hrole htag hvalue hchoose =>
      rw [List.mem_singleton.mp hentry]
      exact ⟨value, ⟨tag, routerTag?_eq_some_iff.mpr ⟨hrole, htag⟩, hvalue⟩, hchoose⟩
  | key | config | nothing => cases hentry

end Member

/-- **What compiles is backed** by the values of its members: every node and
every router of the graph comes from the value of one of them. -/
theorem Assembled.backed {compiler : Compiler} {composer : Composer} {found : List Contribution}
    {graph : Graph} (h : Assembled compiler composer found graph) :
    (∀ node ∈ graph.topology.nodes, ∃ member ∈ composer.members, ∃ value,
        member.HoldsNode compiler.supplier value ∧ value.Backs node.body) ∧
      ∀ entry ∈ graph.topology.routers, ∃ member ∈ composer.members, ∃ value,
        member.HoldsRouter compiler.supplier value ∧ value.choice? = some entry.2.choose := by
  constructor
  · intro node hnode
    rw [h.nodes, List.flatMap_assoc] at hnode
    obtain ⟨contribution, hcontribution, hnode⟩ := List.mem_flatMap.mp hnode
    obtain ⟨member, hmember, hdeclares⟩ := Traversal.exists_asked h.declared hcontribution
    exact ⟨member, hmember, Member.backs_of_declares hdeclares hnode⟩
  · intro entry hentry
    rw [h.routers, List.flatMap_assoc] at hentry
    obtain ⟨contribution, hcontribution, hentry⟩ := List.mem_flatMap.mp hentry
    obtain ⟨member, hmember, hdeclares⟩ := Traversal.exists_asked h.declared hcontribution
    exact ⟨member, hmember, Member.choice_of_declares hdeclares hentry⟩

/-! ## Graphs that see the store only -/

namespace Graph

/-- **A graph that sees the store only**: compiled, without extensions and hooks,
from a composer whose nodes are actions that see the store only or graphs of
this kind, and whose routers see the store only. -/
inductive StoreOnly : Graph → Prop
  | compiled {compiler : Compiler} {composer : Composer} {graph : Graph}
      (hplain : compiler.extensions = []) (hhooks : composer.hooks = {})
      (hnodes : ∀ member ∈ composer.members, ∀ value, member.HoldsNode compiler.supplier value →
        value.kind ∈ [.nodeAction, .asyncNodeAction, .subgraph])
      (hnested : ∀ member ∈ composer.members, ∀ child,
        member.HoldsNode compiler.supplier (.subgraph child) → StoreOnly child)
      (hrouters : ∀ member ∈ composer.members, ∀ value,
        member.HoldsRouter compiler.supplier value → value.kind ∈ [.edgeAction, .asyncEdgeAction])
      (hcompile : compiler.compile composer = .ok graph) : StoreOnly graph

end Graph

/-- An action of a kind that sees the store only leaves the context out. -/
theorem Component.action_ignores {value : Component} {run : Action}
    (hkind : value.kind ∈ [.nodeAction, .asyncNodeAction, .subgraph])
    (hlift : value.nodeAction? = some run) (store : Store) (ctx ctx' : RunConfig) :
    run store ctx = run store ctx' := by
  cases value <;> simp [kind] at hkind <;> cases hlift <;> rfl

/-- A router of a kind that sees the store only leaves the context out. -/
theorem Component.choice_ignores {value : Component} {choose : Choice}
    (hkind : value.kind ∈ [.edgeAction, .asyncEdgeAction])
    (hlift : value.choice? = some choose) (store : Store) (ctx ctx' : RunConfig) :
    choose store ctx = choose store ctx' := by
  cases value <;> simp [kind] at hkind <;> cases hlift <;> rfl

namespace Graph

/-- **The context has no influence on a graph that sees the store only**: in any
two contexts it ends in the same store or in the same fault, on all inputs. -/
theorem storeOnly_run_eq {graph : Graph} (h : graph.StoreOnly) (inputs : Store)
    (ctx ctx' : RunConfig) : graph.run inputs ctx = graph.run inputs ctx' := by
  -- on how the graph was compiled: the graphs that its members hold come first
  induction h generalizing inputs with
  | @compiled compiler composer graph hplain hhooks hnodes hnested hrouters hcompile ih =>
      obtain ⟨found, hassembled⟩ := Compiler.assembled_of_compile hplain hhooks hcompile
      obtain ⟨hbodies, hchoices⟩ := hassembled.backed
      have hblind : graph.machine.Blind ctx ctx' := by
        constructor
        · intro node hnode id store
          obtain ⟨original, hmem, rfl⟩ := List.mem_map.mp hnode
          obtain ⟨member, hmember, value, hholds, hbacks⟩ := hbodies original hmem
          have hkind := hnodes member hmember value hholds
          obtain ⟨id', body⟩ := original
          cases hbacks with
          | action hlift => exact Component.action_ignores hkind hlift store ctx ctx'
          | subgraph child => exact ih member hmember child hholds store
        · intro entry hentry store
          obtain ⟨member, hmember, value, hholds, hchoice⟩ := hchoices entry hentry
          exact Component.choice_ignores (hrouters member hmember value hholds) hchoice store
            ctx ctx'
      rw [Graph.run_eq]
      exact hblind.run_eq inputs

end Graph

/-- A graph that boils water. -/
def Composer.kettle : Composer where
  typeName := "Kettle"
  marker := some {}
  members :=
    [{ Member.field "boil" (.nodeAction fun _ => .ok (.ofList [("water", .str "hot")])) with
       tags := [.node { isStart := true, next := [endId] }] }]

theorem Graph.storeOnly_of_kettle {kettle : Graph}
    (hcompile : ({} : Compiler).compile .kettle = .ok kettle) : kettle.StoreOnly := by
  refine .compiled rfl rfl ?_ ?_ ?_ hcompile
  · intro member hmember value hvalue
    cases List.mem_singleton.mp hmember
    obtain ⟨tag, -, hheld⟩ := hvalue
    cases hheld
    decide
  · intro member hmember child hvalue
    cases List.mem_singleton.mp hmember
    obtain ⟨tag, -, hheld⟩ := hvalue
    cases hheld
  · intro member hmember value hvalue
    cases List.mem_singleton.mp hmember
    obtain ⟨tag, htag, -⟩ := hvalue
    cases htag

/-- A graph around a kettle that it has to be supplied with, which looks whether
there is water at the end. -/
def Composer.kitchen : Composer where
  typeName := "Kitchen"
  marker := some {}
  members :=
    [{ Member.unset "kettle" .subgraph with tags := [.node { isStart := true }] },
     { Member.field "look" (.edgeAction fun store =>
         if Table.contains store "water" then .ok "done" else .error (.actionFailed "dry")) with
       tags := [.edge { source := "kettle", mappings := ["done", endId] }] }]

theorem Graph.storeOnly_of_kitchen {kettle kitchen : Graph} (hkettle : kettle.StoreOnly)
    (hcompile : ({ supplier := fun _ _ => some (.subgraph kettle) } : Compiler).compile .kitchen =
      .ok kitchen) : kitchen.StoreOnly := by
  refine .compiled rfl rfl ?_ ?_ ?_ hcompile
  · intro member hmember value hvalue
    obtain ⟨tag, htag, hheld⟩ := hvalue
    rcases List.mem_pair.mp hmember with rfl | rfl
    · cases hheld
      simp [Component.kind]
    · cases htag
  · intro member hmember child hvalue
    obtain ⟨tag, htag, hheld⟩ := hvalue
    rcases List.mem_pair.mp hmember with rfl | rfl
    · cases hheld
      exact hkettle
    · cases htag
  · intro member hmember value hvalue
    obtain ⟨tag, htag, hheld⟩ := hvalue
    rcases List.mem_pair.mp hmember with rfl | rfl
    · cases htag
    · cases hheld
      decide

/-- A kitchen with a supplied kettle boils water in any context. -/
theorem Graph.supplied_subgraph_runs_alike_in_any_context :
    ∃ kettle kitchen, ({} : Compiler).compile .kettle = .ok kettle ∧
      ({ supplier := fun _ _ => some (.subgraph kettle) } : Compiler).compile .kitchen =
        .ok kitchen ∧
      kitchen.StoreOnly ∧
      kitchen.run .empty { threadId := some "dinner" } = kitchen.run .empty {} := by
  obtain ⟨kettle, hkettle⟩ : ∃ kettle, ({} : Compiler).compile .kettle = .ok kettle := ⟨_, rfl⟩
  obtain ⟨kitchen, hkitchen⟩ : ∃ kitchen,
      ({ supplier := fun _ _ => some (.subgraph kettle) } : Compiler).compile .kitchen =
        .ok kitchen := ⟨_, rfl⟩
  have hstoreOnly := storeOnly_of_kitchen (storeOnly_of_kettle hkettle) hkitchen
  exact ⟨kettle, kitchen, hkettle, hkitchen, hstoreOnly, storeOnly_run_eq hstoreOnly .empty _ _⟩

end FlowGraph
