import FlowGraph.Proofs.Lookups
import FlowGraph.Proofs.WellFormed
import Mathlib.Data.List.Rotate

/-!
# Members in another order

The calls of a draft are made in the order of the members, and a run finds
nodes, edges and routers by the first match.  Still the order of the members
decides nothing but the order of the start nodes: ids, sources and keys are
distinct in whatever compiles, and all edges of a node come from the one member
that declares it.  Only the entry gets its edges from several members.

* `Composer.WellFormed.of_perm`: the rules of a definition mention no order.
* `Assembled`: what the graph of a composer consists of.
* `Composer.flatMap_targetsFrom_eq_of_perm`: **the edges of a node come from one
  member.**
* `Compiler.member_order_is_immaterial`: two orders of the same members.
-/

namespace FlowGraph

/-- Whether a member is a node that the entry leads to. -/
def Member.isStart (member : Member) : Bool := member.nodeTag?.any NodeSpec.isStart

/-- Where the static edges of a member lead from a source. -/
def Member.targetsFrom (source : String) (member : Member) : List String :=
  (member.staticEdges.filter fun edge => edge.1 == source).map Prod.snd

namespace Composer

variable {composer : Composer} {members : List Member} {supplier : Supplier}

/-! ## Whether a composer compiles -/

/-- Members in another order declare the same node ids in another order. -/
theorem nodeIds_perm (hperm : composer.members.Perm members) :
    composer.nodeIds.Perm ({ composer with members } : Composer).nodeIds :=
  hperm.flatMap_right _

/-- Members in another order declare the same static edges in another order. -/
theorem staticEdges_perm (hperm : composer.members.Perm members) :
    composer.staticEdges.Perm ({ composer with members } : Composer).staticEdges :=
  hperm.flatMap_right _

/-- Members in another order declare the same routed sources in another order. -/
theorem sources_perm (hperm : composer.members.Perm members) :
    composer.sources.Perm ({ composer with members } : Composer).sources :=
  hperm.flatMap_right _

/-- Members in another order declare the same keys in another order. -/
theorem keyIds_perm (hperm : composer.members.Perm members) :
    composer.keyIds.Perm ({ composer with members } : Composer).keyIds :=
  hperm.filterMap _

/-- Whether members declare a structure does not depend on their order. -/
theorem Structured.of_perm (hperm : composer.members.Perm members) (h : composer.Structured) :
    ({ composer with members } : Composer).Structured where
  nodesNamed := by
    intro id hid
    exact h.nodesNamed id ((nodeIds_perm hperm).mem_iff.mpr hid)
  nodesDistinct := (nodeIds_perm hperm).nodup_iff.mp h.nodesDistinct
  edgesDistinct := (staticEdges_perm hperm).nodup_iff.mp h.edgesDistinct
  edgesEnd := by
    intro edge hedge
    rw [← (nodeIds_perm hperm).mem_iff]
    exact h.edgesEnd edge ((staticEdges_perm hperm).mem_iff.mpr hedge)
  sourcesBegin := by
    intro source hsource
    rw [← (nodeIds_perm hperm).mem_iff]
    exact h.sourcesBegin source ((sources_perm hperm).mem_iff.mpr hsource)
  sourcesDistinct := (sources_perm hperm).nodup_iff.mp h.sourcesDistinct
  unmixed := by
    intro edge hedge
    rw [← (sources_perm hperm).mem_iff]
    exact h.unmixed edge ((staticEdges_perm hperm).mem_iff.mpr hedge)
  routesEnd := by
    intro member hmember tag htag
    obtain ⟨hroutes, hends⟩ := h.routesEnd member (hperm.mem_iff.mpr hmember) tag htag
    refine ⟨hroutes, ?_⟩
    intro label target hleads
    rw [← (nodeIds_perm hperm).mem_iff]
    exact hends label target hleads
  entry := by
    rw [← (sources_perm hperm).mem_iff]
    refine h.entry.imp_left ?_
    intro hentry
    obtain ⟨edge, hedge, hstart⟩ := hentry
    exact ⟨edge, (staticEdges_perm hperm).mem_iff.mp hedge, hstart⟩

/-- **The rules of a definition mention no order.** -/
theorem WellFormed.of_perm (hperm : composer.members.Perm members)
    (h : composer.WellFormed supplier) :
    ({ composer with members } : Composer).WellFormed supplier where
  toStructured := h.toStructured.of_perm hperm
  marked := h.marked
  readable := by
    intro member hmember
    exact h.readable member (hperm.mem_iff.mpr hmember)
  keysDistinct := (keyIds_perm hperm).nodup_iff.mp h.keysDistinct
  singleConfig := by
    rw [← (hperm.filter _).length_eq]
    exact h.singleConfig
  stops := by
    intro member hmember hrole config hconfig id hid
    rw [← (nodeIds_perm hperm).mem_iff]
    exact h.stops member (hperm.mem_iff.mpr hmember) hrole config hconfig id hid

/-! ## Where sources lead -/

/-- The targets of a source are listed member by member. -/
theorem Describes.targets_eq {t : Topology Graph} (h : composer.Describes t) (source : String) :
    t.targets source = composer.members.flatMap (Member.targetsFrom source) := by
  rw [Topology.targets, h.edges, staticEdges, List.filter_flatMap, List.map_flatMap]
  rfl

/-- A member has edges from the entry, if it is a start node, and from its own node. -/
theorem origin_of_targetsFrom {member : Member} {source : String}
    (h : member.targetsFrom source ≠ []) :
    (source = startId ∧ member.isStart = true) ∨ source ∈ member.nodeIds := by
  obtain ⟨target, htarget⟩ := List.exists_mem_of_ne_nil _ h
  obtain ⟨edge, hedge, -⟩ := List.mem_map.mp htarget
  obtain ⟨hedge, hsource⟩ := List.mem_filter.mp hedge
  have hsource : edge.1 = source := by simpa using hsource
  obtain ⟨tag, htag, hedge⟩ := List.mem_flatMap.mp hedge
  rw [← hsource]
  rcases List.mem_append.mp hedge with hstart | hnext
  · by_cases hisStart : tag.isStart
    · rw [if_pos hisStart] at hstart
      rw [List.mem_singleton.mp hstart]
      refine Or.inl ⟨rfl, ?_⟩
      rw [Member.isStart, Option.mem_toList.mp htag]
      exact hisStart
    · rw [if_neg hisStart] at hstart
      cases hstart
  · obtain ⟨next, -, rfl⟩ := List.mem_map.mp hnext
    exact Or.inr (List.mem_map.mpr ⟨tag, htag, rfl⟩)

/-- **The edges of a node come from one member**, so the members may stand in
any order. -/
theorem flatMap_targetsFrom_eq_of_perm (hperm : composer.members.Perm members)
    (hdistinct : composer.nodeIds.Nodup) {source : String} (hsource : source ≠ startId) :
    composer.members.flatMap (Member.targetsFrom source) =
      members.flatMap (Member.targetsFrom source) := by
  refine Lookup.flatMap_eq_of_perm hperm ?_
  refine (List.nodup_flatMap.mp hdistinct).2.imp ?_
  intro member other hdisjoint
  by_contra hboth
  obtain ⟨hmember, hother⟩ := not_or.mp hboth
  have hown : ∀ member : Member, member.targetsFrom source ≠ [] → source ∈ member.nodeIds := by
    intro member hedges
    rcases origin_of_targetsFrom hedges with ⟨hstart, -⟩ | hnode
    · exact absurd hstart hsource
    · exact hnode
  exact hdisjoint (hown member hmember) (hown other hother)

/-- The entry leads to the start nodes, in the order of their members. -/
theorem flatMap_targetsFrom_startId (hnamed : startId ∉ composer.nodeIds) :
    composer.members.flatMap (Member.targetsFrom startId) =
      (composer.members.filter Member.isStart).flatMap (Member.targetsFrom startId) := by
  have hnone : ∀ member ∈ composer.members, member.isStart = false →
      member.targetsFrom startId = [] := by
    intro member hmember hstart
    by_contra hedges
    rcases origin_of_targetsFrom hedges with ⟨-, hisStart⟩ | hnode
    · rw [hstart] at hisStart
      cases hisStart
    · exact hnamed (List.mem_flatMap.mpr ⟨member, hmember, hnode⟩)
  exact (Lookup.flatMap_filter_eq hnone).symm

end Composer

/-! ## What the graph of a composer consists of -/

/-- A graph is made of what the members of a composer declare. -/
structure Assembled (compiler : Compiler) (composer : Composer) (found : List Contribution)
    (graph : Graph) : Prop where
  declared : composer.members.mapM (Member.declares compiler.supplier) = .ok found
  keysDistinct : (found.flatMap Contribution.keyIds).Nodup
  singleConfig : (found.flatMap Contribution.configs).length ≤ 1
  named : ∃ marker, composer.marker = some marker ∧ graph.id = composer.graphId marker
  keys : graph.keys = .ofList (found.flatMap Contribution.rules)
  nodes : graph.topology.nodes = (found.flatMap Contribution.calls).flatMap Draft.Call.nodes
  routers : graph.topology.routers = (found.flatMap Contribution.calls).flatMap Draft.Call.routers
  describes : composer.Describes graph.topology
  legal : graph.topology.Legal
  config : graph.config = (found.flatMap Contribution.configs).headD {}

/-- **What compiles is assembled** from what its members declare. -/
theorem Compiler.assembled_of_compile {compiler : Compiler} {composer : Composer} {graph : Graph}
    (hplain : compiler.extensions = []) (hhooks : composer.hooks = {})
    (h : compiler.compile composer = .ok graph) :
    ∃ found, Assembled compiler composer found graph := by
  obtain ⟨marker, plan, hmarker, htake, hbuild⟩ := exists_plan_of_compile hplain h
  obtain ⟨found, hfound, hdistinct, hsingle, hgathers⟩ := gathers_of_takeAll htake
  have hdeclared := Member.allDeclare_of_mapM hfound
  have hcalls : plan.operations.flatMap Operation.calls =
      found.flatMap Contribution.calls := by
    rw [hgathers.operations]
    exact List.flatMap_assoc
  have hplainCalls : ∀ operation ∈ plan.operations, ∃ call, operation.effect = .call call := by
    rw [hgathers.operations]
    exact Member.plain_of_mapM hfound
  rw [hhooks] at hbuild
  obtain ⟨hlegal, -, hgraph⟩ := (Plan.build_calls_eq_ok_iff hplainCalls).mp hbuild
  rw [hcalls] at hlegal hgraph
  have hdescribes := Composer.describes_of_declared plan.graphId plan.keys hdeclared
  rw [hgraph]
  refine ⟨found, hfound, hdistinct, hsingle, ⟨marker, hmarker, hgathers.graphId⟩,
    hgathers.keys, ?_, ?_, hdescribes, hlegal, hgathers.options⟩
  · rw [Draft.extendAll_eq]
    exact List.nil_append _
  · rw [Draft.extendAll_eq]
    exact List.nil_append _

namespace Assembled

variable {compiler : Compiler} {composer : Composer} {members : List Member}
  {found found' : List Contribution} {graph graph' : Graph}

/-- The id of a graph is not declared by members. -/
theorem id_eq (h : Assembled compiler composer found graph)
    (h' : Assembled compiler { composer with members } found' graph') : graph.id = graph'.id := by
  obtain ⟨marker, hmarker, hid⟩ := h.named
  obtain ⟨marker', hmarker', hid'⟩ := h'.named
  cases hmarker.symm.trans hmarker'
  exact hid.trans hid'.symm

section

variable (h : Assembled compiler composer found graph)
  (h' : Assembled compiler { composer with members } found' graph')
  (hperm : composer.members.Perm members)

include h h' hperm

/-- Members in another order declare the same, in another order. -/
theorem found_perm : found.Perm found' :=
  Traversal.perm_of_mapM hperm h.declared h'.declared

/-- Distinct keys have the same rules in whatever order they were declared. -/
theorem keys_eq : graph.keys = graph'.keys := by
  have hdistinct : ((found.flatMap Contribution.rules).map Prod.fst).Nodup := by
    rw [List.map_flatMap]
    simp only [Contribution.map_rules]
    exact h.keysDistinct
  rw [h.keys, h'.keys]
  exact Table.ofList_eq_of_perm ((h.found_perm h' hperm).flatMap_right _) hdistinct

/-- A config that is declared once is the same wherever it stands. -/
theorem config_eq : graph.config = graph'.config := by
  have hconfigs : found.flatMap Contribution.configs = found'.flatMap Contribution.configs :=
    Lookup.eq_of_perm_of_length_le_one ((h.found_perm h' hperm).flatMap_right _) h.singleConfig
  rw [h.config, h'.config, hconfigs]

/-- The nodes are the same, in another order. -/
theorem nodes_perm : graph.topology.nodes.Perm graph'.topology.nodes := by
  rw [h.nodes, h'.nodes]
  exact ((h.found_perm h' hperm).flatMap_right _).flatMap_right _

/-- A source has the same router, because it has one at most. -/
theorem router?_eq (source : String) :
    graph.topology.router? source = graph'.topology.router? source := by
  have hrouters : graph.topology.routers.Perm graph'.topology.routers := by
    rw [h.routers, h'.routers]
    exact ((h.found_perm h' hperm).flatMap_right _).flatMap_right _
  exact Topology.router?_eq_of_perm hrouters h.legal.routersDistinct source

/-- Every source but the entry leads to the same nodes in the same order. -/
theorem targets_eq {source : String} (hsource : source ≠ startId) :
    graph.topology.targets source = graph'.topology.targets source := by
  have hdistinct : composer.nodeIds.Nodup := by
    rw [← h.describes.nodes]
    exact h.legal.distinct
  rw [h.describes.targets_eq, h'.describes.targets_eq]
  exact Composer.flatMap_targetsFrom_eq_of_perm hperm hdistinct hsource

end

/-- The entry is no node. -/
theorem startId_notMem (h : Assembled compiler composer found graph) :
    startId ∉ composer.nodeIds := by
  intro hstart
  rw [← h.describes.nodes] at hstart
  exact (h.legal.named startId hstart).2.1 rfl

/-- The entry does too, if the start nodes are declared in the same order. -/
theorem targets_startId_eq (h : Assembled compiler composer found graph)
    (h' : Assembled compiler { composer with members } found' graph')
    (hstarts : composer.members.filter Member.isStart = members.filter Member.isStart) :
    graph.topology.targets startId = graph'.topology.targets startId := by
  rw [h.describes.targets_eq, h'.describes.targets_eq,
    Composer.flatMap_targetsFrom_startId h.startId_notMem,
    Composer.flatMap_targetsFrom_startId h'.startId_notMem, hstarts]

end Assembled

/-! ## Two orders of the same members -/

/-- **The order of members is immaterial**, but for that of the start nodes.
Without extensions and hooks a composer compiles in one order iff it compiles
in another.  The two graphs have the same id, keys and options, the same node
ids in some order, the same targets after every node and the same routers; and
they run alike, if the start nodes are declared in the same order. -/
theorem Compiler.member_order_is_immaterial {compiler : Compiler} {composer : Composer}
    {members : List Member} (hplain : compiler.extensions = []) (hhooks : composer.hooks = {})
    (hperm : composer.members.Perm members) :
    ((∃ graph, compiler.compile composer = .ok graph) ↔
        ∃ graph, compiler.compile { composer with members } = .ok graph) ∧
      ∀ graph graph', compiler.compile composer = .ok graph →
        compiler.compile { composer with members } = .ok graph' →
          graph.id = graph'.id ∧ graph.keys = graph'.keys ∧ graph.config = graph'.config ∧
            graph.nodeIds.Perm graph'.nodeIds ∧
            (∀ id ∈ graph.nodeIds, graph.topology.targets id = graph'.topology.targets id) ∧
            (∀ source, graph.topology.router? source = graph'.topology.router? source) ∧
            (composer.members.filter Member.isStart = members.filter Member.isStart →
              ∀ inputs ctx, graph.run inputs ctx = graph'.run inputs ctx) := by
  have hhooks' : ({ composer with members } : Composer).hooks = {} := hhooks
  constructor
  · rw [compile_isOk_iff_wellFormed hplain hhooks, compile_isOk_iff_wellFormed hplain hhooks']
    constructor
    · exact Composer.WellFormed.of_perm hperm
    · exact Composer.WellFormed.of_perm hperm.symm
  · intro graph graph' hgraph hgraph'
    obtain ⟨found, h⟩ := assembled_of_compile hplain hhooks hgraph
    obtain ⟨found', h'⟩ := assembled_of_compile hplain hhooks' hgraph'
    have hnodes := h.nodes_perm h' hperm
    refine ⟨h.id_eq h', h.keys_eq h' hperm, h.config_eq h' hperm, hnodes.map _, ?_,
      h.router?_eq h' hperm, ?_⟩
    · intro id hid
      have hne : id ≠ startId := (h.legal.named id hid).2.1
      exact h.targets_eq h' hperm hne
    · intro hstarts
      refine Graph.run_eq_of_lookups (h.keys_eq h' hperm) (h.config_eq h' hperm) ?_ ?_
        (h.router?_eq h' hperm)
      · exact Topology.node?_eq_of_perm hnodes h.legal.distinct
      · intro source
        by_cases hsource : source = startId
        · rw [hsource]
          exact h.targets_startId_eq h' hstarts
        · exact h.targets_eq h' hperm hsource

/-- A log and two voices that start together. -/
def Composer.choir : Composer where
  typeName := "Choir"
  marker := some {}
  members :=
    [{ Member.constant "log" (.text "log") with tags := [.key { rule := .append }] },
     { Member.field "low" (.nodeAction fun _ => .ok (.ofList [("log", .str "low")])) with
       tags := [.node { isStart := true }] },
     { Member.field "high" (.nodeAction fun _ => .ok (.ofList [("log", .str "high")])) with
       tags := [.node { isStart := true }] }]

/-- With the log declared last the choir sings the same. -/
theorem Compiler.rotated_members_run_alike :
    Composer.choir.members.Perm (Composer.choir.members.rotate 1) ∧
      ∃ graph graph', ({} : Compiler).compile Composer.choir = .ok graph ∧
        ({} : Compiler).compile
          { Composer.choir with members := Composer.choir.members.rotate 1 } = .ok graph' ∧
        ∀ inputs ctx, graph.run inputs ctx = graph'.run inputs ctx := by
  have hperm : Composer.choir.members.Perm (Composer.choir.members.rotate 1) :=
    (List.rotate_perm _ 1).symm
  obtain ⟨graph, hgraph⟩ : ∃ graph, ({} : Compiler).compile Composer.choir = .ok graph := ⟨_, rfl⟩
  have hplain : ({} : Compiler).extensions = [] := rfl
  obtain ⟨hcompiles, hsame⟩ := member_order_is_immaterial hplain rfl hperm
  obtain ⟨graph', hgraph'⟩ := hcompiles.mp ⟨graph, hgraph⟩
  obtain ⟨-, -, -, -, -, -, hruns⟩ := hsame graph graph' hgraph hgraph'
  exact ⟨hperm, graph, graph', hgraph, hgraph', hruns rfl⟩

end FlowGraph
