import FlowGraph.Proofs.MemberReading

/-!
# Well-formed composers

What it takes for a composer to give a graph, said without an order: every
member is looked at for its own role, and then the ids, edges and sources of
all members are looked at together.  A compiler without extensions accepts
exactly these composers, if no hook changes the draft.

* `Composer.WellFormed`: **the rules of a definition.**
* `Describes.legal_closed_iff`: the rules for nodes, edges and routers are what
  the draft asks of its structure.
* `compile_isOk_iff_wellFormed`: a composer compiles iff it is well formed.
-/

namespace FlowGraph

/-! ## The rules -/

namespace Composer

/-- The keys of a composer. -/
def keyIds (composer : Composer) : List String := composer.members.filterMap Member.keyId?

/-- The ids of the nodes of a composer. -/
def nodeIds (composer : Composer) : List String := composer.members.flatMap Member.nodeIds

/-- The static edges of a composer. -/
def staticEdges (composer : Composer) : List (String × String) :=
  composer.members.flatMap Member.staticEdges

/-- The sources that have a router. -/
def sources (composer : Composer) : List String := composer.members.flatMap Member.sources

/-- The rules for the nodes, edges and routers of all members together. -/
structure Structured (composer : Composer) : Prop where
  nodesNamed : ∀ id ∈ composer.nodeIds, Text.isBlank id = false ∧ id ≠ startId ∧ id ≠ endId
  nodesDistinct : composer.nodeIds.Nodup
  edgesDistinct : composer.staticEdges.Nodup
  /-- A static edge ends at the exit or at a node, hence never at the entry. -/
  edgesEnd : ∀ edge ∈ composer.staticEdges, edge.2 = endId ∨ edge.2 ∈ composer.nodeIds
  /-- A router begins at the entry or at a node, hence never at the exit. -/
  sourcesBegin : ∀ source ∈ composer.sources, source = startId ∨ source ∈ composer.nodeIds
  sourcesDistinct : composer.sources.Nodup
  /-- No source has static edges and a router. -/
  unmixed : ∀ edge ∈ composer.staticEdges, edge.1 ∉ composer.sources
  /-- A router has routes, and they end at the exit or at nodes. -/
  routesEnd : ∀ member ∈ composer.members, ∀ tag, member.routerTag? = some tag →
    tag.mappings ≠ [] ∧
      ∀ label target, tag.Leads label target → target = endId ∨ target ∈ composer.nodeIds
  /-- Something leaves the entry. -/
  entry : (∃ edge ∈ composer.staticEdges, edge.1 = startId) ∨ startId ∈ composer.sources

/-- **The rules of a definition.** -/
structure WellFormed (supplier : Supplier) (composer : Composer) : Prop
    extends composer.Structured where
  marked : composer.marker.isSome = true
  readable : ∀ member ∈ composer.members, member.Readable supplier
  keysDistinct : composer.keyIds.Nodup
  /-- There is one compile config at most. -/
  singleConfig : (composer.members.filter fun member => member.role = .compileConfig).length ≤ 1
  /-- The nodes to stop before are nodes. -/
  stops : ∀ member ∈ composer.members, member.role = .compileConfig →
    ∀ config, member.Configures supplier config →
      ∀ id ∈ config.interruptBefore, id ∈ composer.nodeIds

end Composer

/-! ## The structure that members describe -/

namespace Composer

variable {composer : Composer} {supplier : Supplier} {found : List Contribution}

/-- The tables of routes of a composer, with their sources. -/
def routeTables (composer : Composer) : List (String × Table String) :=
  composer.members.flatMap Member.routeTables

/-- The routed sources are those of the tables of routes. -/
theorem sources_eq (composer : Composer) :
    composer.sources = composer.routeTables.map Prod.fst := by
  rw [sources, routeTables, List.map_flatMap]
  congr 1
  funext member
  rw [Member.sources, Member.routeTables, List.map_map]
  rfl

/-- A table of routes is made of the mappings of a router member. -/
theorem mem_routeTables_iff {entry : String × Table String} :
    entry ∈ composer.routeTables ↔ ∃ member ∈ composer.members, ∃ tag,
      member.routerTag? = some tag ∧
        entry = (tag.source, .ofList (routesOf.pairs tag.mappings)) := by
  simp only [routeTables, List.mem_flatMap, Member.routeTables, List.mem_map, Option.mem_toList,
    eq_comm]

/-- The source of a router member is a routed one. -/
theorem mem_sources {member : Member} (hmember : member ∈ composer.members) {tag : EdgeSpec}
    (htag : member.routerTag? = some tag) : tag.source ∈ composer.sources := by
  rw [sources_eq]
  exact List.mem_map.mpr ⟨_, mem_routeTables_iff.mpr ⟨member, hmember, tag, htag, rfl⟩, rfl⟩

/-- A static edge leads from the entry to a node, or from a node to something
that is not blank. -/
theorem edge_origin {edge : String × String} (h : edge ∈ composer.staticEdges) :
    (edge.1 = startId ∧ edge.2 ∈ composer.nodeIds) ∨
      (edge.1 ∈ composer.nodeIds ∧ Text.isBlank edge.2 = false) := by
  obtain ⟨member, hmember, hedge⟩ := List.mem_flatMap.mp h
  obtain ⟨tag, htag, hedge⟩ := List.mem_flatMap.mp hedge
  have hid : member.nodeId tag ∈ composer.nodeIds :=
    List.mem_flatMap.mpr ⟨member, hmember, List.mem_map.mpr ⟨tag, htag, rfl⟩⟩
  rcases List.mem_append.mp hedge with hstart | hnext
  · split at hstart
    · rw [List.mem_singleton.mp hstart]
      exact Or.inl ⟨rfl, hid⟩
    · cases hstart
  · obtain ⟨next, hmem, rfl⟩ := List.mem_map.mp hnext
    have hblank := (List.mem_filter.mp hmem).2
    exact Or.inr ⟨hid, by simpa using hblank⟩

end Composer

/-- A structure is the one that the members of a composer describe. -/
structure Composer.Describes (composer : Composer) (t : Topology Graph) : Prop where
  nodes : t.nodeIds = composer.nodeIds
  edges : t.edges = composer.staticEdges
  routers : t.routers.map (fun entry => (entry.1, entry.2.routes)) = composer.routeTables

namespace Composer

variable {composer : Composer} {supplier : Supplier} {t : Topology Graph}

/-- The routed sources of a structure are those that are declared. -/
theorem Describes.routed (h : composer.Describes t) : t.routed = composer.sources := by
  rw [sources_eq, ← h.routers, List.map_map]
  rfl

/-- What is asked of all routers of a structure is asked of all router members. -/
theorem Describes.forall_router_iff (h : composer.Describes t) {P : String → Table String → Prop} :
    (∀ entry ∈ t.routers, P entry.1 entry.2.routes) ↔
      ∀ member ∈ composer.members, ∀ tag, member.routerTag? = some tag →
        P tag.source (.ofList (routesOf.pairs tag.mappings)) := by
  have hmap : (∀ entry ∈ t.routers, P entry.1 entry.2.routes) ↔
      ∀ entry ∈ composer.routeTables, P entry.1 entry.2 := by
    rw [← h.routers, List.forall_mem_map]
  rw [hmap]
  constructor
  · intro hall member hmember tag htag
    exact hall _ (mem_routeTables_iff.mpr ⟨member, hmember, tag, htag, rfl⟩)
  · intro hall entry hentry
    obtain ⟨member, hmember, tag, htag, rfl⟩ := mem_routeTables_iff.mp hentry
    exact hall member hmember tag htag

/-- Members that follow the rules describe a legal structure. -/
theorem Describes.legal (h : composer.Describes t)
    (hreadable : ∀ member ∈ composer.members, member.Readable supplier)
    (hstructured : composer.Structured) : t.Legal where
  named := by
    rw [h.nodes]
    exact hstructured.nodesNamed
  distinct := by
    rw [h.nodes]
    exact hstructured.nodesDistinct
  edgesNamed := by
    rw [h.edges]
    intro edge hedge
    rcases edge_origin hedge with ⟨hstart, htarget⟩ | ⟨hsource, hblank⟩
    · rw [hstart]
      exact ⟨by decide, (hstructured.nodesNamed _ htarget).1⟩
    · exact ⟨(hstructured.nodesNamed _ hsource).1, hblank⟩
  edgesInside := by
    rw [h.edges]
    intro edge hedge
    constructor
    · rcases edge_origin hedge with ⟨hstart, -⟩ | ⟨hsource, -⟩
      · rw [hstart]
        decide
      · exact (hstructured.nodesNamed _ hsource).2.2
    · rcases hstructured.edgesEnd edge hedge with hend | hnode
      · rw [hend]
        decide
      · exact (hstructured.nodesNamed _ hnode).2.1
  edgesDistinct := by
    rw [h.edges]
    exact hstructured.edgesDistinct
  routersNamed := by
    rw [h.forall_router_iff (P := fun source _ => Text.isBlank source = false ∧ source ≠ endId)]
    intro member hmember tag htag
    refine ⟨((hreadable member hmember).router tag htag).1, ?_⟩
    rcases hstructured.sourcesBegin _ (mem_sources hmember htag) with hstart | hnode
    · rw [hstart]
      decide
    · exact (hstructured.nodesNamed _ hnode).2.2
  routersLead := by
    rw [h.forall_router_iff (P := fun _ routes => routes.isEmpty = false)]
    intro member hmember tag htag
    have heven := ((hreadable member hmember).router tag htag).2.1
    exact (EdgeSpec.isEmpty_routes_eq_false_iff heven).mpr
      (hstructured.routesEnd member hmember tag htag).1
  routersDistinct := by
    rw [h.routed]
    exact hstructured.sourcesDistinct
  unmixed := by
    rw [h.edges, h.routed]
    exact hstructured.unmixed

/-- Members that follow the rules describe a closed structure. -/
theorem Describes.closed (h : composer.Describes t) {stops : List String}
    (hreadable : ∀ member ∈ composer.members, member.Readable supplier)
    (hstructured : composer.Structured) (hstops : ∀ id ∈ stops, id ∈ composer.nodeIds) :
    t.Closed stops where
  entry := by
    rw [h.edges]
    refine hstructured.entry.imp_right ?_
    intro hstart
    rw [← h.routed] at hstart
    obtain ⟨entry, hentry, hsource⟩ := List.mem_map.mp hstart
    exact ⟨entry, hentry, hsource⟩
  edges := by
    rw [h.edges]
    intro edge hedge
    rw [t.mayBegin_iff, t.mayEnd_iff, h.nodes]
    refine ⟨?_, hstructured.edgesEnd edge hedge⟩
    exact (edge_origin hedge).imp And.left And.left
  routers := by
    rw [h.forall_router_iff (P := fun source routes => t.mayBegin source = true ∧
      ∀ route ∈ routes.fields, t.mayEnd route.2 = true)]
    intro member hmember tag htag
    have heven := ((hreadable member hmember).router tag htag).2.1
    rw [t.mayBegin_iff, h.nodes]
    refine ⟨hstructured.sourcesBegin _ (mem_sources hmember htag), ?_⟩
    intro route hroute
    rw [t.mayEnd_iff, h.nodes]
    have hleads := (EdgeSpec.get?_routes_iff heven route.1 route.2).mp
      ((Table.mem_fields_iff _ _ _).mp hroute)
    exact (hstructured.routesEnd member hmember tag htag).2 route.1 route.2 hleads
  stops := by
    intro id hid
    rw [t.hasNode_iff, h.nodes]
    exact hstops id hid

/-- Members that describe a legal and closed structure follow the rules. -/
theorem Describes.structured (h : composer.Describes t) {stops : List String}
    (hreadable : ∀ member ∈ composer.members, member.Readable supplier)
    (hlegal : t.Legal) (hclosed : t.Closed stops) : composer.Structured where
  nodesNamed := by
    rw [← h.nodes]
    exact hlegal.named
  nodesDistinct := by
    rw [← h.nodes]
    exact hlegal.distinct
  edgesDistinct := by
    rw [← h.edges]
    exact hlegal.edgesDistinct
  edgesEnd := by
    rw [← h.edges, ← h.nodes]
    intro edge hedge
    exact (t.mayEnd_iff edge.2).mp (hclosed.edges edge hedge).2
  sourcesBegin := by
    rw [← h.routed, ← h.nodes]
    intro source hsource
    obtain ⟨entry, hentry, hsame⟩ := List.mem_map.mp hsource
    rw [← hsame]
    exact (t.mayBegin_iff entry.1).mp (hclosed.routers entry hentry).1
  sourcesDistinct := by
    rw [← h.routed]
    exact hlegal.routersDistinct
  unmixed := by
    rw [← h.edges, ← h.routed]
    exact hlegal.unmixed
  routesEnd := by
    intro member hmember tag htag
    have heven := ((hreadable member hmember).router tag htag).2.1
    have hlead := (h.forall_router_iff (P := fun _ routes => routes.isEmpty = false)).mp
      hlegal.routersLead member hmember tag htag
    have hends := (h.forall_router_iff (P := fun _ routes =>
      ∀ route ∈ routes.fields, t.mayEnd route.2 = true)).mp
        (fun entry hentry => (hclosed.routers entry hentry).2) member hmember tag htag
    refine ⟨(EdgeSpec.isEmpty_routes_eq_false_iff heven).mp hlead, ?_⟩
    intro label target hleads
    have hroute := (EdgeSpec.get?_routes_iff heven label target).mpr hleads
    rw [← h.nodes]
    exact (t.mayEnd_iff target).mp
      (hends (label, target) ((Table.mem_fields_iff _ _ _).mpr hroute))
  entry := by
    rw [← h.edges, ← h.routed]
    refine hclosed.entry.imp_right ?_
    intro hrouter
    obtain ⟨entry, hentry, hstart⟩ := hrouter
    exact List.mem_map.mpr ⟨entry, hentry, hstart⟩

/-- **A described structure is legal and closed iff the description keeps the
rules**, if its members are what their roles ask for. -/
theorem Describes.legal_closed_iff (h : composer.Describes t) {stops : List String}
    (hreadable : ∀ member ∈ composer.members, member.Readable supplier) :
    t.Legal ∧ t.Closed stops ↔
      composer.Structured ∧ ∀ id ∈ stops, id ∈ composer.nodeIds := by
  constructor
  · intro hboth
    obtain ⟨hlegal, hclosed⟩ := hboth
    refine ⟨h.structured hreadable hlegal hclosed, ?_⟩
    intro id hid
    rw [← h.nodes]
    exact (t.hasNode_iff id).mp (hclosed.stops id hid)
  · intro hrules
    obtain ⟨hstructured, hstops⟩ := hrules
    exact ⟨h.legal hreadable hstructured, h.closed hreadable hstructured hstops⟩

end Composer

/-! ## Plans that make calls only -/

/-- Operations that make calls are carried out by making the calls. -/
theorem Plan.performAll_eq_ok_iff {operations : List Operation} {draft next : Draft}
    (hplain : ∀ operation ∈ operations, ∃ call, operation.effect = .call call) :
    Plan.performAll operations draft = .ok next ↔
      draft.applyAll (operations.flatMap Operation.calls) = .ok next := by
  induction operations generalizing draft with
  | nil =>
      change (Except.ok draft : Except Refusal Draft) = .ok next ↔
        (Except.ok draft : Except Fault Draft) = .ok next
      rw [Except.ok.injEq, Except.ok.injEq]
  | cons operation rest ih =>
      obtain ⟨⟨call, hcall⟩, hrest⟩ := List.forall_mem_cons.mp hplain
      have hcalls : (operation :: rest).flatMap Operation.calls =
          call :: rest.flatMap Operation.calls := by
        rw [List.flatMap_cons, Operation.calls, hcall]
        rfl
      have hperform : ∀ middle, operation.perform draft = .ok middle ↔
          draft.apply call = .ok middle := by
        intro middle
        rw [Operation.perform, hcall]
        exact Traversal.mapError_eq_ok_iff
      rw [hcalls]
      change (operation.perform draft >>= fun middle => Plan.performAll rest middle) = .ok next ↔
        (draft.apply call >>= fun middle =>
          middle.applyAll (rest.flatMap Operation.calls)) = .ok next
      rw [Traversal.bind_eq_ok_iff, Traversal.bind_eq_ok_iff]
      exact exists_congr fun middle => and_congr (hperform middle) (ih hrest)

/-- Without hooks a plan is built by its operations and the checks of the whole. -/
theorem Plan.build_eq_ok_iff {plan : Plan} {graph : Graph} :
    plan.build {} = .ok graph ↔
      ∃ draft, Plan.performAll plan.operations plan.openDraft = .ok draft ∧
        draft.compile plan.options = .ok graph := by
  have hfinished : plan.finished {} = Plan.performAll plan.operations plan.openDraft := by
    change (Plan.performAll plan.operations plan.openDraft >>= fun draft => .ok draft) = _
    cases Plan.performAll plan.operations plan.openDraft <;> rfl
  unfold build
  rw [hfinished, Traversal.bind_eq_ok_iff]
  simp only [Traversal.mapError_eq_ok_iff]

/-- **A plan of calls gives a graph iff what the calls add is legal and closed**,
and then the graph is what the calls add. -/
theorem Plan.build_calls_eq_ok_iff {plan : Plan} {graph : Graph}
    (hplain : ∀ operation ∈ plan.operations, ∃ call, operation.effect = .call call) :
    plan.build {} = .ok graph ↔
      let t := (plan.openDraft.extendAll (plan.operations.flatMap Operation.calls)).topology
      t.Legal ∧ t.Closed plan.options.interruptBefore ∧
        graph = ⟨plan.graphId, plan.keys, t, plan.options⟩ := by
  have hempty : plan.openDraft.topology.Legal := Topology.legal_empty
  have hadded : ∀ calls, plan.openDraft.extendAll calls =
      ⟨plan.graphId, plan.keys, (plan.openDraft.extendAll calls).topology⟩ := by
    intro calls
    rw [Draft.extendAll_eq]
    rfl
  simp only [Plan.build_eq_ok_iff, Plan.performAll_eq_ok_iff hplain,
    Draft.applyAll_eq_ok_iff hempty, Draft.compile_eq_ok_iff_closed]
  constructor
  · intro h
    obtain ⟨draft, ⟨hlegal, rfl⟩, hclosed, hgraph⟩ := h
    rw [hadded] at hgraph
    exact ⟨hlegal, hclosed, hgraph⟩
  · intro h
    obtain ⟨hlegal, hclosed, hgraph⟩ := h
    refine ⟨_, ⟨hlegal, rfl⟩, hclosed, ?_⟩
    rw [hgraph, hadded]

/-! ## The compiler accepts what is well formed -/

namespace Composer

variable {composer : Composer} {supplier : Supplier} {found : List Contribution}

/-- The calls of all members describe what the members describe. -/
theorem describes_of_declared (graphId : String) (keys : KeyTable)
    (hfound : Member.AllDeclare supplier composer.members found) :
    composer.Describes
      (({ id := graphId, keys } : Draft).extendAll (found.flatMap Contribution.calls)).topology := by
  rw [Draft.extendAll_eq]
  refine ⟨?_, ?_, ?_⟩
  · have h := Traversal.flatMap_eq_of_forall₂ hfound
      (f := fun found => (found.calls.flatMap Draft.Call.nodes).map Node.id)
      (g := Member.nodeIds) fun member found hof => hof.nodeIds
    simpa [Topology.nodeIds, nodeIds, List.flatMap_assoc, List.map_flatMap] using h
  · have h := Traversal.flatMap_eq_of_forall₂ hfound
      (f := fun found => found.calls.flatMap Draft.Call.edges)
      (g := Member.staticEdges) fun member found hof => hof.edges
    simpa [staticEdges, List.flatMap_assoc] using h
  · have h := Traversal.flatMap_eq_of_forall₂ hfound
      (f := fun found => (found.calls.flatMap Draft.Call.routers).map
        fun entry => (entry.1, entry.2.routes))
      (g := Member.routeTables) fun member found hof => hof.routers
    simpa [routeTables, List.flatMap_assoc, List.map_flatMap] using h

/-- The keys that members declare are those of the composer. -/
theorem keyIds_of_declared
    (hfound : Member.AllDeclare supplier composer.members found) :
    found.flatMap Contribution.keyIds = composer.keyIds := by
  rw [Traversal.flatMap_eq_of_forall₂ hfound (f := Contribution.keyIds)
    (g := fun member => member.keyId?.toList) fun member found hof => hof.keyIds]
  rw [keyIds, List.filterMap_eq_flatMap_toList]

/-- Every config member declares one compile config. -/
theorem count_configs {members : List Member}
    (hfound : Member.AllDeclare supplier members found) :
    (found.flatMap Contribution.configs).length =
      (members.filter fun member => member.role = .compileConfig).length := by
  induction hfound with
  | nil => rfl
  | @cons member found members rest hhead _ ih =>
      rw [List.flatMap_cons, List.length_append, ih, hhead.count, List.filter_cons]
      by_cases hrole : member.role = .compileConfig
      · simp [hrole]
        omega
      · simp [hrole]

/-- The declared configs are those that config members have. -/
theorem mem_configs_iff {members : List Member} {config : CompileConfig}
    (hfound : Member.AllDeclare supplier members found) :
    config ∈ found.flatMap Contribution.configs ↔
      ∃ member ∈ members, member.role = .compileConfig ∧ member.Configures supplier config := by
  induction hfound with
  | nil => simp
  | @cons member found members rest hhead _ ih =>
      have hhere : config ∈ found.configs ↔
          member.role = .compileConfig ∧ member.Configures supplier config := by
        have hcount := hhead.count
        by_cases hrole : member.role = .compileConfig
        · rw [if_pos hrole] at hcount
          obtain ⟨only, honly⟩ := List.length_eq_one_iff.mp hcount
          have hconfigures := hhead.configs only (by rw [honly]; exact List.mem_cons_self)
          rw [honly, List.mem_singleton]
          constructor
          · intro hsame
            rw [hsame]
            exact ⟨hrole, hconfigures⟩
          · intro h
            exact h.2.unique hconfigures
        · rw [if_neg hrole] at hcount
          rw [List.length_eq_zero_iff.mp hcount]
          simp [hrole]
      rw [List.flatMap_cons, List.mem_append, hhere, ih]
      simp

/-- The nodes to stop before are those of the one config, if there is one. -/
theorem forall_stops_iff {configs : List CompileConfig} (hsingle : configs.length ≤ 1)
    {P : String → Prop} :
    (∀ id ∈ (configs.headD {}).interruptBefore, P id) ↔
      ∀ config ∈ configs, ∀ id ∈ config.interruptBefore, P id := by
  cases configs with
  | nil => simp
  | cons config rest =>
      have hrest : rest = [] := by
        rw [List.length_cons] at hsingle
        exact List.length_eq_zero_iff.mp (by omega)
      rw [hrest]
      simp

end Composer

/-- Members that declare something give a graph iff their nodes, edges and
routers keep the rules. -/
theorem Compiler.exists_build_iff {compiler : Compiler} {graphId : String} {composer : Composer}
    {found : List Contribution}
    (hfound : composer.members.mapM (Member.declares compiler.supplier) = .ok found)
    (hsingle : (found.flatMap Contribution.configs).length ≤ 1) :
    (∃ graph, ((compiler.emptyPlan graphId).gainAll (composer.members.zip found)).build {} =
        .ok graph) ↔
      composer.Structured ∧ ∀ member ∈ composer.members, member.role = .compileConfig →
        ∀ config, member.Configures compiler.supplier config →
          ∀ id ∈ config.interruptBefore, id ∈ composer.nodeIds := by
  have hdeclared := Member.allDeclare_of_mapM hfound
  have hlength := hdeclared.length_eq
  have hoperations :
      ((compiler.emptyPlan graphId).gainAll (composer.members.zip found)).operations =
        found.flatMap Contribution.deferred :=
    Plan.operations_gainAll_zip (compiler.emptyPlan graphId) hlength
  have hoptions := Plan.options_gainAll_zip (compiler.emptyPlan graphId) hlength hsingle rfl
  have hplain := Member.plain_of_mapM hfound
  have hcalls : (found.flatMap Contribution.deferred).flatMap Operation.calls =
      found.flatMap Contribution.calls := List.flatMap_assoc
  have hdescribes := Composer.describes_of_declared
    ((compiler.emptyPlan graphId).gainAll (composer.members.zip found)).graphId
    ((compiler.emptyPlan graphId).gainAll (composer.members.zip found)).keys hdeclared
  simp only [Plan.build_calls_eq_ok_iff (by rwa [hoperations]), exists_and_left, exists_eq,
    and_true]
  rw [hoperations, hcalls, hoptions]
  -- the structure decides, and the ids at which the one config stops
  refine (hdescribes.legal_closed_iff (Member.readable_of_mapM hfound)).trans
    (and_congr_right' ?_)
  rw [Composer.forall_stops_iff hsingle]
  simp only [Composer.mem_configs_iff hdeclared]
  constructor
  · intro h member hmember hrole config hconfig
    exact h config ⟨member, hmember, hrole, hconfig⟩
  · intro h config hconfigured
    obtain ⟨member, hmember, hrole, hconfig⟩ := hconfigured
    exact h member hmember hrole config hconfig

/-- **The rules of a definition are the compiler's.**  Without extensions, and
without hooks that change the draft, a composer compiles iff it is well formed:
the order of its members, and of what is checked when, never decides. -/
theorem Compiler.compile_isOk_iff_wellFormed {compiler : Compiler} {composer : Composer}
    (hplain : compiler.extensions = []) (hhooks : composer.hooks = {}) :
    (∃ graph, compiler.compile composer = .ok graph) ↔
      composer.WellFormed compiler.supplier := by
  unfold compile
  cases hmarker : composer.marker with
  | none =>
      constructor
      · intro h
        obtain ⟨graph, h⟩ := h
        cases h
      · intro h
        have hmarked := h.marked
        simp [hmarker] at hmarked
  | some marker =>
      simp only [define_eq_of_plain hplain, hhooks, Traversal.mapError_eq_ok_iff,
        Traversal.bind_eq_ok_iff, Plan.takeAll_eq_ok_iff, emptyPlan_admits_iff]
      constructor
      · intro h
        obtain ⟨graph, plan, ⟨found, hfound, ⟨hdistinct, hsingle⟩, rfl⟩, hbuild⟩ := h
        have hdeclared := Member.allDeclare_of_mapM hfound
        obtain ⟨hstructured, hstops⟩ := (exists_build_iff hfound hsingle).mp ⟨graph, hbuild⟩
        refine ⟨hstructured, by simp [hmarker], Member.readable_of_mapM hfound, ?_, ?_, hstops⟩
        · rwa [← Composer.keyIds_of_declared hdeclared]
        · rwa [← Composer.count_configs hdeclared]
      · intro h
        obtain ⟨found, hfound⟩ := Member.exists_mapM_declares h.readable
        have hdeclared := Member.allDeclare_of_mapM hfound
        have hdistinct : (found.flatMap Contribution.keyIds).Nodup := by
          rw [Composer.keyIds_of_declared hdeclared]
          exact h.keysDistinct
        have hsingle : (found.flatMap Contribution.configs).length ≤ 1 := by
          rw [Composer.count_configs hdeclared]
          exact h.singleConfig
        obtain ⟨graph, hbuild⟩ := (exists_build_iff hfound hsingle).mpr ⟨h.toStructured, h.stops⟩
        exact ⟨graph, _, ⟨found, hfound, ⟨hdistinct, hsingle⟩, rfl⟩, hbuild⟩

/-- One member of every role; the label `again` is mentioned twice, and the
router's tags name it a config as well. -/
def Composer.triage : Composer where
  typeName := "Triage"
  marker := some {}
  members :=
    [{ name := "choose", tags := [.compileConfig,
        .edge { source := "read", mappings := ["again", "gone", "done", endId, "again", "read"] }],
       declared := .edgeAction, value := some (.edgeAction fun _ => .ok "done") },
     { Member.constant "verdict" (.text "verdict") with tags := [.key { rule := .append }] },
     { Member.field "reader" (.nodeAction fun _ => .ok .empty) with
       tags := [.node { id := some "read", isStart := true, next := [" "] }] },
     { Member.constant "options" (.compileConfig { interruptBefore := ["read"] }) with
       tags := [.compileConfig] }]

/-- A composer with a member of every role compiles, and so it follows all the rules. -/
theorem Compiler.compiled_composer_is_wellFormed :
    ({} : Compiler).extensions = [] ∧ Composer.triage.hooks = {} ∧
      (∃ graph, ({} : Compiler).compile Composer.triage = .ok graph) ∧
      Composer.triage.WellFormed .none := by
  have hcompiles : ∃ graph, ({} : Compiler).compile Composer.triage = .ok graph := ⟨_, rfl⟩
  exact ⟨rfl, rfl, hcompiles, (compile_isOk_iff_wellFormed rfl rfl).mp hcompiles⟩

end FlowGraph
