import FlowGraph.Proofs.Legality
import FlowGraph.Proofs.Offering
import FlowGraph.Proofs.Routes

/-!
# What a member declares

A member counts only under its role.  What it stands for there, its key, node,
edges, router or compile config, is said here in plain terms, and the readings
of the scan are shown to say the same.

* `Member.Readable`: what a member must be like for its role.
* `exists_declares_iff`: **a member declares something iff it is readable.**
* `declared_of_declares`: what it then declares, role by role.
* `of_declares`: the same, in all its parts.
-/

namespace FlowGraph

/-! ## What a member says -/

namespace Member

/-- The tag by which a member is a key. -/
def keyTag? (member : Member) : Option KeySpec :=
  if member.role = .key then member.key? else none

/-- The tag by which a member is a node. -/
def nodeTag? (member : Member) : Option NodeSpec :=
  if member.role = .node then member.node? else none

/-- The tag by which a member is a router. -/
def routerTag? (member : Member) : Option EdgeSpec :=
  if member.role = .conditionalEdge then member.edge? else none

/-- The text that a member holds. -/
def heldText? (member : Member) : Option String :=
  match member.value with
  | some (.text value) => some value
  | _ => none

/-- The key that a member stands for: the given one, or else its text. -/
def keyId? (member : Member) : Option String :=
  member.keyTag?.bind fun tag => Text.given tag.id <|> member.heldText?

/-- The ids of the nodes of a member, which are one or none. -/
def nodeIds (member : Member) : List String := member.nodeTag?.toList.map member.nodeId

/-- The static edges of a node member: from the entry, and to the next nodes
that are not blank. -/
def staticEdges (member : Member) : List (String × String) :=
  member.nodeTag?.toList.flatMap fun tag =>
    (if tag.isStart then [(startId, member.nodeId tag)] else []) ++
      (tag.next.filter fun next => !Text.isBlank next).map fun next => (member.nodeId tag, next)

/-- The sources of the routers of a member, which are one or none. -/
def sources (member : Member) : List String := member.routerTag?.toList.map EdgeSpec.source

/-- The value of a member: its own, or the one that the supplier has for it. -/
def resolved (supplier : Supplier) (member : Member) (candidate : Option String) :
    Option Component :=
  member.value <|> supplier member candidate

/-- A member holds a compile config, or something that supplies it. -/
def Configures (supplier : Supplier) (member : Member) (config : CompileConfig) : Prop :=
  member.resolved supplier none = some (.compileConfig config) ∨
    member.resolved supplier none = some (.configSupplier (some config))

/-- What a member must be like for its role, whatever the other members are. -/
@[mk_iff]
structure Readable (supplier : Supplier) (member : Member) : Prop where
  key : ∀ tag, member.keyTag? = some tag →
    member.isMutable = false ∧ member.isGlobal = true ∧ member.keyId?.isSome = true
  node : ∀ tag, member.nodeTag? = some tag →
    ∃ value, member.resolved supplier (some (member.nodeId tag)) = some value ∧
      value.kind ∈ Component.nodeValueShapes
  router : ∀ tag, member.routerTag? = some tag →
    Text.isBlank tag.source = false ∧ tag.mappings.length % 2 = 0 ∧
      ∃ value, member.resolved supplier none = some value ∧ value.kind ∈ Component.routeShapes
  config : member.role = .compileConfig → ∃ config, member.Configures supplier config

end Member

/-! ## What a member declares -/

/-- A value stands behind a node body. -/
inductive Component.Backs : Component → Body Graph → Prop
  | action {value : Component} {run : Action} (hlift : value.nodeAction? = some run) :
      Backs value (.action run)
  | subgraph (graph : Graph) : Backs (.subgraph graph) (.subgraph graph)

namespace Operation

/-- The call that an operation makes, if it makes one. -/
def calls (operation : Operation) : List Draft.Call :=
  match operation.effect with
  | .call call => [call]
  | .custom _ => []

/-- The operation that adds a node; of a nested graph it says so. -/
def ofNode (id : String) : Body Graph → Operation
  | .subgraph graph => ⟨s!"add sub-graph node '{id}'", .call (.node id (.subgraph graph))⟩
  | body => ⟨s!"add node '{id}'", .call (.node id body)⟩

/-- The operation that adds a router. -/
def ofRouter (source : String) (router : Router) : Operation :=
  ⟨s!"add conditional edges from '{source}'", .call (.router source router)⟩

/-- The operation that adds a node makes one call. -/
@[simp] theorem effect_ofNode (id : String) (body : Body Graph) :
    (ofNode id body).effect = .call (.node id body) := by
  cases body <;> rfl

/-- The call of a node's operation adds the node. -/
@[simp] theorem calls_ofNode (id : String) (body : Body Graph) :
    (ofNode id body).calls = [.node id body] := by
  rw [calls, effect_ofNode]

end Operation

/-- The calls that a contribution puts off. -/
def Contribution.calls (found : Contribution) : List Draft.Call :=
  found.deferred.flatMap Operation.calls

/-- The tables of routes of a member, with their sources. -/
def Member.routeTables (member : Member) : List (String × Table String) :=
  member.routerTag?.toList.map fun tag => (tag.source, .ofList (routesOf.pairs tag.mappings))

/-- A contribution is the one that a member declares. -/
structure Contribution.Of (supplier : Supplier) (member : Member) (found : Contribution) :
    Prop where
  keyIds : found.keyIds = member.keyId?.toList
  plain : ∀ operation ∈ found.deferred, ∃ call, operation.effect = .call call
  nodeIds : (found.calls.flatMap Draft.Call.nodes).map Node.id = member.nodeIds
  edges : found.calls.flatMap Draft.Call.edges = member.staticEdges
  routers : (found.calls.flatMap Draft.Call.routers).map
    (fun entry => (entry.1, entry.2.routes)) = member.routeTables
  count : found.configs.length = if member.role = .compileConfig then 1 else 0
  configs : ∀ config ∈ found.configs, member.Configures supplier config

namespace Member

variable {supplier : Supplier} {member : Member} {found : Contribution}

/-! ## Tags that count in a role -/

/-- A member is a key by its first key tag, if keys are its role. -/
theorem keyTag?_eq_some_iff {tag : KeySpec} :
    member.keyTag? = some tag ↔ member.role = .key ∧ member.key? = some tag := by
  simp [keyTag?]

/-- A member is a node by its first node tag, if nodes are its role. -/
theorem nodeTag?_eq_some_iff {tag : NodeSpec} :
    member.nodeTag? = some tag ↔ member.role = .node ∧ member.node? = some tag := by
  simp [nodeTag?]

/-- A member is a router by its first edge tag, if routers are its role. -/
theorem routerTag?_eq_some_iff {tag : EdgeSpec} :
    member.routerTag? = some tag ↔
      member.role = .conditionalEdge ∧ member.edge? = some tag := by
  simp [routerTag?]

/-! ## Readings in plain terms -/

/-- **A key is read** of a member that stays as it is and belongs to the composer as a whole, from
its tag or else from its text. -/
theorem readKey_eq_ok_iff {tag : KeySpec} :
    member.readKey tag = .ok found ↔
      member.isMutable = false ∧ member.isGlobal = true ∧
        ∃ id, (Text.given tag.id <|> member.heldText?) = some id ∧ found = .key id tag.rule := by
  unfold readKey heldText?
  cases member.isMutable with
  | true => simp
  | false =>
      cases member.isGlobal with
      | false => simp
      | true =>
          cases Text.given tag.id with
          | some id => simp [eq_comm]
          | none =>
              cases member.value with
              | none => by_cases htext : member.declared = .text <;> simp [htext]
              | some value => cases value <;> simp [eq_comm]

/-- A node can be read of a value iff its kind is one of those that a node may have. -/
theorem exists_readNode_iff {tag : NodeSpec} {value : Option Component} :
    (∃ found, member.readNode tag value = .ok found) ↔
      ∃ held, value = some held ∧ held.kind ∈ Component.nodeValueShapes := by
  unfold readNode
  cases value with
  | none => simp
  | some held =>
      cases held <;> simp [Component.nodeAction?, Component.kind, Component.nodeValueShapes,
        Component.nodeShapes]

/-- What is read of a node is the node with what stands behind it, and its edges. -/
theorem readNode_eq_ok {tag : NodeSpec} {value : Option Component}
    (h : member.readNode tag value = .ok found) :
    ∃ held body, value = some held ∧ held.Backs body ∧ found = .operations
      (.ofNode (member.nodeId tag) body :: nodeEdges (member.nodeId tag) tag) := by
  unfold readNode at h
  cases value with
  | none => cases h
  | some held =>
      cases held with
      | subgraph graph =>
          cases h
          exact ⟨_, _, rfl, .subgraph graph, rfl⟩
      | _ => cases h <;> exact ⟨_, _, rfl, .action rfl, rfl⟩

/-- A router can be read of a value iff its kind is that of a routing action. -/
theorem exists_readRouter_iff {source : String} {routes : Table String}
    {value : Option Component} :
    (∃ found, member.readRouter source routes value = .ok found) ↔
      ∃ held, value = some held ∧ held.kind ∈ Component.routeShapes := by
  unfold readRouter Component.liftRoute
  cases value with
  | none => simp
  | some held =>
      cases held <;> simp [Component.choice?, Component.kind, Component.routeShapes]

/-- What is read of a router is the router with its full form. -/
theorem readRouter_eq_ok {source : String} {routes : Table String} {value : Option Component}
    (h : member.readRouter source routes value = .ok found) :
    ∃ held choose, value = some held ∧ held.choice? = some choose ∧
      found = .operations [.ofRouter source ⟨choose, routes⟩] := by
  unfold readRouter Component.liftRoute at h
  cases value with
  | none => cases h
  | some held =>
      cases hroute : held.choice? with
      | none => simp [hroute] at h
      | some choose =>
          simp only [hroute, Except.ok.injEq] at h
          exact ⟨held, choose, rfl, hroute, h.symm⟩

/-- **A compile config is read** from a config or from what supplies one. -/
theorem readConfig_eq_ok_iff {value : Option Component} :
    member.readConfig value = .ok found ↔
      ∃ config, found = .config config ∧
        (value = some (.compileConfig config) ∨
          value = some (.configSupplier (some config))) := by
  unfold readConfig
  cases value with
  | none => simp
  | some held =>
      cases held with
      | configSupplier supply => cases supply <;> simp [eq_comm]
      | _ => simp [eq_comm]

/-- A node member has a tag that makes it one. -/
theorem exists_node? (hrole : member.role = .node) : ∃ tag, member.node? = some tag := by
  obtain ⟨reading, hreading⟩ := member.exists_reading (by simp [hrole])
  rw [hrole] at hreading
  obtain ⟨tag, htag, -⟩ := Option.map_eq_some_iff.mp hreading
  exact ⟨tag, htag⟩

/-- A router member has a tag that makes it one. -/
theorem exists_edge? (hrole : member.role = .conditionalEdge) :
    ∃ tag, member.edge? = some tag := by
  obtain ⟨reading, hreading⟩ := member.exists_reading (by simp [hrole])
  rw [hrole] at hreading
  obtain ⟨tag, htag, -⟩ := Option.map_eq_some_iff.mp hreading
  exact ⟨tag, htag⟩

/-- A node is read from its tag and its value. -/
theorem declares_of_node {tag : NodeSpec} (hrole : member.role = .node)
    (htag : member.node? = some tag) :
    member.declares supplier =
      member.readNode tag (member.resolved supplier (some (member.nodeId tag))) := by
  simp only [declares, hrole, Role.reading, htag, Option.map_some, resolved]

/-- What an edge tag and a value make of a member. -/
def readEdge (member : Member) (tag : EdgeSpec) (value : Option Component) :
    Except Refusal Contribution :=
  match member.edgeReading tag with
  | .settled result => result
  | .awaiting _ read => read value

/-- Of a router member only the name counts, beside its tag and its value. -/
theorem readEdge_congr {other : Member} (hname : other.name = member.name) :
    other.readEdge = member.readEdge := by
  have hrouter : other.readRouter = member.readRouter := by
    unfold readRouter
    rw [hname]
  unfold readEdge edgeReading
  rw [hname, hrouter]

/-- A router is read from its tag and its value. -/
theorem declares_of_edge {tag : EdgeSpec} (hrole : member.role = .conditionalEdge)
    (htag : member.edge? = some tag) :
    member.declares supplier = member.readEdge tag (member.resolved supplier none) := by
  simp only [declares, hrole, Role.reading, htag, Option.map_some, readEdge, edgeReading, resolved]
  by_cases hblank : Text.isBlank tag.source
  · simp only [hblank, if_true]
  · cases routesOf member.name tag.mappings <;> simp [hblank]

/-- A router member declares something iff its source says something, its mappings are pairs and its
value can be read. -/
theorem declares_router_eq_ok_iff {tag : EdgeSpec} (hrole : member.role = .conditionalEdge)
    (htag : member.edge? = some tag) :
    member.declares supplier = .ok found ↔
      Text.isBlank tag.source = false ∧ tag.mappings.length % 2 = 0 ∧
        member.readRouter tag.source (.ofList (routesOf.pairs tag.mappings))
          (member.resolved supplier none) = .ok found := by
  rw [declares_of_edge hrole htag, readEdge, edgeReading, routesOf]
  by_cases hblank : Text.isBlank tag.source
  · simp [hblank]
  · by_cases heven : tag.mappings.length % 2 = 0
    · simp [hblank, heven]
    · simp [hblank, heven]

/-- **A member declares something iff it is what its role asks for.** -/
theorem exists_declares_iff :
    (∃ found, member.declares supplier = .ok found) ↔ member.Readable supplier := by
  rw [readable_iff]
  cases hrole : member.role with
  | key =>
      cases htag : member.key? with
      | none =>
          simp [declares, hrole, Role.reading, htag, keyTag?, nodeTag?, routerTag?]
      | some tag =>
          simp [declares, hrole, Role.reading, htag, keyTag?, nodeTag?, routerTag?,
            readKey_eq_ok_iff, keyId?]
          intro _ _
          cases Text.given tag.id <;> simp [Option.isSome_iff_exists]
  | node =>
      cases htag : member.node? with
      | none => simp [declares, hrole, Role.reading, htag, keyTag?, nodeTag?, routerTag?]
      | some tag =>
          simp [declares, hrole, Role.reading, htag, keyTag?, nodeTag?, routerTag?,
            exists_readNode_iff, resolved]
  | conditionalEdge =>
      cases htag : member.edge? with
      | none => simp [declares, hrole, Role.reading, htag, keyTag?, nodeTag?, routerTag?]
      | some tag =>
          simp [declares_router_eq_ok_iff hrole htag, exists_readRouter_iff, hrole, htag, keyTag?, nodeTag?, routerTag?]
  | compileConfig =>
      simp [declares, hrole, Role.reading, keyTag?, nodeTag?, routerTag?,
        readConfig_eq_ok_iff, Configures, resolved]
  | unrecognized =>
      simp [declares, hrole, Role.reading, keyTag?, nodeTag?, routerTag?]

/-- **What a member declares**, in each role. -/
inductive Declared (supplier : Supplier) (member : Member) : Contribution → Prop
  | key {tag : KeySpec} {id : String} (hrole : member.role = .key)
      (htag : member.key? = some tag)
      (hid : (Text.given tag.id <|> member.heldText?) = some id) :
      Declared supplier member (.key id tag.rule)
  | node {tag : NodeSpec} {value : Component} {body : Body Graph} (hrole : member.role = .node)
      (htag : member.node? = some tag)
      (hvalue : member.resolved supplier (some (member.nodeId tag)) = some value)
      (hbody : value.Backs body) :
      Declared supplier member
        (.operations (.ofNode (member.nodeId tag) body :: nodeEdges (member.nodeId tag) tag))
  | router {tag : EdgeSpec} {value : Component} {choose : Choice}
      (hrole : member.role = .conditionalEdge) (htag : member.edge? = some tag)
      (hvalue : member.resolved supplier none = some value)
      (hchoose : value.choice? = some choose) :
      Declared supplier member
        (.operations [.ofRouter tag.source ⟨choose, .ofList (routesOf.pairs tag.mappings)⟩])
  | config {config : CompileConfig} (hrole : member.role = .compileConfig)
      (hconfig : member.Configures supplier config) : Declared supplier member (.config config)
  | nothing (hrole : member.role = .unrecognized) : Declared supplier member (.operations [])

/-- **The one inversion of reading.** -/
theorem declared_of_declares (h : member.declares supplier = .ok found) :
    member.Declared supplier found := by
  cases hrole : member.role with
  | key =>
      obtain ⟨reading, hreading⟩ := member.exists_reading (by simp [hrole])
      rw [hrole] at hreading
      obtain ⟨tag, htag, -⟩ := Option.map_eq_some_iff.mp hreading
      simp only [declares, hrole, Role.reading, htag, Option.map_some] at h
      obtain ⟨-, -, id, hid, rfl⟩ := readKey_eq_ok_iff.mp h
      exact .key hrole htag hid
  | node =>
      obtain ⟨tag, htag⟩ := exists_node? hrole
      rw [declares_of_node hrole htag] at h
      obtain ⟨value, body, hvalue, hbody, rfl⟩ := readNode_eq_ok h
      exact .node hrole htag hvalue hbody
  | conditionalEdge =>
      obtain ⟨tag, htag⟩ := exists_edge? hrole
      obtain ⟨-, -, hread⟩ := (declares_router_eq_ok_iff hrole htag).mp h
      obtain ⟨value, choose, hvalue, hchoose, rfl⟩ := readRouter_eq_ok hread
      exact .router hrole htag hvalue hchoose
  | compileConfig =>
      simp only [declares, hrole, Role.reading] at h
      obtain ⟨config, rfl, hconfig⟩ := readConfig_eq_ok_iff.mp h
      exact .config hrole hconfig
  | unrecognized =>
      simp only [declares, hrole, Role.reading, Except.ok.injEq] at h
      rw [← h]
      exact .nothing hrole

/-- The edges that a node tag asks for are made by calls. -/
theorem nodeEdges_calls (id : String) (tag : NodeSpec) :
    (nodeEdges id tag).flatMap Operation.calls =
      ((if tag.isStart then [(startId, id)] else []) ++
        (tag.next.filter fun next => !Text.isBlank next).map fun next => (id, next)).map
          fun edge => .edge edge.1 edge.2 := by
  unfold nodeEdges
  rw [List.flatMap_append, List.map_append]
  congr 1
  · cases tag.isStart <;> rfl
  · rw [List.flatMap_map, List.map_map]
    induction tag.next.filter fun next => !Text.isBlank next with
    | nil => rfl
    | cons next rest ih =>
        rw [List.flatMap_cons, ih]
        rfl

/-- The edges of a node are calls. -/
theorem plain_nodeEdges {id : String} {tag : NodeSpec} {operation : Operation}
    (h : operation ∈ nodeEdges id tag) : ∃ call, operation.effect = .call call := by
  unfold nodeEdges at h
  rcases List.mem_append.mp h with hstart | hnext
  · split at hstart
    · rw [List.mem_singleton.mp hstart]
      exact ⟨_, rfl⟩
    · cases hstart
  · obtain ⟨next, -, rfl⟩ := List.mem_map.mp hnext
    exact ⟨_, rfl⟩

theorem flatMap_edge_calls (edges : List (String × String)) :
    let calls := edges.map fun edge => Draft.Call.edge edge.1 edge.2
    calls.flatMap Draft.Call.nodes = [] ∧ calls.flatMap Draft.Call.edges = edges ∧
      calls.flatMap Draft.Call.routers = [] := by
  simp [List.flatMap_map, Draft.Call.nodes, Draft.Call.edges, Draft.Call.routers]

/-- A contribution without calls comes from a member that is no node and no router. -/
theorem of_without_calls (hdeferred : found.deferred = []) (hnode : member.nodeTag? = none)
    (hrouter : member.routerTag? = none) (hkeys : found.keyIds = member.keyId?.toList)
    (hcount : found.configs.length = if member.role = .compileConfig then 1 else 0)
    (hconfigs : ∀ config ∈ found.configs, member.Configures supplier config) :
    found.Of supplier member := by
  have hcalls : found.calls = [] := by rw [Contribution.calls, hdeferred, List.flatMap_nil]
  refine ⟨hkeys, ?_, ?_, ?_, ?_, hcount, hconfigs⟩
  · simp [hdeferred]
  · simp [hcalls, nodeIds, hnode]
  · simp [hcalls, staticEdges, hnode]
  · simp [hcalls, routeTables, hrouter]

/-- The calls of a node: itself, and then its edges. -/
theorem calls_node (id : String) (body : Body Graph) (tag : NodeSpec) :
    (Contribution.operations (.ofNode id body :: nodeEdges id tag)).calls =
      .node id body :: ((if tag.isStart then [(startId, id)] else []) ++
        (tag.next.filter fun next => !Text.isBlank next).map fun next => (id, next)).map
          fun edge => .edge edge.1 edge.2 := by
  rw [Contribution.calls, Contribution.deferred, List.flatMap_cons, Operation.calls_ofNode,
    nodeEdges_calls]
  rfl

/-- A node with its edges is what a node member declares. -/
theorem of_node {tag : NodeSpec} {body : Body Graph} (hrole : member.role = .node)
    (htag : member.node? = some tag) :
    (Contribution.operations
      (.ofNode (member.nodeId tag) body :: nodeEdges (member.nodeId tag) tag)).Of
        supplier member := by
  have hnode : member.nodeTag? = some tag := nodeTag?_eq_some_iff.mpr ⟨hrole, htag⟩
  have hcalls := calls_node (member.nodeId tag) body tag
  obtain ⟨hnone, hsame, hnorouter⟩ := flatMap_edge_calls
    ((if tag.isStart then [(startId, member.nodeId tag)] else []) ++
      (tag.next.filter fun next => !Text.isBlank next).map fun next => (member.nodeId tag, next))
  refine ⟨?_, ?_, ?_, ?_, ?_, ?_, ?_⟩
  · simp [Contribution.keyIds, keyId?, keyTag?, hrole]
  · intro operation hmem
    rcases List.mem_cons.mp hmem with rfl | hmem
    · exact ⟨_, Operation.effect_ofNode _ _⟩
    · exact plain_nodeEdges hmem
  · rw [hcalls, List.flatMap_cons, hnone, nodeIds, hnode]
    rfl
  · rw [hcalls, List.flatMap_cons, hsame, staticEdges, hnode]
    simp [Draft.Call.edges]
  · rw [hcalls, List.flatMap_cons, hnorouter, routeTables, routerTag?]
    simp [Draft.Call.routers, hrole]
  · simp [Contribution.configs, hrole]
  · simp [Contribution.configs]

/-- A router is what a router member declares. -/
theorem of_router {tag : EdgeSpec} {choose : Choice} (hrole : member.role = .conditionalEdge)
    (htag : member.edge? = some tag) :
    (Contribution.operations
      [.ofRouter tag.source ⟨choose, .ofList (routesOf.pairs tag.mappings)⟩]).Of
        supplier member := by
  have hrouter : member.routerTag? = some tag := routerTag?_eq_some_iff.mpr ⟨hrole, htag⟩
  have hnode : member.nodeTag? = none := by simp [nodeTag?, hrole]
  refine ⟨?_, ?_, ?_, ?_, ?_, ?_, ?_⟩
  · simp [Contribution.keyIds, keyId?, keyTag?, hrole]
  · intro operation hmem
    rw [List.mem_singleton.mp hmem]
    exact ⟨_, rfl⟩
  · rw [nodeIds, hnode]
    rfl
  · rw [staticEdges, hnode]
    rfl
  · rw [routeTables, hrouter]
    rfl
  · simp [Contribution.configs, hrole]
  · simp [Contribution.configs]

/-- **The one spec of reading**: what a member declares, in all its parts. -/
theorem of_declares (h : member.declares supplier = .ok found) : found.Of supplier member := by
  cases declared_of_declares h with
  | @key tag id hrole htag hid =>
      refine of_without_calls rfl (by simp [nodeTag?, hrole]) (by simp [routerTag?, hrole])
        ?_ ?_ ?_
      · simp only [Contribution.keyIds, keyId?, keyTag?, hrole, htag, if_true,
          Option.bind_some, hid, Option.toList_some]
      · simp [Contribution.configs, hrole]
      · simp [Contribution.configs]
  | node hrole htag => exact of_node hrole htag
  | router hrole htag => exact of_router hrole htag
  | @config config hrole hconfig =>
      refine of_without_calls rfl (by simp [nodeTag?, hrole]) (by simp [routerTag?, hrole])
        ?_ ?_ ?_
      · simp [Contribution.keyIds, keyId?, keyTag?, hrole]
      · simp [Contribution.configs, hrole]
      · intro config' hmem
        rw [List.mem_singleton.mp hmem]
        exact hconfig
  | nothing hrole =>
      refine of_without_calls rfl (by simp [nodeTag?, hrole]) (by simp [routerTag?, hrole])
        ?_ ?_ ?_
      · simp [Contribution.keyIds, keyId?, keyTag?, hrole]
      · simp [Contribution.configs, hrole]
      · simp [Contribution.configs]

/-- Members that are what their roles ask for declare something each. -/
theorem exists_mapM_declares {members : List Member}
    (h : ∀ member ∈ members, member.Readable supplier) :
    ∃ found, members.mapM (Member.declares supplier) = .ok found := by
  induction members with
  | nil => exact ⟨[], rfl⟩
  | cons member rest ih =>
      obtain ⟨head, hhead⟩ := exists_declares_iff.mpr (h member List.mem_cons_self)
      obtain ⟨tail, htail⟩ := ih fun member' hmember' => h member' (List.mem_cons_of_mem _ hmember')
      exact ⟨head :: tail, Traversal.mapM_eq_ok_iff.mpr
        (.cons hhead (Traversal.mapM_eq_ok_iff.mp htail))⟩

/-- Contributions are those of a list of members, in order. -/
abbrev AllDeclare (supplier : Supplier) (members : List Member) (found : List Contribution) :
    Prop :=
  List.Forall₂ (fun member found => found.Of supplier member) members found

/-- Members that are read in order declare what is read. -/
theorem allDeclare_of_mapM {members : List Member} {found : List Contribution}
    (h : members.mapM (declares supplier) = .ok found) : AllDeclare supplier members found :=
  (Traversal.mapM_eq_ok_iff.mp h).imp fun _ _ => of_declares

/-- Members that are read can be read. -/
theorem readable_of_mapM {members : List Member} {found : List Contribution}
    (h : members.mapM (declares supplier) = .ok found) :
    ∀ member ∈ members, Readable supplier member := by
  intro member hmember
  obtain ⟨contribution, -, hcontribution⟩ := Traversal.exists_answer h hmember
  exact exists_declares_iff.mp ⟨contribution, hcontribution⟩

/-- What members declare is put off as calls. -/
theorem plain_of_mapM {members : List Member} {found : List Contribution}
    (h : members.mapM (declares supplier) = .ok found) :
    ∀ operation ∈ found.flatMap Contribution.deferred,
      ∃ call, operation.effect = .call call := by
  intro operation hoperation
  obtain ⟨contribution, hmem, hdeferred⟩ := List.mem_flatMap.mp hoperation
  obtain ⟨member, -, hmember⟩ := Traversal.exists_asked h hmem
  exact (of_declares hmember).plain operation hdeferred

/-- A member configures in one way. -/
theorem Configures.unique {config config' : CompileConfig} (h : member.Configures supplier config)
    (h' : member.Configures supplier config') : config = config' := by
  rcases h with h | h <;> rcases h' with h' | h' <;>
    simpa using h.symm.trans h'

end Member

end FlowGraph
