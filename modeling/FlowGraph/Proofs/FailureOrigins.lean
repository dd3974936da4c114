import FlowGraph.Proofs.Frontier
import FlowGraph.Proofs.Writes

/-!
# Where a failure comes from

A run fails at a node, at a router, by a label that leads nowhere, or with its
steps used up.  A failing node is named by the graph it stands in, unless its
failure names a node already; a failing router is always named.  A graph that
fails inside a node of another graph is seen there as that node failing, and so
on outwards; but only failures that name no node yet are named on the way.

* `Machine.ComesTo`, `Machine.ComesToRouter`: what a run asks, nothing that it
  asks before failing in the same superstep.
* `Machine.Origin`, `origin_iff_run_eq`: **every failure has an origin, and it
  decides the fault.**
* `Graph.Descends`: a run of a graph comes to a graph nested some levels deep.
* `failures_keep_their_origin`: what comes out of all the levels.
-/

namespace FlowGraph

/-- A fault that names no node yet is named after the node it came out of. -/
theorem Fault.atNode_of_ne {fault : Fault} (h : ∀ id message, fault ≠ .nodeFailed id message)
    (node : String) : fault.atNode node = .nodeFailed node fault.message := by
  cases fault with
  | nodeFailed id message => exact absurd rfl (h id message)
  | _ => rfl

namespace Machine

/-- A run comes to a node: the node is asked in a superstep, and no node before
it in the frontier fails. -/
inductive ComesTo (m : Machine) (ctx : RunConfig) (inputs : Store) : Node Runner → Store → Prop
  | asked {b : Boundary} {before after : List String} {node : Node Runner}
      (hstep : m.StepsFrom ctx inputs b) (hfrontier : b.frontier = before ++ node.id :: after)
      (hearlier : ∀ id ∈ before, ∃ node' update, m.topology.node? id = some node' ∧
        node'.body.act id b.store ctx = .ok update)
      (hnode : m.topology.node? node.id = some node) : ComesTo m ctx inputs node b.store

/-- A run comes to the router of a source: at its entry, or in a superstep whose
nodes succeed, after the sources before it in the frontier have led on. -/
inductive ComesToRouter (m : Machine) (ctx : RunConfig) (inputs : Store) :
    String → Router → Store → Prop
  | entry {router : Router} (hrouter : m.topology.router? startId = some router) :
      ComesToRouter m ctx inputs startId router (.enter m.keys inputs)
  | later {b : Boundary} {before after next : List String} {source : String} {router : Router}
      {merged store : Store} (hstep : m.StepsFrom ctx inputs b)
      (hfrontier : b.frontier = before ++ source :: after)
      (hact : m.actAll ctx b = .ok merged)
      (hearlier : m.routeAll ctx before [] merged = .ok (next, store))
      (hrouter : m.topology.router? source = some router) :
      ComesToRouter m ctx inputs source router store

/-- The ways in which a run fails, each with the fault that it gives. -/
inductive Origin (m : Machine) (ctx : RunConfig) (inputs : Store) : Fault → Prop
  /-- A node fails. -/
  | node {node : Node Runner} {store : Store} {cause : Fault}
      (hcomes : m.ComesTo ctx inputs node store)
      (hfail : node.body.act node.id store ctx = .error cause) :
      Origin m ctx inputs (cause.atNode node.id)
  /-- A router fails. -/
  | router {source : String} {router : Router} {store : Store} {cause : Fault}
      (hcomes : m.ComesToRouter ctx inputs source router store)
      (hfail : router.choose store ctx = .error cause) :
      Origin m ctx inputs (.nodeFailed source cause.message)
  /-- A router chooses a label that leads nowhere. -/
  | route {source : String} {router : Router} {store : Store} {decision : Decision}
      (hcomes : m.ComesToRouter ctx inputs source router store)
      (hchoose : router.choose store ctx = .ok decision)
      (hroute : router.routes.get? decision.goto = none) :
      Origin m ctx inputs (.unknownRoute source decision.goto)
  /-- There are nodes to run and no steps left. -/
  | limit {b : Boundary} (hreach : m.Reaches ctx inputs m.config.maxSteps b)
      (hgoes : m.halts b = false) :
      Origin m ctx inputs (.stepLimitExceeded m.config.maxSteps)

/-- The frontiers of the run name nodes. -/
def Keeps (m : Machine) (ctx : RunConfig) (inputs : Store) : Prop :=
  ∀ n b, m.Reaches ctx inputs n b → ∀ id ∈ b.frontier, m.topology.hasNode id = true

variable {m : Machine} {ctx : RunConfig} {inputs : Store}

/-- Where the boundaries of a run are known, its frontiers hold nodes only. -/
theorem StepsFrom.known (hkeeps : m.Keeps ctx inputs) {b : Boundary}
    (h : m.StepsFrom ctx inputs b) : ∀ id ∈ b.frontier, m.topology.hasNode id = true := by
  obtain ⟨n, hreach, -⟩ := h
  exact hkeeps n b hreach

/-- A superstep that fails is the end of the run. -/
theorem StepsFrom.run_eq_error {b : Boundary} {fault : Fault} (h : m.StepsFrom ctx inputs b)
    (hstep : m.advance ctx b = .error fault) : m.run inputs ctx = .error fault := by
  obtain ⟨n, hreach, hgoes, hbudget⟩ := h
  exact (Ends.failed hreach hgoes hbudget hstep).run_eq

/-- The run fails as the node to which it comes. -/
theorem ComesTo.run_eq_error (hkeeps : m.Keeps ctx inputs) {node : Node Runner} {store : Store}
    {cause : Fault} (h : m.ComesTo ctx inputs node store)
    (hfail : node.body.act node.id store ctx = .error cause) :
    m.run inputs ctx = .error (cause.atNode node.id) := by
  obtain ⟨hstep, hfrontier, hearlier, hnode⟩ := h
  exact hstep.run_eq_error
    (advance_eq_error_of_first (hstep.known hkeeps) hfrontier hearlier hnode hfail)

/-- The run fails as the router to which it comes. -/
theorem ComesToRouter.run_eq_error {source : String} {router : Router} {store : Store}
    {fault : Fault} (h : m.ComesToRouter ctx inputs source router store)
    (hfail : m.successors ctx source store = .error fault) :
    m.run inputs ctx = .error fault := by
  cases h with
  | entry hrouter => exact (Ends.refused (enter_eq_error_iff.mpr hfail)).run_eq
  | @later b before after next source router merged store hstep hfrontier hact hearlier hrouter =>
      have hroute : m.routeAll ctx b.frontier [] merged = .error fault := by
        rw [hfrontier, routeAll_append, hearlier]
        simp only [Except.bind, routeAll, hfail]
      exact hstep.run_eq_error (advance_eq_error_iff.mpr (Or.inr ⟨merged, hact, hroute⟩))

/-- A run that comes to a router comes to that of its source. -/
theorem ComesToRouter.router? {source : String} {router : Router} {store : Store}
    (h : m.ComesToRouter ctx inputs source router store) :
    m.topology.router? source = some router := by
  cases h with
  | entry hrouter => exact hrouter
  | later _ _ _ _ hrouter => exact hrouter

/-- What goes wrong at a source goes wrong at its router. -/
private theorem origin_of_successors {source : String} {store : Store} {fault : Fault}
    (hcomes : ∀ router, m.topology.router? source = some router →
      m.ComesToRouter ctx inputs source router store)
    (h : m.successors ctx source store = .error fault) : m.Origin ctx inputs fault := by
  obtain ⟨router, hrouter, ⟨cause, hfail, rfl⟩ | ⟨decision, hchoose, hroute, rfl⟩⟩ :=
    successors_eq_error h
  · exact .router (hcomes router hrouter) hfail
  · exact .route (hcomes router hrouter) hchoose hroute

/-- **Every failure has an origin, and it decides the fault.** -/
theorem origin_iff_run_eq (hkeeps : m.Keeps ctx inputs) {fault : Fault} :
    m.Origin ctx inputs fault ↔ m.run inputs ctx = .error fault := by
  constructor
  · intro h
    cases h with
    | node hcomes hfail => exact hcomes.run_eq_error hkeeps hfail
    | router hcomes hfail =>
        refine hcomes.run_eq_error ?_
        simp only [successors, hcomes.router?, hfail]
    | route hcomes hchoose hroute =>
        refine hcomes.run_eq_error ?_
        simp only [successors, hcomes.router?, hchoose, hroute]
    | limit hreach hgoes => exact (Ends.spent hreach hgoes).run_eq
  · intro hrun
    cases ends_iff_run_eq.mpr hrun with
    | refused henter =>
        exact origin_of_successors (fun _ => .entry) (enter_eq_error_iff.mp henter)
    | spent hreach hgoes => exact .limit hreach hgoes
    | @failed n b fault hreach hgoes hbudget hadvance =>
        have hstep : m.StepsFrom ctx inputs b := ⟨n, hreach, hgoes, hbudget⟩
        rcases advance_eq_error_iff.mp hadvance with hact | ⟨merged, hact, hroute⟩
        · obtain ⟨before, node, after, cause, hfrontier, hearlier, hnode, hfail, rfl⟩ :=
            actAll_eq_error_of_known (hstep.known hkeeps) hact
          exact .node (.asked hstep hfrontier hearlier hnode) hfail
        · obtain ⟨before, source, after, next, store, hfrontier, hearlier, hfail⟩ :=
            routeAll_eq_error hroute
          exact origin_of_successors (fun _ => .later hstep hfrontier hact hearlier) hfail

end Machine

namespace Graph

/-- A graph that was compiled from a draft, whatever calls made the draft. -/
def Compiled (graph : Graph) : Prop :=
  ∃ id keys calls config, (Draft.attemptAll { id, keys } calls).compile config = .ok graph

/-- The run of a graph comes to the graph in one of its nodes, and runs it on a
store. -/
def Calls (outer : Graph) (ctx : RunConfig) (inputs : Store) (container : String) (inner : Graph)
    (store : Store) : Prop :=
  outer.topology.node? container = some ⟨container, .subgraph inner⟩ ∧
    outer.machine.ComesTo ctx inputs ⟨container, .subgraph inner.run⟩ store

/-- The run of a graph comes to a graph that is nested some levels deep; the node
named is the one that holds the innermost graph. -/
inductive Descends (ctx : RunConfig) :
    Nat → Graph → Store → String → Graph → Store → Prop
  | once {outer inner : Graph} {inputs store : Store} {container : String}
      (hcompiled : outer.Compiled) (hinner : inner.Compiled)
      (hcalls : outer.Calls ctx inputs container inner store) :
      Descends ctx 1 outer inputs container inner store
  | again {depth : Nat} {outer middle inner : Graph} {inputs between store : Store}
      {node container : String} (hcompiled : outer.Compiled)
      (hcalls : outer.Calls ctx inputs node middle between)
      (hbelow : Descends ctx depth middle between container inner store) :
      Descends ctx (depth + 1) outer inputs container inner store

variable {ctx : RunConfig}

/-- A compiled graph never looks for a node that is not there. -/
theorem Compiled.keeps {graph : Graph} (h : graph.Compiled) (ctx : RunConfig) (inputs : Store) :
    graph.machine.Keeps ctx inputs := by
  obtain ⟨id, keys, calls, config, hcompile⟩ := h
  obtain ⟨hlegal, hclosed⟩ := Draft.legal_closed_of_compile hcompile
  intro n b hreach
  exact (hreach.sound hlegal.edgesDistinct (hclosed.map run)).known

/-- A graph fails as the graph that it runs in a node. -/
theorem Calls.run_eq_error {outer inner : Graph} {inputs store : Store} {container : String}
    (hcompiled : outer.Compiled) (h : outer.Calls ctx inputs container inner store) {fault : Fault}
    (hinner : inner.run store ctx = .error fault) :
    outer.run inputs ctx = .error (fault.atNode container) := by
  rw [run_eq outer]
  exact h.2.run_eq_error (hcompiled.keeps ctx inputs) hinner

namespace Descends

variable {depth : Nat} {outer inner : Graph} {inputs store : Store} {container : String}

/-- The graphs that one descends to are compiled ones. -/
theorem compiled (h : Descends ctx depth outer inputs container inner store) :
    inner.Compiled := by
  induction h with
  | once _ hinner _ => exact hinner
  | again _ _ _ ih => exact ih

/-- **Only the innermost node names a failure**, however many levels there are. -/
theorem run_eq_error (h : Descends ctx depth outer inputs container inner store) {fault : Fault}
    (hinner : inner.run store ctx = .error fault) :
    outer.run inputs ctx = .error (fault.atNode container) := by
  induction h with
  | once hcompiled _ hcalls => exact hcalls.run_eq_error hcompiled hinner
  | again hcompiled hcalls _ ih =>
      have hmiddle := hcalls.run_eq_error hcompiled (ih hinner)
      rwa [Fault.atNode_atNode] at hmiddle

end Descends

/-- **Failures keep their origin through any nesting.**  Let the run of a graph
come to a graph nested some levels deep.  If a node there fails, the whole run
fails as that node with the text of the cause, and with the cause itself if it
names a node already; if a router there fails, the whole run fails as the
router's source with the text of the cause; if a label there leads nowhere, or
the steps there are used up, the whole run fails as the node that holds the
innermost graph, with the text of that fault.  There is no other way in which
the innermost graph can fail. -/
theorem failures_keep_their_origin {depth : Nat} {outer inner : Graph} {inputs store : Store}
    {container : String} (h : Descends ctx depth outer inputs container inner store) :
    (∀ node before cause, inner.machine.ComesTo ctx store node before →
      node.body.act node.id before ctx = .error cause →
        ((∀ id message, cause ≠ .nodeFailed id message) →
          outer.run inputs ctx = .error (.nodeFailed node.id cause.message)) ∧
        ∀ id message, cause = .nodeFailed id message → outer.run inputs ctx = .error cause) ∧
      (∀ source router before cause, inner.machine.ComesToRouter ctx store source router before →
        router.choose before ctx = .error cause →
          outer.run inputs ctx = .error (.nodeFailed source cause.message)) ∧
      (∀ fault, inner.run store ctx = .error fault →
        ((∃ source label, fault = .unknownRoute source label) ∨
          ∃ limit, fault = .stepLimitExceeded limit) →
        outer.run inputs ctx = .error (.nodeFailed container fault.message)) ∧
      ∀ fault, inner.run store ctx = .error fault → inner.machine.Origin ctx store fault := by
  have hkeeps := h.compiled.keeps ctx store
  have horigin : ∀ fault, inner.machine.Origin ctx store fault →
      outer.run inputs ctx = .error (fault.atNode container) := by
    intro fault hfault
    refine h.run_eq_error ?_
    rw [run_eq inner]
    exact (Machine.origin_iff_run_eq hkeeps).mp hfault
  refine ⟨?_, ?_, ?_, ?_⟩
  · intro node before cause hcomes hfail
    have hrun := horigin _ (.node hcomes hfail)
    rw [Fault.atNode_atNode] at hrun
    constructor
    · intro hother
      rwa [Fault.atNode_of_ne hother] at hrun
    · intro id message hcause
      rwa [hcause] at hrun ⊢
  · intro source router before cause hcomes hfail
    exact horigin _ (.router hcomes hfail)
  · intro fault hinner hkind
    have hrun := h.run_eq_error hinner
    rcases hkind with ⟨source, label, rfl⟩ | ⟨limit, rfl⟩
    · exact hrun
    · exact hrun
  · intro fault hinner
    rw [run_eq inner] at hinner
    exact (Machine.origin_iff_run_eq hkeeps).mpr hinner

/-- A graph whose entry leads to a quiet node and to a node that holds another
graph. -/
def beside (inner : Graph) (container : String) : Graph where
  id := "beside"
  keys := .empty
  topology :=
    { nodes := [⟨"porch", .action fun _ _ => .ok .empty⟩, ⟨container, .subgraph inner⟩]
      edges := [(startId, "porch"), (startId, container)] }
  config := {}

/-- Calls that build it. -/
def besideCalls (inner : Graph) (container : String) : List Draft.Call :=
  [.node "porch" (.action fun _ _ => .ok .empty), .node container (.subgraph inner),
   .edge startId "porch", .edge startId container]

/-- A clerk who has no ink to write with. -/
def clerk : Node Graph :=
  ⟨"clerk", .action fun _ ctx =>
    if ctx.threadId = some "write" then .error (.actionFailed "no ink") else .ok .empty⟩

/-- The clerk alone, with a router that fails or goes astray. -/
def office : Graph where
  id := "office"
  keys := .empty
  topology :=
    { nodes := [clerk]
      edges := [(startId, "clerk")]
      routers :=
        [("clerk", ⟨fun _ ctx =>
            if ctx.threadId = some "ask" then .error (.invalid "away") else .ok { goto := "left" },
          .ofList [("right", endId)]⟩)] }
  config := {}

theorem office_compiled : office.Compiled :=
  ⟨"office", .empty,
    office.topology.nodes.map (fun node => .node node.id node.body) ++
      office.topology.edges.map (fun edge => .edge edge.1 edge.2) ++
      office.topology.routers.map fun entry => .router entry.1 entry.2, {}, rfl⟩

/-- The office is in a room on a floor. -/
def house : Graph := (office.beside "room").beside "floor"

theorem house_descends (ctx : RunConfig) :
    Descends ctx 2 house .empty "room" office .empty := by
  have hroom : (office.beside "room").Compiled :=
    ⟨"beside", .empty, office.besideCalls "room", {}, rfl⟩
  have hfloor : house.Compiled :=
    ⟨"beside", .empty, (office.beside "room").besideCalls "floor", {}, rfl⟩
  have hporch : ∀ outer : Graph, outer.machine.topology.node? "porch" =
      some ⟨"porch", .action fun _ _ => .ok .empty⟩ → ∀ id ∈ ["porch"], ∃ node update,
        outer.machine.topology.node? id = some node ∧ node.body.act id .empty ctx = .ok update := by
    intro outer hnode id hid
    cases List.mem_singleton.mp hid
    exact ⟨_, .empty, hnode, rfl⟩
  have hcallsFloor : house.Calls ctx .empty "floor" (office.beside "room") .empty := by
    have hsplit : ["porch", "floor"] = ["porch"] ++ "floor" :: [] := rfl
    exact ⟨rfl, .asked (b := ⟨.empty, _⟩) ⟨0, .enter rfl, rfl, by decide⟩ hsplit
      (hporch house rfl) rfl⟩
  have hcallsRoom : (office.beside "room").Calls ctx .empty "room" office .empty := by
    have hsplit : ["porch", "room"] = ["porch"] ++ "room" :: [] := rfl
    exact ⟨rfl, .asked (b := ⟨.empty, _⟩) ⟨0, .enter rfl, rfl, by decide⟩ hsplit
      (hporch (office.beside "room") rfl) rfl⟩
  exact .again hfloor hcallsFloor (.once hroom office_compiled hcallsRoom)

/-- The clerk's failure and that of the clerk's router come out of the house
under the clerk's name, and a label that leads nowhere under that of the room. -/
theorem nested_failures_name_innermost_node :
    Descends { threadId := some "write" } 2 house .empty "room" office .empty ∧
      house.run .empty { threadId := some "write" } =
        .error (.nodeFailed "clerk" "action failed: no ink") ∧
      house.run .empty { threadId := some "ask" } =
        .error (.nodeFailed "clerk" "invalid graph: away") ∧
      house.run .empty {} =
        .error (.nodeFailed "room" "route 'left' from 'clerk' has no mapped destination") := by
  have hclerk : ∀ ctx, office.machine.StepsFrom ctx .empty ⟨.empty, ["clerk"]⟩ :=
    fun _ => ⟨0, .enter rfl, rfl, by decide⟩
  have hfirst : ["clerk"] = [] ++ "clerk" :: [] := rfl
  refine ⟨house_descends _, ?_, ?_, ?_⟩
  · have hcomes : office.machine.ComesTo { threadId := some "write" } .empty (clerk.map run)
        .empty := by
      refine .asked (hclerk _) hfirst ?_ rfl
      intro id hid
      cases hid
    have hnode := (failures_keep_their_origin (house_descends { threadId := some "write" })).1
    refine (hnode _ _ (.actionFailed "no ink") hcomes rfl).1 ?_
    intro id message h
    cases h
  · have hrouter := (failures_keep_their_origin (house_descends { threadId := some "ask" })).2.1
    exact hrouter "clerk" _ _ (.invalid "away")
      (.later (hclerk _) hfirst rfl rfl rfl) rfl
  · have hlost := (failures_keep_their_origin (house_descends {})).2.2.1
    exact hlost (.unknownRoute "clerk" "left") rfl (Or.inl ⟨_, _, rfl⟩)

end Graph

end FlowGraph
