import FlowGraph.Machine
import FlowGraph.Proofs.Legality

/-!
# What a superstep can do

Everything that is proved about runs looks at a superstep through the laws in
this file: where a source leads, what a list of routers does one after the
other, and what the nodes of a frontier answer to one snapshot.

* `successors_eq_ok`, `successors_eq_error`: a source leads along its static
  edges or through its router, and only a router can fail.
* `routeAll_invariant`: **what every router keeps, a list of routers keeps.**
* `routeAll_of_quiet`: what a list of routers that write nothing collects.
* `actAll_eq_of_known`: the nodes of a frontier are a walk in frontier order.
-/

namespace FlowGraph

/-! ## Collecting targets -/

/-- Targets that are added are there afterwards, and nothing else is new. -/
theorem mem_addNew_iff {ids targets : List String} {id : String} :
    id ∈ addNew ids targets ↔ id ∈ ids ∨ id ∈ targets := by
  induction targets generalizing ids with
  | nil => simp [addNew]
  | cons target rest ih =>
      have hstep : addNew ids (target :: rest) =
          addNew (if ids.contains target then ids else ids ++ [target]) rest := rfl
      rw [hstep, ih]
      by_cases hmem : target ∈ ids
      · simp only [List.contains_eq_mem, hmem, decide_true, if_true, List.mem_cons]
        grind
      · simp only [List.contains_eq_mem, hmem, decide_false, List.mem_cons]
        grind

/-- Each id is collected once. -/
theorem nodup_addNew {ids : List String} (hids : ids.Nodup) (targets : List String) :
    (addNew ids targets).Nodup := by
  induction targets generalizing ids with
  | nil => exact hids
  | cons target rest ih =>
      have hstep : addNew ids (target :: rest) =
          addNew (if ids.contains target then ids else ids ++ [target]) rest := rfl
      rw [hstep]
      by_cases hmem : target ∈ ids
      · simpa [hmem] using ih hids
      · have hsnoc : (ids ++ [target]).Nodup := by
          rw [← List.concat_eq_append, List.nodup_concat]
          exact ⟨hmem, hids⟩
        simpa [hmem] using ih hsnoc

/-- No router of a structure writes anything. -/
def Topology.Quiet {γ : Type} (t : Topology γ) : Prop :=
  ∀ entry ∈ t.routers, ∀ store ctx decision, entry.2.choose store ctx = .ok decision →
    decision.update = .empty

namespace Machine

/-- A source leads to an id. -/
def LeadsTo (m : Machine) (ctx : RunConfig) (store : Store) (source id : String) : Prop :=
  ∃ targets after, m.successors ctx source store = .ok (targets, after) ∧ id ∈ targets

variable {m : Machine} {ctx : RunConfig}

/-! ## Where a source leads -/

/-- **Where a source leads**: along its static edges with the store as it is,
or to the one destination that its router chooses, with the router's update. -/
theorem successors_eq_ok {source : String} {store after : Store} {targets : List String}
    (h : m.successors ctx source store = .ok (targets, after)) :
    (m.topology.router? source = none ∧ targets = m.topology.targets source ∧ after = store) ∨
    ∃ router decision target, m.topology.router? source = some router ∧
      router.choose store ctx = .ok decision ∧
      router.routes.get? decision.goto = some target ∧
      targets = [target] ∧ after = store.update m.keys decision.update := by
  unfold successors at h
  cases hrouter : m.topology.router? source with
  | none =>
      simp only [hrouter, Except.ok.injEq, Prod.mk.injEq] at h
      exact Or.inl ⟨rfl, h.1.symm, h.2.symm⟩
  | some router =>
      cases hchoose : router.choose store ctx with
      | error fault => simp [hrouter, hchoose] at h
      | ok decision =>
          cases hroute : router.routes.get? decision.goto with
          | none => simp [hrouter, hchoose, hroute] at h
          | some target =>
              simp only [hrouter, hchoose, hroute, Except.ok.injEq, Prod.mk.injEq] at h
              exact Or.inr ⟨router, decision, target, rfl, hchoose, hroute, h.1.symm, h.2.symm⟩

/-- Only a router can fail on the way to the next nodes: it fails itself, or
chooses a label without a destination. -/
theorem successors_eq_error {source : String} {store : Store} {fault : Fault}
    (h : m.successors ctx source store = .error fault) :
    ∃ router, m.topology.router? source = some router ∧
      ((∃ cause, router.choose store ctx = .error cause ∧
          fault = .nodeFailed source cause.message) ∨
        ∃ decision, router.choose store ctx = .ok decision ∧
          router.routes.get? decision.goto = none ∧
          fault = .unknownRoute source decision.goto) := by
  unfold successors at h
  cases hrouter : m.topology.router? source with
  | none => simp [hrouter] at h
  | some router =>
      refine ⟨router, rfl, ?_⟩
      cases hchoose : router.choose store ctx with
      | error cause =>
          simp only [hrouter, hchoose, Except.error.injEq] at h
          exact Or.inl ⟨cause, rfl, h.symm⟩
      | ok decision =>
          cases hroute : router.routes.get? decision.goto with
          | none =>
              simp only [hrouter, hchoose, hroute, Except.error.injEq] at h
              exact Or.inr ⟨decision, rfl, hroute, h.symm⟩
          | some target => simp [hrouter, hchoose, hroute] at h

/-- **What every router keeps, a list of routers keeps.** -/
theorem routeAll_invariant {P : List String → Store → Prop} {ids : List String}
    (hstep : ∀ id ∈ ids, ∀ next store targets after, P next store →
      m.successors ctx id store = .ok (targets, after) → P (addNew next targets) after)
    {next last : List String} {store after : Store} (hstart : P next store)
    (h : m.routeAll ctx ids next store = .ok (last, after)) : P last after := by
  induction ids generalizing next store with
  | nil =>
      cases h
      exact hstart
  | cons id rest ih =>
      rw [routeAll] at h
      cases hid : m.successors ctx id store with
      | error fault => simp [hid] at h
      | ok result =>
          obtain ⟨targets, middle⟩ := result
          simp only [hid] at h
          exact ih (fun id' hid' => hstep id' (List.mem_cons_of_mem _ hid'))
            (hstep id List.mem_cons_self _ _ _ _ hstart hid) h

/-- A list of routers fails where the first of them fails. -/
theorem routeAll_eq_error {ids next : List String} {store : Store} {fault : Fault}
    (h : m.routeAll ctx ids next store = .error fault) :
    ∃ before source after found reached, ids = before ++ source :: after ∧
      m.routeAll ctx before next store = .ok (found, reached) ∧
      m.successors ctx source reached = .error fault := by
  induction ids generalizing next store with
  | nil => cases h
  | cons id rest ih =>
      rw [routeAll] at h
      cases hid : m.successors ctx id store with
      | error cause =>
          simp only [hid, Except.error.injEq] at h
          exact ⟨[], id, rest, next, store, rfl, rfl, h ▸ hid⟩
      | ok result =>
          obtain ⟨targets, middle⟩ := result
          simp only [hid] at h
          obtain ⟨before, source, after, found, reached, hsplit, hbefore, hfail⟩ := ih h
          refine ⟨id :: before, source, after, found, reached, ?_, ?_, hfail⟩
          · rw [hsplit, List.cons_append]
          · simp only [routeAll, hid]
            exact hbefore

/-! ## Routers that write nothing -/

/-- Where routers write nothing, a source leaves the store as it is. -/
theorem store_of_successors (hquiet : m.topology.Quiet) {source : String}
    {store after : Store} {targets : List String}
    (h : m.successors ctx source store = .ok (targets, after)) : after = store := by
  rcases successors_eq_ok h with ⟨-, -, hafter⟩ |
    ⟨router, decision, target, hrouter, hchoose, -, -, hafter⟩
  · exact hafter
  · have hnothing : decision.update = .empty :=
      hquiet _ (Topology.mem_routers_of_router? hrouter) store ctx decision hchoose
    rw [hafter, hnothing]
    rfl

/-- **What quiet routers collect**: every source finds the same store, and what
comes next is what any of them leads to. -/
theorem routeAll_of_quiet (hquiet : m.topology.Quiet) {ids next last : List String}
    {store after : Store} (h : m.routeAll ctx ids next store = .ok (last, after)) :
    after = store ∧
      (∀ source ∈ ids, ∃ targets, m.successors ctx source store = .ok (targets, store)) ∧
      ∀ id, id ∈ last ↔ id ∈ next ∨ ∃ source ∈ ids, m.LeadsTo ctx store source id := by
  induction ids generalizing next with
  | nil =>
      cases h
      simp
  | cons head rest ih =>
      rw [routeAll] at h
      cases hhead : m.successors ctx head store with
      | error fault => simp [hhead] at h
      | ok result =>
          obtain ⟨targets, middle⟩ := result
          have hmiddle : middle = store := store_of_successors hquiet hhead
          subst hmiddle
          simp only [hhead] at h
          obtain ⟨hafter, hrest, hmem⟩ := ih h
          have hleads : ∀ id, m.LeadsTo ctx middle head id ↔ id ∈ targets := by
            intro id
            simp [LeadsTo, hhead]
          refine ⟨hafter, List.forall_mem_cons.mpr ⟨⟨targets, hhead⟩, hrest⟩, ?_⟩
          intro id
          rw [hmem, mem_addNew_iff, List.exists_mem_cons_iff, hleads, or_assoc]

/-- If all sources of a list lead somewhere, the list does. -/
theorem exists_routeAll {ids : List String} {store : Store}
    (h : ∀ source ∈ ids, ∃ targets, m.successors ctx source store = .ok (targets, store))
    (next : List String) : ∃ last, m.routeAll ctx ids next store = .ok (last, store) := by
  induction ids generalizing next with
  | nil => exact ⟨next, rfl⟩
  | cons head rest ih =>
      obtain ⟨⟨targets, hhead⟩, hrest⟩ := List.forall_mem_cons.mp h
      obtain ⟨last, hlast⟩ := ih hrest (addNew next targets)
      exact ⟨last, by simp only [routeAll, hhead, hlast]⟩

/-! ## What the nodes of a frontier answer -/

/-- What the node with an id answers to a snapshot, with the node. -/
def answer (m : Machine) (ctx : RunConfig) (store : Store) (id : String) :
    Except Fault (Node Runner × Update) :=
  match m.topology.node? id with
  | none => .error (.unknownNode id "frontier")
  | some node => (output ctx store node).map fun update => (node, update)

/-- A node that is found has the id that was looked for. -/
theorem id_of_node? {γ : Type} {t : Topology γ} {id : String} {node : Node γ}
    (h : t.node? id = some node) : node.id = id := by
  simpa using List.find?_some h

/-- A node that is found is one of the nodes. -/
theorem mem_of_node? {γ : Type} {t : Topology γ} {id : String} {node : Node γ}
    (h : t.node? id = some node) : node ∈ t.nodes := List.mem_of_find?_eq_some h

/-- Where a node is found there is one. -/
theorem hasNode_of_node? {γ : Type} {t : Topology γ} {id : String} {node : Node γ}
    (h : t.node? id = some node) : t.hasNode id = true :=
  List.any_eq_true.mpr ⟨node, mem_of_node? h, by simpa using List.find?_some h⟩

/-- Where there is a node one is found. -/
theorem exists_node?_of_hasNode {γ : Type} {t : Topology γ} {id : String}
    (h : t.hasNode id = true) : ∃ node, t.node? id = some node := by
  rw [← Option.isSome_iff_exists, Topology.node?, List.find?_isSome]
  simpa [Topology.hasNode] using h

/-- An id is answered by the action of its node. -/
theorem answer_eq_ok_iff {store : Store} {id : String} {node : Node Runner} {update : Update} :
    m.answer ctx store id = .ok (node, update) ↔
      m.topology.node? id = some node ∧ node.body.act id store ctx = .ok update := by
  unfold answer
  cases hnode : m.topology.node? id with
  | none => simp
  | some found =>
      have hid := id_of_node? hnode
      cases hact : found.body.act id store ctx with
      | error cause =>
          simp only [output, hid, hact, Except.mapError, Except.map, Option.some.injEq]
          constructor
          · intro h
            cases h
          · intro h
            obtain ⟨rfl, h⟩ := h
            rw [hact] at h
            cases h
      | ok value =>
          simp only [output, hid, hact, Except.mapError, Except.map, Except.ok.injEq,
            Prod.mk.injEq, Option.some.injEq]
          constructor
          · intro h
            obtain ⟨rfl, rfl⟩ := h
            exact ⟨rfl, hact⟩
          · intro h
            obtain ⟨rfl, h⟩ := h
            rw [hact] at h
            exact ⟨rfl, Except.ok.inj h⟩

/-- An id fails as the action of its node does, under the node's name. -/
theorem answer_eq_error_iff {store : Store} {id : String} {node : Node Runner} {fault : Fault}
    (hnode : m.topology.node? id = some node) :
    m.answer ctx store id = .error fault ↔
      ∃ cause, node.body.act id store ctx = .error cause ∧ cause.atNode id = fault := by
  have hid := id_of_node? hnode
  unfold answer
  simp only [hnode, output, hid]
  cases node.body.act id store ctx <;> simp [Except.mapError, Except.map]

/-- To answer for ids is to find their nodes and to let them act. -/
private theorem mapM_answer {store : Store} {ids : List String} {nodes : List (Node Runner)}
    (h : List.Forall₂ (fun id node => m.topology.node? id = some node) ids nodes) :
    ids.mapM (m.answer ctx store) =
      (nodes.mapM (output ctx store)).map fun updates => nodes.zip updates := by
  induction h with
  | nil => rfl
  | @cons id node ids nodes hnode _ ih =>
      rw [List.mapM_cons, List.mapM_cons, ih]
      have hanswer : m.answer ctx store id =
          (output ctx store node).map fun update => (node, update) := by
        simp only [answer, hnode]
      rw [hanswer]
      cases output ctx store node with
      | error fault => rfl
      | ok update => cases nodes.mapM (output ctx store) <;> rfl

/-- A frontier names the node that is found. -/
theorem nodeOf_eq_ok_iff {id : String} {node : Node Runner} :
    m.nodeOf id = .ok node ↔ m.topology.node? id = some node := by
  unfold nodeOf
  cases m.topology.node? id <;> simp

/-- All ids of a frontier name their nodes. -/
private theorem mapM_nodeOf_eq_ok_iff {ids : List String} {nodes : List (Node Runner)} :
    ids.mapM m.nodeOf = .ok nodes ↔
      List.Forall₂ (fun id node => m.topology.node? id = some node) ids nodes := by
  rw [Traversal.mapM_eq_ok_iff]
  simp only [nodeOf_eq_ok_iff]

/-- A frontier of known ids names one node for each id, in order. -/
theorem exists_nodes_of_known {ids : List String}
    (hknown : ∀ id ∈ ids, m.topology.hasNode id = true) :
    ∃ nodes, ids.mapM m.nodeOf = .ok nodes ∧ nodes.map Node.id = ids := by
  induction ids with
  | nil => exact ⟨[], rfl, rfl⟩
  | cons id rest ih =>
      obtain ⟨nodes, hnodes, hids⟩ := ih fun id' hid' => hknown id' (List.mem_cons_of_mem _ hid')
      obtain ⟨node, hnode⟩ := exists_node?_of_hasNode (hknown id List.mem_cons_self)
      refine ⟨node :: nodes, ?_, ?_⟩
      · exact mapM_nodeOf_eq_ok_iff.mpr (.cons hnode (mapM_nodeOf_eq_ok_iff.mp hnodes))
      · rw [List.map_cons, hids, id_of_node? hnode]

/-- **The nodes of a frontier are a walk in frontier order**, if all of them are
known; their updates are written once the walk is done. -/
theorem actAll_eq_of_known {b : Boundary}
    (hknown : ∀ id ∈ b.frontier, m.topology.hasNode id = true) :
    m.actAll ctx b =
      (b.frontier.mapM (m.answer ctx b.store)).map fun results =>
        results.foldl m.absorb b.store := by
  obtain ⟨nodes, hnodes, -⟩ := exists_nodes_of_known hknown
  rw [mapM_answer (mapM_nodeOf_eq_ok_iff.mp hnodes)]
  unfold actAll
  simp only [hnodes, bind, Except.bind]
  cases nodes.mapM (output ctx b.store) <;> rfl

/-- The writes of a superstep that succeeds, whatever its frontier. -/
theorem actAll_eq_ok_iff {b : Boundary} {merged : Store} :
    m.actAll ctx b = .ok merged ↔
      ∃ results, b.frontier.mapM (m.answer ctx b.store) = .ok results ∧
        merged = results.foldl m.absorb b.store := by
  constructor
  · intro h
    obtain ⟨nodes, hnodes, hrest⟩ := Traversal.bind_eq_ok_iff.mp h
    obtain ⟨updates, hupdates, hmerged⟩ := Traversal.bind_eq_ok_iff.mp hrest
    refine ⟨nodes.zip updates, ?_, (Except.ok.inj hmerged).symm⟩
    rw [mapM_answer (mapM_nodeOf_eq_ok_iff.mp hnodes), hupdates]
    rfl
  · intro h
    obtain ⟨results, hresults, rfl⟩ := h
    have hknown : ∀ id ∈ b.frontier, m.topology.hasNode id = true := by
      intro id hid
      obtain ⟨⟨node, update⟩, -, hanswer⟩ := Traversal.exists_answer hresults hid
      exact hasNode_of_node? (answer_eq_ok_iff.mp hanswer).1
    rw [actAll_eq_of_known hknown, hresults]
    rfl

end Machine

end FlowGraph
