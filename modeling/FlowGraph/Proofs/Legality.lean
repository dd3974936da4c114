import FlowGraph.Draft
import Mathlib.Data.List.Nodup
import Mathlib.Tactic.MkIffOfInductiveProp
import Mathlib.Tactic.Tauto
import FlowGraph.Proofs.Traversal

/-!
# Legal structures and closed structures

The calls of a draft are checked one at a time, each against what is there
already; compiling checks what is there at the end.  Here both checks are put
without an order: a structure is **legal** if it could have been built, and
**closed** if everything that it mentions is there.

* `legal_extend_iff`: a call is accepted iff its addition is legal.
* `applyAll_eq_ok_iff`: **a list of calls is accepted iff it is legal as a
  whole**, so the order of the calls never decides.
* `legal_attemptAll`: whatever calls are tried, the draft stays legal.
* `compile_eq_ok_iff_closed`: a draft compiles iff it is closed.
-/

namespace FlowGraph

namespace Topology

variable {γ δ : Type}

/-- The sources that have a router. -/
def routed (t : Topology γ) : List String := t.routers.map Prod.fst

/-- What a structure is like that is built by accepted calls. -/
@[mk_iff]
structure Legal (t : Topology γ) : Prop where
  named : ∀ id ∈ t.nodeIds, Text.isBlank id = false ∧ id ≠ startId ∧ id ≠ endId
  distinct : t.nodeIds.Nodup
  edgesNamed : ∀ edge ∈ t.edges, Text.isBlank edge.1 = false ∧ Text.isBlank edge.2 = false
  edgesInside : ∀ edge ∈ t.edges, edge.1 ≠ endId ∧ edge.2 ≠ startId
  edgesDistinct : t.edges.Nodup
  routersNamed : ∀ entry ∈ t.routers, Text.isBlank entry.1 = false ∧ entry.1 ≠ endId
  routersLead : ∀ entry ∈ t.routers, entry.2.routes.isEmpty = false
  routersDistinct : t.routed.Nodup
  /-- No source has static edges and a router. -/
  unmixed : ∀ edge ∈ t.edges, edge.1 ∉ t.routed

/-- What a structure is like in which a run finds all it looks for; `stops` are
the nodes to stop before. -/
@[mk_iff]
structure Closed (t : Topology γ) (stops : List String) : Prop where
  entry : (∃ edge ∈ t.edges, edge.1 = startId) ∨ ∃ entry ∈ t.routers, entry.1 = startId
  edges : ∀ edge ∈ t.edges, t.mayBegin edge.1 = true ∧ t.mayEnd edge.2 = true
  routers : ∀ entry ∈ t.routers, t.mayBegin entry.1 = true ∧
    ∀ route ∈ entry.2.routes.fields, t.mayEnd route.2 = true
  stops : ∀ id ∈ stops, t.hasNode id = true

/-- The empty structure is legal. -/
theorem legal_empty : ({} : Topology γ).Legal := by
  constructor <;> simp [nodeIds, routed]

/-- An id is free iff it is not among those of the nodes. -/
theorem hasNode_eq_false_iff (t : Topology γ) (id : String) :
    t.hasNode id = false ↔ id ∉ t.nodeIds := by
  rw [← hasNode_iff, Bool.not_eq_true]

/-- A source is free of routers iff it is not among the routed ones. -/
theorem router?_eq_none_iff (t : Topology γ) (source : String) :
    t.router? source = none ↔ source ∉ t.routed := by
  simp only [router?, routed, Option.map_eq_none_iff, List.find?_eq_none, beq_iff_eq,
    List.mem_map, not_exists, not_and]

/-- An edge may begin at the entry and at nodes. -/
theorem mayBegin_iff (t : Topology γ) (id : String) :
    t.mayBegin id = true ↔ id = startId ∨ id ∈ t.nodeIds := by
  rw [mayBegin, Bool.or_eq_true, beq_iff_eq, hasNode_iff]

/-- An edge may end at the exit and at nodes. -/
theorem mayEnd_iff (t : Topology γ) (id : String) :
    t.mayEnd id = true ↔ id = endId ∨ id ∈ t.nodeIds := by
  rw [mayEnd, Bool.or_eq_true, beq_iff_eq, hasNode_iff]

/-- A router that is found stands in the list under its source. -/
theorem mem_routers_of_router? {t : Topology γ} {source : String} {router : Router}
    (h : t.router? source = some router) : (source, router) ∈ t.routers := by
  obtain ⟨entry, hfind, rfl⟩ := Option.map_eq_some_iff.mp h
  have hsource : entry.1 = source := by simpa using List.find?_some hfind
  rw [← hsource]
  exact List.mem_of_find?_eq_some hfind

/-- The targets of a source are those of its static edges. -/
theorem mem_targets_iff {t : Topology γ} {source target : String} :
    target ∈ t.targets source ↔ (source, target) ∈ t.edges := by
  simp [targets]

/-- Distinct edges give a source distinct targets. -/
theorem nodup_targets {t : Topology γ} (hedges : t.edges.Nodup) (source : String) :
    (t.targets source).Nodup := by
  refine (hedges.filter _).map_on ?_
  intro x hx y hy htarget
  simp only [List.mem_filter, beq_iff_eq] at hx hy
  exact Prod.ext (hx.2.trans hy.2.symm) htarget

/-- Exchanging nested graphs keeps the nodes. -/
@[simp] theorem hasNode_map (f : γ → δ) (t : Topology γ) (id : String) :
    (t.map f).hasNode id = t.hasNode id := by
  rw [Bool.eq_iff_iff, hasNode_iff, hasNode_iff, nodeIds_map]

/-- Exchanging nested graphs keeps where edges may begin. -/
@[simp] theorem mayBegin_map (f : γ → δ) (t : Topology γ) (id : String) :
    (t.map f).mayBegin id = t.mayBegin id := by
  simp [mayBegin]

/-- Exchanging nested graphs keeps where edges may end. -/
@[simp] theorem mayEnd_map (f : γ → δ) (t : Topology γ) (id : String) :
    (t.map f).mayEnd id = t.mayEnd id := by
  simp [mayEnd]

private theorem nodup_snoc_iff {α : Type} {xs : List α} {x : α} :
    (xs ++ [x]).Nodup ↔ xs.Nodup ∧ x ∉ xs := by
  rw [← List.concat_eq_append, List.nodup_concat, and_comm]

/-- **One node more** is legal iff its id is a name, not reserved and free. -/
theorem legal_node_iff (t : Topology γ) (node : Node γ) :
    Legal ⟨t.nodes ++ [node], t.edges, t.routers⟩ ↔
      t.Legal ∧ (Text.isBlank node.id = false ∧ node.id ≠ startId ∧ node.id ≠ endId) ∧
        node.id ∉ t.nodeIds := by
  have hids : nodeIds ⟨t.nodes ++ [node], t.edges, t.routers⟩ = t.nodeIds ++ [node.id] := by
    simp [nodeIds]
  rw [legal_iff, legal_iff, hids, List.forall_mem_append, List.forall_mem_singleton,
    nodup_snoc_iff]
  simp only [routed]
  tauto

/-- **One edge more** is legal iff its ends are names at which it may begin and end, it is new, and
its source has no router. -/
theorem legal_edge_iff (t : Topology γ) (edge : String × String) :
    Legal ⟨t.nodes, t.edges ++ [edge], t.routers⟩ ↔
      t.Legal ∧ (Text.isBlank edge.1 = false ∧ Text.isBlank edge.2 = false) ∧
        (edge.1 ≠ endId ∧ edge.2 ≠ startId) ∧ edge ∉ t.edges ∧ edge.1 ∉ t.routed := by
  rw [legal_iff, legal_iff]
  simp only [List.forall_mem_append, List.forall_mem_singleton, nodup_snoc_iff, nodeIds, routed]
  tauto

/-- **One router more** is legal iff its source is a name that may have one and has neither a router
nor edges, and some label leads somewhere. -/
theorem legal_router_iff (t : Topology γ) (entry : String × Router) :
    Legal ⟨t.nodes, t.edges, t.routers ++ [entry]⟩ ↔
      t.Legal ∧ (Text.isBlank entry.1 = false ∧ entry.1 ≠ endId) ∧
        entry.2.routes.isEmpty = false ∧ entry.1 ∉ t.routed ∧
        ∀ edge ∈ t.edges, edge.1 ≠ entry.1 := by
  have hrouted : routed ⟨t.nodes, t.edges, t.routers ++ [entry]⟩ = t.routed ++ [entry.1] := by
    simp [routed]
  have hunmixed : (∀ edge ∈ t.edges, edge.1 ∉ t.routed ++ [entry.1]) ↔
      (∀ edge ∈ t.edges, edge.1 ∉ t.routed) ∧ ∀ edge ∈ t.edges, edge.1 ≠ entry.1 := by
    simp only [List.mem_append, List.mem_singleton, not_or, forall_and]
  rw [legal_iff, legal_iff, hrouted, hunmixed, List.forall_mem_append, List.forall_mem_append,
    List.forall_mem_singleton, List.forall_mem_singleton, nodup_snoc_iff]
  simp only [nodeIds]
  tauto

/-- What stands behind the nodes has no part in being closed. -/
theorem Closed.map {t : Topology γ} {stops : List String} (h : t.Closed stops) (f : γ → δ) :
    (t.map f).Closed stops where
  entry := h.entry
  edges := by simpa using h.edges
  routers := by simpa using h.routers
  stops := by simpa using h.stops

end Topology

namespace Draft

/-! ## What calls add -/

/-- The node that a call adds. -/
def Call.nodes : Call → List (Node Graph)
  | .node id body => [⟨id, body⟩]
  | _ => []

/-- The static edge that a call adds. -/
def Call.edges : Call → List (String × String)
  | .edge source target => [(source, target)]
  | _ => []

/-- The router that a call adds. -/
def Call.routers : Call → List (String × Router)
  | .router source entry => [(source, entry)]
  | _ => []

/-- The draft with the additions of a list of calls, made without any check. -/
def extendAll (draft : Draft) (calls : List Call) : Draft := calls.foldl extend draft

/-- An addition goes to the end of its list. -/
theorem topology_extend (draft : Draft) (call : Call) :
    (draft.extend call).topology =
      ⟨draft.topology.nodes ++ call.nodes, draft.topology.edges ++ call.edges,
        draft.topology.routers ++ call.routers⟩ := by
  cases call <;> simp [extend, Call.nodes, Call.edges, Call.routers]

/-- An addition changes the structure of a draft and nothing else. -/
theorem extend_eq (draft : Draft) (call : Call) :
    draft.extend call = { draft with topology := (draft.extend call).topology } := by
  cases call <;> rfl

/-- Calls only ever add at the ends of the lists. -/
theorem extendAll_eq (draft : Draft) (calls : List Call) :
    draft.extendAll calls =
      { draft with
        topology :=
          ⟨draft.topology.nodes ++ calls.flatMap Call.nodes,
            draft.topology.edges ++ calls.flatMap Call.edges,
            draft.topology.routers ++ calls.flatMap Call.routers⟩ } := by
  induction calls generalizing draft with
  | nil => simp [extendAll]
  | cons call rest ih =>
      have hstep : draft.extendAll (call :: rest) = (draft.extend call).extendAll rest := rfl
      rw [hstep, ih, extend_eq draft call, topology_extend]
      simp

/-! ## One call -/

/-- **A call is accepted iff its addition is legal**, on a draft that is legal
before; and nothing illegal can be mended by an addition. -/
theorem legal_extend_iff (draft : Draft) (call : Call) :
    (draft.extend call).topology.Legal ↔
      draft.topology.Legal ∧ ∀ rule ∈ draft.rules call, rule.1 = false := by
  cases call with
  | node id body =>
      have hrules : (∀ rule ∈ draft.rules (.node id body), rule.1 = false) ↔
          (Text.isBlank id = false ∧ id ≠ startId ∧ id ≠ endId) ∧
            id ∉ draft.topology.nodeIds := by
        simp [rules, nodeRules, Topology.hasNode_eq_false_iff, and_assoc]
      rw [hrules]
      exact Topology.legal_node_iff draft.topology ⟨id, body⟩
  | edge source target =>
      have hrules : (∀ rule ∈ draft.rules (.edge source target), rule.1 = false) ↔
          (Text.isBlank source = false ∧ Text.isBlank target = false) ∧
            (source ≠ endId ∧ target ≠ startId) ∧ (source, target) ∉ draft.topology.edges ∧
            source ∉ draft.topology.routed := by
        simp [rules, edgeRules, Topology.router?_eq_none_iff]
      rw [hrules]
      exact Topology.legal_edge_iff draft.topology (source, target)
  | router source router =>
      have hrules : (∀ rule ∈ draft.rules (.router source router), rule.1 = false) ↔
          (Text.isBlank source = false ∧ source ≠ endId) ∧ router.routes.isEmpty = false ∧
            source ∉ draft.topology.routed ∧
            ∀ edge ∈ draft.topology.edges, edge.1 ≠ source := by
        simp [rules, routerRules, Topology.router?_eq_none_iff, and_assoc]
      rw [hrules]
      exact Topology.legal_router_iff draft.topology (source, router)

/-- A call on a legal draft answers with its addition iff that is legal. -/
theorem apply_eq_ok_iff_legal {draft next : Draft} (hlegal : draft.topology.Legal) {call : Call} :
    draft.apply call = .ok next ↔
      (draft.extend call).topology.Legal ∧ next = draft.extend call := by
  rw [apply_eq_ok_iff, legal_extend_iff]
  simp only [hlegal, true_and]

/-! ## Lists of calls -/

/-- What is added to in a legal way was legal. -/
theorem legal_of_legal_extendAll {draft : Draft} {calls : List Call}
    (h : (draft.extendAll calls).topology.Legal) : draft.topology.Legal := by
  induction calls generalizing draft with
  | nil => exact h
  | cons call rest ih => exact ((legal_extend_iff draft call).mp (ih h)).1

/-- **A list of calls is accepted iff it is legal as a whole.**  What is asked
of the whole does not mention the order of the calls. -/
theorem applyAll_eq_ok_iff {draft next : Draft} (hlegal : draft.topology.Legal)
    {calls : List Call} :
    draft.applyAll calls = .ok next ↔
      (draft.extendAll calls).topology.Legal ∧ next = draft.extendAll calls := by
  induction calls generalizing draft with
  | nil =>
      change (Except.ok draft : Except Fault Draft) = .ok next ↔ draft.topology.Legal ∧ next = draft
      simp [hlegal, eq_comm]
  | cons call rest ih =>
      change (draft.apply call >>= fun middle => middle.applyAll rest) = .ok next ↔ _
      rw [Traversal.bind_eq_ok_iff]
      constructor
      · intro h
        obtain ⟨middle, hcall, hrest⟩ := h
        obtain ⟨hmiddle, rfl⟩ := (apply_eq_ok_iff_legal hlegal).mp hcall
        exact (ih hmiddle).mp hrest
      · intro h
        -- an addition mends nothing, so the first call is legal because the whole is
        have hmiddle : (draft.extend call).topology.Legal := legal_of_legal_extendAll h.1
        exact ⟨draft.extend call, (apply_eq_ok_iff_legal hlegal).mpr ⟨hmiddle, rfl⟩,
          (ih hmiddle).mpr h⟩

/-- A draft stays legal, be a call accepted or refused. -/
theorem legal_attempt {draft : Draft} (hlegal : draft.topology.Legal) (call : Call) :
    (draft.attempt call).topology.Legal := by
  unfold attempt
  cases hcall : draft.apply call with
  | error fault => exact hlegal
  | ok next =>
      obtain ⟨hnext, rfl⟩ := (apply_eq_ok_iff_legal hlegal).mp hcall
      exact hnext

/-- **Whatever calls are tried, the draft stays legal**: refused ones leave it
as it is. -/
theorem legal_attemptAll {draft : Draft} (hlegal : draft.topology.Legal) (calls : List Call) :
    (draft.attemptAll calls).topology.Legal := by
  induction calls generalizing draft with
  | nil => exact hlegal
  | cons call rest ih => exact ih (legal_attempt hlegal call)

/-! ## Compiling -/

/-- There is an entry iff a static edge or a router leaves the start. -/
theorem lacksEntry_eq_false_iff (t : Topology Graph) :
    lacksEntry t = false ↔
      (∃ edge ∈ t.edges, edge.1 = startId) ∨ ∃ entry ∈ t.routers, entry.1 = startId := by
  have htargets : (t.targets startId).isEmpty = false ↔ ∃ edge ∈ t.edges, edge.1 = startId := by
    simp [Topology.targets]
  have hrouter : (t.router? startId).isNone = false ↔ ∃ entry ∈ t.routers, entry.1 = startId := by
    simp [Topology.router?]
  rw [lacksEntry, Bool.and_eq_false_iff, htargets, hrouter]

/-- **A draft compiles iff it is closed**, and the graph is the draft with its
options. -/
theorem compile_eq_ok_iff_closed {draft : Draft} {config : CompileConfig} {graph : Graph} :
    draft.compile config = .ok graph ↔
      draft.topology.Closed config.interruptBefore ∧
        graph = ⟨draft.id, draft.keys, draft.topology, config⟩ := by
  have hclosed : (∀ rule ∈ draft.wholeRules config, rule.1 = false) ↔
      draft.topology.Closed config.interruptBefore := by
    rw [Topology.closed_iff]
    simp only [wholeRules, List.forall_mem_cons, List.forall_mem_append, List.forall_mem_flatMap,
      List.forall_mem_map, lacksEntry_eq_false_iff, edgeEndRules, routerEndRules,
      Bool.not_eq_false', List.not_mem_nil, false_implies, implies_true, and_true, and_assoc]
  rw [compile_eq_ok_iff, hclosed]

/-- **A compiled graph is legal and closed**, whatever calls built it. -/
theorem legal_closed_of_compile {id : String} {keys : KeyTable} {calls : List Call}
    {config : CompileConfig} {graph : Graph}
    (h : (attemptAll { id, keys } calls).compile config = .ok graph) :
    graph.topology.Legal ∧ graph.topology.Closed config.interruptBefore := by
  obtain ⟨hclosed, rfl⟩ := compile_eq_ok_iff_closed.mp h
  have hempty : (Draft.mk id keys {}).topology.Legal := Topology.legal_empty
  exact ⟨legal_attemptAll hempty calls, hclosed⟩

end Draft

end FlowGraph
