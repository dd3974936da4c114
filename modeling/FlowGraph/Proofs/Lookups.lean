import FlowGraph.Graph
import Mathlib.Data.List.Nodup
import Mathlib.Data.List.Perm.Basic

/-!
# What a run looks up

A run asks a structure three things: which node has an id, where the static
edges of a source lead, and which router a source has.  The lists in which
nodes, edges and routers stand matter no further, so graphs that answer these
questions alike run alike.  And if ids and sources are distinct, the lists may
be put in another order without any change to the answers.

* `Topology.node?_eq_of_perm`, `Topology.router?_eq_of_perm`: **the first match
  is the only one.**
* `Table.ofList_eq_of_perm`: distinct fields make one table in any order.
* `Machine.InStep.run_eq`: what is the same in every step is the same in a run.
* `Machine.Alike.run_eq`: **what answers alike runs alike.**
-/

namespace FlowGraph

/-! ## Lists in another order -/

namespace Lookup

variable {α β : Type}

/-- Of elements with distinct keys one is found under its key. -/
theorem find?_eq_some_iff {key : α → String} {xs : List α} (hdistinct : (xs.map key).Nodup)
    {id : String} {x : α} : xs.find? (fun y => key y == id) = some x ↔ x ∈ xs ∧ key x = id := by
  constructor
  · intro h
    exact ⟨List.mem_of_find?_eq_some h, by simpa using List.find?_some h⟩
  · intro h
    obtain ⟨hx, hkey⟩ := h
    have hsome : (xs.find? fun y => key y == id).isSome = true :=
      List.find?_isSome.mpr ⟨x, hx, by simpa using hkey⟩
    obtain ⟨y, hfound⟩ := Option.isSome_iff_exists.mp hsome
    have hy : y ∈ xs := List.mem_of_find?_eq_some hfound
    have hsame : key y = id := by simpa using List.find?_some hfound
    rw [hfound, List.inj_on_of_nodup_map hdistinct hy hx (hsame.trans hkey.symm)]

/-- **The first match is the only one**, so the order does not decide. -/
theorem find?_eq_of_perm {key : α → String} {xs ys : List α} (hperm : xs.Perm ys)
    (hdistinct : (xs.map key).Nodup) (id : String) :
    xs.find? (fun y => key y == id) = ys.find? (fun y => key y == id) := by
  have hdistinct' : (ys.map key).Nodup := (hperm.map key).nodup_iff.mp hdistinct
  refine Option.ext fun x => ?_
  rw [find?_eq_some_iff hdistinct, find?_eq_some_iff hdistinct', hperm.mem_iff]

/-- Parts of which one at most has elements are put together alike in any order. -/
theorem flatMap_eq_of_perm {f : α → List β} {xs ys : List α} (hperm : xs.Perm ys)
    (hsingle : xs.Pairwise fun x y => f x = [] ∨ f y = []) : xs.flatMap f = ys.flatMap f := by
  induction hperm with
  | nil => rfl
  | cons x _ ih =>
      rw [List.flatMap_cons, List.flatMap_cons, ih (List.pairwise_cons.mp hsingle).2]
  | swap x y rest =>
      obtain ⟨hhead, -⟩ := List.pairwise_cons.mp hsingle
      simp only [List.flatMap_cons]
      rcases hhead x List.mem_cons_self with hy | hx
      · rw [hy, List.nil_append, List.nil_append]
      · rw [hx, List.nil_append, List.nil_append]
  | trans hfirst _ ih ih' =>
      have hmiddle := hfirst.pairwise hsingle fun h => h.symm
      exact (ih hsingle).trans (ih' hmiddle)

/-- Elements with nothing to add may be left out. -/
theorem flatMap_filter_eq {f : α → List β} {p : α → Bool} {xs : List α}
    (hnone : ∀ x ∈ xs, p x = false → f x = []) : (xs.filter p).flatMap f = xs.flatMap f := by
  induction xs with
  | nil => rfl
  | cons x rest ih =>
      obtain ⟨hhead, hrest⟩ := List.forall_mem_cons.mp hnone
      cases hx : p x with
      | true => rw [List.filter_cons_of_pos hx, List.flatMap_cons, List.flatMap_cons, ih hrest]
      | false =>
          have hskip : (x :: rest).filter p = rest.filter p :=
            List.filter_cons_of_neg (by simp [hx])
          rw [hskip, List.flatMap_cons, hhead hx, List.nil_append, ih hrest]

/-- A list of one element at most has one order. -/
theorem eq_of_perm_of_length_le_one {xs ys : List α} (hperm : xs.Perm ys)
    (hlength : xs.length ≤ 1) : xs = ys := by
  cases xs with
  | nil => exact hperm.nil_eq
  | cons x rest =>
      have hrest : rest = [] := by
        rw [List.length_cons] at hlength
        exact List.length_eq_zero_iff.mp (by omega)
      rw [hrest] at hperm ⊢
      exact (List.perm_singleton.mp hperm.symm).symm

end Lookup

/-- Writes to different keys can change places. -/
theorem Table.insert_comm {α : Type} (table : Table α) {k k' : String} (hne : k ≠ k') (v v' : α) :
    (table.insert k v).insert k' v' = (table.insert k' v').insert k v := by
  refine Table.ext_get? fun key => ?_
  rw [get?_insert, get?_insert, get?_insert, get?_insert]
  by_cases hk : k = key
  · have hk' : k' ≠ key := fun h => hne (hk.trans h.symm)
    simp [hk, hk']
  · simp [hk]

/-- **Distinct fields make one table**, in any order. -/
theorem Table.ofList_eq_of_perm {α : Type} {fields fields' : List (String × α)}
    (hperm : fields.Perm fields') (hdistinct : (fields.map Prod.fst).Nodup) :
    Table.ofList fields = Table.ofList fields' := by
  refine hperm.foldl_eq' ?_ Table.empty
  intro field hfield field' hfield' table
  by_cases hsame : field.1 = field'.1
  · rw [List.inj_on_of_nodup_map hdistinct hfield hfield' hsame]
  · exact insert_comm table hsame field.2 field'.2

namespace Topology

variable {γ : Type} {t t' : Topology γ}

/-- Nodes with distinct ids are found in any order. -/
theorem node?_eq_of_perm (hperm : t.nodes.Perm t'.nodes) (hdistinct : t.nodeIds.Nodup)
    (id : String) : t.node? id = t'.node? id :=
  Lookup.find?_eq_of_perm hperm hdistinct id

/-- Routers of distinct sources are found in any order. -/
theorem router?_eq_of_perm (hperm : t.routers.Perm t'.routers)
    (hdistinct : (t.routers.map Prod.fst).Nodup) (source : String) :
    t.router? source = t'.router? source := by
  unfold router?
  rw [Lookup.find?_eq_of_perm hperm hdistinct source]

end Topology

/-! ## Machines in step -/

/-- Two machines, each in a context of its own, have the same keys and options
and make the same of every store and every boundary. -/
structure Machine.InStep (m : Machine) (ctx : RunConfig) (m' : Machine) (ctx' : RunConfig) :
    Prop where
  keys : m.keys = m'.keys
  config : m.config = m'.config
  successors : ∀ source store, m.successors ctx source store = m'.successors ctx' source store
  actAll : ∀ b, m.actAll ctx b = m'.actAll ctx' b

namespace Machine.InStep

variable {m m' : Machine} {ctx ctx' : RunConfig}

/-- Machines in step lead on alike. -/
theorem routeAll_eq (h : m.InStep ctx m' ctx') (ids next : List String) (store : Store) :
    m.routeAll ctx ids next store = m'.routeAll ctx' ids next store := by
  induction ids generalizing next store with
  | nil => rfl
  | cons id rest ih =>
      rw [routeAll, routeAll, h.successors id store]
      cases m'.successors ctx' id store with
      | error fault => rfl
      | ok result =>
          obtain ⟨targets, after⟩ := result
          exact ih (addNew next targets) after

/-- One superstep leads to the same boundary, or to the same fault. -/
theorem advance_eq (h : m.InStep ctx m' ctx') (b : Boundary) :
    m.advance ctx b = m'.advance ctx' b := by
  have hroute : m.routeAll ctx b.frontier [] = m'.routeAll ctx' b.frontier [] :=
    funext (h.routeAll_eq b.frontier [])
  unfold advance
  rw [h.actAll b, hroute]

/-- Machines in step end at the same boundaries. -/
theorem halts_eq (h : m.InStep ctx m' ctx') (b : Boundary) : m.halts b = m'.halts b := by
  unfold halts interrupts
  rw [h.config]

/-- Machines in step go on alike from every boundary. -/
theorem loop_eq (h : m.InStep ctx m' ctx') (budget : Nat) (b : Boundary) :
    m.loop ctx budget b = m'.loop ctx' budget b := by
  induction budget generalizing b with
  | zero => rw [loop, loop, h.halts_eq b, h.config]
  | succ budget ih =>
      have hrest : m.loop ctx budget = m'.loop ctx' budget := funext ih
      have hhalts := h.halts_eq b
      cases hb : m.halts b with
      | true =>
          rw [hb] at hhalts
          rw [loop_of_halts m ctx _ hb, loop_of_halts m' ctx' _ hhalts.symm]
      | false =>
          rw [hb] at hhalts
          rw [loop_succ m ctx _ hb, loop_succ m' ctx' _ hhalts.symm, h.advance_eq b, hrest]

/-- **Machines in step run alike**: on all inputs, to the same store or the same
fault. -/
theorem run_eq (h : m.InStep ctx m' ctx') (inputs : Store) :
    m.run inputs ctx = m'.run inputs ctx' := by
  have henter : m.enter ctx inputs = m'.enter ctx' inputs := by
    unfold enter
    rw [h.keys, h.successors startId]
  unfold run
  rw [henter, h.config]
  cases m'.enter ctx' inputs with
  | error fault => rfl
  | ok b => exact h.loop_eq m'.config.maxSteps b

end Machine.InStep

/-! ## Machines that answer alike -/

/-- Two machines have the same keys and options, and the same answers to
whatever a run looks up. -/
structure Machine.Alike (m m' : Machine) : Prop where
  keys : m.keys = m'.keys
  config : m.config = m'.config
  node : ∀ id, m.topology.node? id = m'.topology.node? id
  targets : ∀ source, m.topology.targets source = m'.topology.targets source
  router : ∀ source, m.topology.router? source = m'.topology.router? source

namespace Machine.Alike

variable {m m' : Machine}

/-- Machines that are alike lead to the same nodes. -/
theorem successors_eq (h : m.Alike m') (ctx : RunConfig) (source : String) (store : Store) :
    m.successors ctx source store = m'.successors ctx source store := by
  unfold successors
  rw [h.router source, h.targets source, h.keys]

/-- The nodes of a frontier act alike in machines that are alike. -/
theorem actAll_eq (h : m.Alike m') (ctx : RunConfig) (b : Boundary) :
    m.actAll ctx b = m'.actAll ctx b := by
  have hnode : m.nodeOf = m'.nodeOf := by
    funext id
    unfold nodeOf
    rw [h.node id]
  have habsorb : m.absorb = m'.absorb := by
    funext store result
    unfold absorb rulesFor
    rw [h.keys]
  unfold actAll
  rw [hnode, habsorb]

/-- Machines that are alike are in step, in any context. -/
theorem inStep (h : m.Alike m') (ctx : RunConfig) : m.InStep ctx m' ctx :=
  ⟨h.keys, h.config, h.successors_eq ctx, h.actAll_eq ctx⟩

/-- **What answers alike runs alike**: on all inputs, to the same store or the
same fault. -/
theorem run_eq (h : m.Alike m') (inputs : Store) (ctx : RunConfig) :
    m.run inputs ctx = m'.run inputs ctx := (h.inStep ctx).run_eq inputs

end Machine.Alike

/-- Graphs with the same keys and options, and the same answers to whatever a
run looks up, run alike. -/
theorem Graph.run_eq_of_lookups {graph graph' : Graph} (hkeys : graph.keys = graph'.keys)
    (hconfig : graph.config = graph'.config)
    (hnode : ∀ id, graph.topology.node? id = graph'.topology.node? id)
    (htargets : ∀ source, graph.topology.targets source = graph'.topology.targets source)
    (hrouter : ∀ source, graph.topology.router? source = graph'.topology.router? source)
    (inputs : Store) (ctx : RunConfig) : graph.run inputs ctx = graph'.run inputs ctx := by
  have halike : graph.machine.Alike graph'.machine := by
    refine ⟨hkeys, hconfig, ?_, htargets, hrouter⟩
    intro id
    rw [machine_node?, machine_node?, hnode id]
  rw [run_eq, run_eq]
  exact halike.run_eq inputs ctx

end FlowGraph
