import FlowGraph.Proofs.Legality
import FlowGraph.Proofs.Writes

/-!
# A single writer among nested graphs

A nested graph hands back its whole store, and what it hands back replaces what
is there.  So the write of a node may be lost in a superstep in which nobody
else writes the key: a nested graph that comes later in the frontier puts back
the value that it was given.

* `Machine.get?_foldl_absorb`: a key that only nested graphs hand back.
* `lone_write_survives_iff`: **exactly when the write of a single writer stays.**
* `not_every_lone_write_stays`: a superstep that loses one.
-/

namespace FlowGraph

namespace Machine

variable {m : Machine} {ctx : RunConfig} {key : String}

/-- What a node's write makes of a value: the store of a nested graph replaces
it, and any other update is written under the rule of the key. -/
def written (m : Machine) (node : Node Runner) (key : String) (current : Option Json)
    (value : Json) : Json :=
  if node.body.isSubgraph then value else (KeyTable.rule m.keys key).apply current value

/-- The value of a key that a node hands back, if it is a nested graph. -/
def handedBack (m : Machine) (ctx : RunConfig) (store : Store) (key id : String) : Option Json :=
  match m.answer ctx store id with
  | .ok (node, update) => if node.body.isSubgraph then Table.get? update key else none
  | .error _ => none

/-- The value that the last of some nodes hands back. -/
def lastHandedBack (m : Machine) (ctx : RunConfig) (store : Store) (key : String)
    (ids : List String) : Option Json :=
  ids.reverse.findSome? (m.handedBack ctx store key)

/-- Of some nodes a later one is asked first for what it hands back. -/
theorem lastHandedBack_cons (store : Store) (id : String) (ids : List String) :
    m.lastHandedBack ctx store key (id :: ids) =
      (m.lastHandedBack ctx store key ids).or (m.handedBack ctx store key id) := by
  unfold lastHandedBack
  rw [List.reverse_cons, List.findSome?_append]
  congr 1
  rw [List.findSome?_cons]
  cases m.handedBack ctx store key id <;> rfl

/-- A key of an update gets what the node's write makes of its value. -/
theorem get?_absorb_of_value (store : Store) {node : Node Runner} {update : Update}
    {value : Json} (h : Table.get? update key = some value) :
    Table.get? (m.absorb store (node, update)) key =
      some (m.written node key (Table.get? store key) value) := by
  unfold absorb written rulesFor
  cases node.body.isSubgraph with
  | true =>
      simp only [if_true]
      rw [Store.get?_update_empty, h]
      rfl
  | false =>
      simp only [Bool.false_eq_true, if_false]
      rw [Store.get?_update, h]

/-- **A key that only nested graphs hand back** has, after the writes of a
superstep, the value that the last of them hands back. -/
theorem get?_foldl_absorb {snapshot : Store} {ids : List String}
    {results : List (Node Runner × Update)}
    (hresults : ids.mapM (m.answer ctx snapshot) = .ok results)
    (hsilent : ∀ result ∈ results, result.1.body.isSubgraph = false →
      Table.get? result.2 key = none) (store : Store) :
    Table.get? (results.foldl m.absorb store) key =
      (m.lastHandedBack ctx snapshot key ids).or (Table.get? store key) := by
  induction Traversal.mapM_eq_ok_iff.mp hresults generalizing store with
  | nil => rfl
  | @cons id result ids results hanswer htail ih =>
      obtain ⟨node, update⟩ := result
      obtain ⟨hhead, hrest⟩ := List.forall_mem_cons.mp hsilent
      rw [List.foldl_cons, ih (Traversal.mapM_eq_ok_iff.mpr htail) hrest, lastHandedBack_cons,
        Option.or_assoc]
      congr 1
      unfold handedBack
      rw [hanswer]
      simp only
      cases hown : node.body.isSubgraph with
      | true =>
          simp only [if_true, absorb, rulesFor, hown]
          exact Store.get?_update_empty store update key
      | false =>
          have hnone : Table.get? update key = none := hhead hown
          simp only [Bool.false_eq_true, if_false, absorb, rulesFor, hown]
          rw [Store.get?_update, hnone]
          rfl

end Machine

namespace Graph

variable {graph : Graph} {ctx : RunConfig} {key : String}

/-- A node of a superstep writes a key: in its own update, or in a graph that
is nested in it. -/
inductive NodeWrites (graph : Graph) (ctx : RunConfig) (key : String) (store : Store)
    (id : String) : Prop
  | own {node : Node Runner} {update : Update}
      (hanswer : graph.machine.answer ctx store id = .ok (node, update))
      (hown : node.body.isSubgraph = false) (hkey : Table.get? update key ≠ none) :
      NodeWrites graph ctx key store id
  | nested {child : Graph} (hnode : graph.topology.node? id = some ⟨id, .subgraph child⟩)
      (hchild : Writes ctx key child store) : NodeWrites graph ctx key store id

/-- A nested graph stands behind an id. -/
def NestedAt (graph : Graph) (id : String) : Prop :=
  ∃ child, graph.topology.node? id = some ⟨id, .subgraph child⟩

/-- A node that writes a key has it in its answer. -/
theorem NodeWrites.has {store : Store} {id : String} {node : Node Runner} {update : Update}
    (h : graph.NodeWrites ctx key store id)
    (hanswer : graph.machine.answer ctx store id = .ok (node, update)) :
    ∃ value, Table.get? update key = some value := by
  rw [← Option.ne_none_iff_exists']
  cases h with
  | own hanswer' _ hkey =>
      cases hanswer.symm.trans hanswer'
      exact hkey
  | nested hnode hchild => exact has_of_writes hchild (answer_nested hnode hanswer).2

/-- What a nested graph that does not write a key hands back was carried. -/
theorem carries_of_not_nodeWrites {store : Store} {id : String} {node : Node Runner}
    {update : Update} (hanswer : graph.machine.answer ctx store id = .ok (node, update))
    (hnot : ¬ graph.NodeWrites ctx key store id) :
    if node.body.isSubgraph then Carries (Table.get? store key) (Table.get? update key)
    else Table.get? update key = none := by
  rcases answer_cases hanswer with hown | ⟨child, hnode, hsub, hrun⟩
  · rw [hown]
    simp only [Bool.false_eq_true, if_false]
    by_contra hkey
    exact hnot (.own hanswer hown hkey)
  · rw [hsub]
    simp only [if_true]
    refine carries_of_not_writes child store update hrun ?_
    intro hchild
    exact hnot (.nested hnode hchild)

/-- Where nobody writes a key, what nested graphs hand back of it was carried. -/
theorem lastHandedBack_carries {store : Store} {ids : List String} {value : Json}
    (hnot : ∀ id ∈ ids, ¬ graph.NodeWrites ctx key store id)
    (h : graph.machine.lastHandedBack ctx store key ids = some value) :
    Carries (Table.get? store key) (some value) := by
  obtain ⟨id, hid, hback⟩ := List.exists_of_findSome?_eq_some h
  have hquiet := hnot id (List.mem_reverse.mp hid)
  unfold Machine.handedBack at hback
  cases hanswer : graph.machine.answer ctx store id with
  | error fault => simp [hanswer] at hback
  | ok answer =>
      obtain ⟨node, update⟩ := answer
      have hcarries := carries_of_not_nodeWrites hanswer hquiet
      cases hsub : node.body.isSubgraph with
      | false => simp [hanswer, hsub] at hback
      | true =>
          simp only [hanswer, hsub, if_true] at hback hcarries
          rw [← hback]
          exact hcarries

/-- Without nested graphs nothing is handed back. -/
theorem lastHandedBack_eq_none {store : Store} {ids : List String}
    (h : ∀ id ∈ ids, ¬ graph.NestedAt id) :
    graph.machine.lastHandedBack ctx store key ids = none := by
  refine List.findSome?_eq_none_iff.mpr ?_
  intro id hid
  unfold Machine.handedBack
  cases hanswer : graph.machine.answer ctx store id with
  | error fault => rfl
  | ok answer =>
      obtain ⟨node, update⟩ := answer
      rcases answer_cases hanswer with hown | ⟨child, hnode, -, -⟩
      · simp [hown]
      · exact absurd ⟨child, hnode⟩ (h id (List.mem_reverse.mp hid))

/-- A nested graph hands back every key that it is given. -/
theorem lastHandedBack_ne_none {store : Store} {ids : List String}
    {results : List (Node Runner × Update)}
    (hresults : ids.mapM (graph.machine.answer ctx store) = .ok results)
    (hkey : Table.get? store key ≠ none) {id : String} (hid : id ∈ ids)
    (hnested : graph.NestedAt id) :
    graph.machine.lastHandedBack ctx store key ids ≠ none := by
  intro hnone
  have hback := List.findSome?_eq_none_iff.mp hnone id (List.mem_reverse.mpr hid)
  obtain ⟨child, hnode⟩ := hnested
  obtain ⟨⟨node, update⟩, -, hanswer⟩ := Traversal.exists_answer hresults hid
  obtain ⟨hsub, hrun⟩ := answer_nested hnode hanswer
  unfold Machine.handedBack at hback
  simp only [hanswer, hsub, if_true] at hback
  exact run_covers hrun key hkey hback

/-- **What a superstep makes of the key of its single writer.**  Nested graphs
that come earlier may have turned the value into an array, and nested graphs
that come later put back what they were given. -/
theorem get?_merged_of_lone {b : Boundary} {merged : Store} {front back : List String}
    {id : String} (hmerged : graph.machine.actAll ctx b = .ok merged)
    (hfrontier : b.frontier = front ++ id :: back)
    (hwrites : graph.NodeWrites ctx key b.store id)
    (hlone : ∀ other ∈ front ++ back, ¬ graph.NodeWrites ctx key b.store other) :
    ∃ node update value, graph.machine.answer ctx b.store id = .ok (node, update) ∧
      Table.get? update key = some value ∧
      Table.get? merged key = (graph.machine.lastHandedBack ctx b.store key back).or
        (some (graph.machine.written node key
          ((graph.machine.lastHandedBack ctx b.store key front).or (Table.get? b.store key))
          value)) := by
  obtain ⟨results, hresults, hfold⟩ := Machine.actAll_eq_ok_iff.mp hmerged
  rw [hfrontier] at hresults
  obtain ⟨before, ⟨node, update⟩, after, hbefore, hanswer, hafter, hsplit⟩ :=
    Traversal.mapM_split hresults
  obtain ⟨value, hvalue⟩ := hwrites.has hanswer
  have hsilent : ∀ (ids : List String) results,
      ids.mapM (graph.machine.answer ctx b.store) = .ok results →
      (∀ other ∈ ids, other ∈ front ++ back) →
      ∀ result ∈ results, result.1.body.isSubgraph = false → Table.get? result.2 key = none := by
    intro ids results hwalk hsub result hresult hown
    obtain ⟨other, hother, hthis⟩ := Traversal.exists_asked hwalk hresult
    have hquiet := carries_of_not_nodeWrites hthis (hlone other (hsub other hother))
    simpa [hown] using hquiet
  refine ⟨node, update, value, hanswer, hvalue, ?_⟩
  rw [hfold, hsplit, List.foldl_append, List.foldl_cons]
  rw [Machine.get?_foldl_absorb hafter
    (hsilent back after hafter fun _ => List.mem_append_right front)]
  rw [Machine.get?_absorb_of_value _ hvalue]
  rw [Machine.get?_foldl_absorb hbefore
    (hsilent front before hbefore fun _ => List.mem_append_left back)]

/-- **Exactly when the write of a single writer stays.**  A node of a superstep
writes a key that no other node writes.  What its write makes of the value
before is there after the superstep's writes in three cases only: the store had
no value to carry; or no nested graph comes later in the frontier, and what the
earlier ones make of the value does not matter to the write; or the value that
a later nested graph puts back is the written one by chance.  What nested graphs
put back was carried. -/
theorem lone_write_survives_iff {b : Boundary} {merged : Store} {front back : List String}
    {id : String} (hmerged : graph.machine.actAll ctx b = .ok merged)
    (hfrontier : b.frontier = front ++ id :: back)
    (hwrites : graph.NodeWrites ctx key b.store id)
    (hlone : ∀ other ∈ front ++ back, ¬ graph.NodeWrites ctx key b.store other) :
    ∃ node update value, graph.machine.answer ctx b.store id = .ok (node, update) ∧
      Table.get? update key = some value ∧
      (Table.get? merged key =
          some (graph.machine.written node key (Table.get? b.store key) value) ↔
        Table.get? b.store key = none ∨
        ((∀ other ∈ back, ¬ graph.NestedAt other) ∧
          graph.machine.written node key
              ((graph.machine.lastHandedBack ctx b.store key front).or (Table.get? b.store key))
              value =
            graph.machine.written node key (Table.get? b.store key) value) ∨
        graph.machine.lastHandedBack ctx b.store key back =
          some (graph.machine.written node key (Table.get? b.store key) value)) ∧
      ∀ ids carried, ids = front ∨ ids = back →
        graph.machine.lastHandedBack ctx b.store key ids = some carried →
        Carries (Table.get? b.store key) (some carried) := by
  obtain ⟨node, update, value, hanswer, hvalue, hkey⟩ :=
    get?_merged_of_lone hmerged hfrontier hwrites hlone
  have hfront : ∀ other ∈ front, ¬ graph.NodeWrites ctx key b.store other :=
    fun other hother => hlone other (List.mem_append_left back hother)
  have hback : ∀ other ∈ back, ¬ graph.NodeWrites ctx key b.store other :=
    fun other hother => hlone other (List.mem_append_right front hother)
  have hcarried : ∀ ids carried, ids = front ∨ ids = back →
      graph.machine.lastHandedBack ctx b.store key ids = some carried →
      Carries (Table.get? b.store key) (some carried) := by
    intro ids carried hids hlast
    rcases hids with hids | hids
    · rw [hids] at hlast
      exact lastHandedBack_carries hfront hlast
    · rw [hids] at hlast
      exact lastHandedBack_carries hback hlast
  refine ⟨node, update, value, hanswer, hvalue, ?_, hcarried⟩
  rw [hkey]
  constructor
  · intro hstays
    -- only a nested graph behind the node can put an earlier value back
    by_cases hnested : ∀ other ∈ back, ¬ graph.NestedAt other
    · rw [lastHandedBack_eq_none hnested, Option.none_or] at hstays
      exact Or.inr (Or.inl ⟨hnested, Option.some.inj hstays⟩)
    · by_cases hsnapshot : Table.get? b.store key = none
      · exact Or.inl hsnapshot
      · -- a later nested graph was given a value, so it puts one back
        obtain ⟨results, hresults, -⟩ := Machine.actAll_eq_ok_iff.mp hmerged
        rw [hfrontier] at hresults
        obtain ⟨-, -, after, -, -, hafter, -⟩ := Traversal.mapM_split hresults
        simp only [not_forall, not_not] at hnested
        obtain ⟨other, hother, hnested⟩ := hnested
        have hsome := lastHandedBack_ne_none hafter hsnapshot hother hnested
        obtain ⟨carried, hlast⟩ := Option.ne_none_iff_exists'.mp hsome
        rw [hlast, Option.some_or] at hstays
        rw [hlast]
        exact Or.inr (Or.inr hstays)
  · intro hcases
    rcases hcases with hsnapshot | ⟨hnested, hsame⟩ | hlast
    · have hnothing : ∀ ids, ids = front ∨ ids = back →
          graph.machine.lastHandedBack ctx b.store key ids = none := by
        intro ids hids
        cases hlast : graph.machine.lastHandedBack ctx b.store key ids with
        | none => rfl
        | some carried =>
            have hnone := hcarried ids carried hids hlast
            rw [hsnapshot] at hnone
            exact absurd hnone.eq_none (by simp)
      rw [hnothing front (Or.inl rfl), hnothing back (Or.inr rfl), Option.none_or, Option.none_or]
    · rw [lastHandedBack_eq_none hnested, hsame, Option.none_or]
    · rw [hlast, Option.some_or]

/-! ## A nested graph beside a writer -/

/-- A graph that does nothing. -/
def idle : Graph where
  id := "idle"
  keys := .empty
  topology :=
    { nodes := [⟨"rest", .action fun _ _ => .ok .empty⟩]
      edges := [(startId, "rest"), ("rest", endId)] }
  config := {}

/-- A graph that does nothing under the given rules. -/
def idleUnder (keys : KeyTable) : Graph := { idle with keys }

/-- A graph that does nothing writes nothing, whatever its rules. -/
theorem idleUnder_writes_nothing (keys : KeyTable) (store : Store) :
    ¬ Writes ctx key (idleUnder keys) store := by
  intro h
  cases h with
  | entry hrouter => cases hrouter
  | action hsteps hid hanswer hown hkey =>
      obtain ⟨hnode, hact⟩ := Machine.answer_eq_ok_iff.mp hanswer
      have hmem := Machine.mem_of_node? hnode
      rw [List.mem_singleton.mp hmem] at hact
      cases hact
      exact hkey rfl
  | nested hsteps hid hnode hchild =>
      have hmem := Machine.mem_of_node? hnode
      cases List.mem_singleton.mp hmem
  | router hsteps hfrontier hmerged hearlier hrouter hchoose hkey => cases hrouter

theorem idle_writes_nothing (store : Store) : ¬ Writes ctx key idle store :=
  idleUnder_writes_nothing .empty store

/-- A writer and a nested graph that does nothing, entered in the given order. -/
def besideIdle (first second : String) : Graph where
  id := "beside"
  keys := .empty
  topology :=
    { nodes :=
        [⟨"writer", .action fun _ _ => .ok (.ofList [("k", .bool true)])⟩,
         ⟨"inner", .subgraph idle⟩]
      edges := [(startId, first), (startId, second)] }
  config := {}

/-- A store that has the key already. -/
def besideStore : Store := .ofList [("k", .bool false)]

/-- Neither does the node that it stands in. -/
theorem inner_writes_nothing (first second : String) (store : Store) :
    ¬ (besideIdle first second).NodeWrites ctx key store "inner" := by
  have hinner : (besideIdle first second).topology.node? "inner" =
      some ⟨"inner", .subgraph idle⟩ := rfl
  intro h
  cases h with
  | own hanswer hown _ =>
      rw [(answer_nested hinner hanswer).1] at hown
      cases hown
  | nested hnode hchild =>
      cases hinner.symm.trans hnode
      exact idle_writes_nothing store hchild

theorem writer_answers (first second : String) (store : Store) :
    (besideIdle first second).machine.answer ctx store "writer" =
      .ok (⟨"writer", .action fun _ _ => .ok (.ofList [("k", .bool true)])⟩,
        .ofList [("k", .bool true)]) := rfl

theorem writer_writes (first second : String) (store : Store) :
    (besideIdle first second).NodeWrites ctx "k" store "writer" :=
  .own (writer_answers first second store) rfl (by decide)

/-- A nested graph that comes first does no harm here. -/
theorem write_stays_after_nested_graph :
    (besideIdle "inner" "writer").machine.StepsFrom {} besideStore
        ⟨besideStore, ["inner", "writer"]⟩ ∧
      ∃ merged, (besideIdle "inner" "writer").machine.actAll {}
          ⟨besideStore, ["inner", "writer"]⟩ = .ok merged ∧
        Table.get? merged "k" = some (.bool true) := by
  have hsteps : (besideIdle "inner" "writer").machine.StepsFrom {} besideStore
      ⟨besideStore, ["inner", "writer"]⟩ := ⟨0, .enter rfl, rfl, by decide⟩
  have hmerged : ∃ merged, (besideIdle "inner" "writer").machine.actAll {}
      ⟨besideStore, ["inner", "writer"]⟩ = .ok merged := ⟨_, rfl⟩
  obtain ⟨merged, hmerged⟩ := hmerged
  refine ⟨hsteps, merged, hmerged, ?_⟩
  have hlone : ∀ other ∈ ["inner"] ++ [],
      ¬ (besideIdle "inner" "writer").NodeWrites {} "k" besideStore other := by
    intro other hother
    rw [List.mem_singleton.mp hother]
    exact inner_writes_nothing "inner" "writer" besideStore
  obtain ⟨node, update, value, hanswer, hvalue, hstays, -⟩ :=
    lone_write_survives_iff hmerged rfl (writer_writes "inner" "writer" besideStore) hlone
  cases (writer_answers "inner" "writer" besideStore).symm.trans hanswer
  cases hvalue
  refine hstays.mpr (Or.inr (Or.inl ⟨?_, rfl⟩))
  intro other hother
  cases hother

/-- **The write of a single writer may be lost**: a nested graph that comes later,
and writes nothing, puts back the value from before. -/
theorem not_every_lone_write_stays :
    ¬ ∀ (graph : Graph) (draft : Draft) (calls : List Draft.Call) (config : CompileConfig)
      (ctx : RunConfig) (inputs merged : Store) (b : Boundary) (id other key : String)
      (node : Node Runner) (update : Update) (value : Json),
      draft.topology = {} → (draft.attemptAll calls).compile config = .ok graph →
      graph.machine.StepsFrom ctx inputs b → graph.machine.actAll ctx b = .ok merged →
      id ∈ b.frontier → other ∈ b.frontier → other ≠ id → graph.NestedAt other →
      graph.NodeWrites ctx key b.store id →
      (∀ third ∈ b.frontier, third ≠ id → ¬ graph.NodeWrites ctx key b.store third) →
      graph.machine.answer ctx b.store id = .ok (node, update) →
      Table.get? update key = some value →
      Table.get? merged key =
        some (graph.machine.written node key (Table.get? b.store key) value) := by
  intro hall
  have hmerged : ∃ merged, (besideIdle "writer" "inner").machine.actAll {}
      ⟨besideStore, ["writer", "inner"]⟩ = .ok merged ∧
      Table.get? merged "k" = some (.bool false) := ⟨_, rfl, rfl⟩
  obtain ⟨merged, hmerged, hlost⟩ := hmerged
  have hothers : ∀ third ∈ ["writer", "inner"], third ≠ "writer" →
      ¬ (besideIdle "writer" "inner").NodeWrites {} "k" besideStore third := by
    intro third hthird hne
    rcases List.mem_cons.mp hthird with hfirst | hrest
    · exact absurd hfirst hne
    · rw [List.mem_singleton.mp hrest]
      exact inner_writes_nothing "writer" "inner" besideStore
  have hkept := hall (besideIdle "writer" "inner") { id := "beside", keys := .empty }
    [.node "writer" (.action fun _ _ => .ok (.ofList [("k", .bool true)])),
      .node "inner" (.subgraph idle), .edge startId "writer", .edge startId "inner"]
    {} {} besideStore merged ⟨besideStore, ["writer", "inner"]⟩ "writer" "inner" "k" _ _
    (.bool true) rfl rfl ⟨0, .enter rfl, rfl, by decide⟩ hmerged (by decide) (by decide)
    (by decide) ⟨idle, rfl⟩ (writer_writes "writer" "inner" besideStore) hothers
    (writer_answers "writer" "inner" besideStore) rfl
  rw [hlost] at hkept
  cases hkept

end Graph

end FlowGraph
