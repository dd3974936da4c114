import FlowGraph.Graph
import FlowGraph.Proofs.StoreGrowth

/-!
# What a run writes

A run writes a key if an action or a router that it executes puts the key into
its update, in the graph itself or in one nested at any depth.  A graph hands
back its whole store, written or not; so what happens to a key that is not
written has to be said too: its value is carried through, and all that can
happen to it is that it is turned into an array where it is entered.

* `Graph.Writes`: the writes of a run.
* `carries_of_not_writes`: **what is not written is carried.**
* `has_of_writes`: what is written is there at the end.
-/

namespace FlowGraph

/-- A value was carried: it is the one before, or the array of its items. -/
inductive Carries : Option Json → Option Json → Prop
  | same (current : Option Json) : Carries current current
  | items (value : Json) : Carries (some value) (some (.arr (WriteRule.itemsOf value)))

namespace Carries

/-- What was carried twice was carried. -/
theorem trans {first middle last : Option Json} (hfirst : Carries first middle)
    (hlast : Carries middle last) : Carries first last := by
  cases hfirst with
  | same => exact hlast
  | items value =>
      cases hlast with
      | same => exact .items value
      | items => exact .items value

/-- Nothing is carried as nothing. -/
theorem eq_none {last : Option Json} (h : Carries none last) : last = none := by
  cases h
  rfl

/-- A value is carried as itself or as the array of its items. -/
theorem isSome {value : Json} {last : Option Json} (h : Carries (some value) last) :
    ∃ carried, last = some carried ∧
      (carried = value ∨ carried = .arr (WriteRule.itemsOf value)) := by
  cases h with
  | same => exact ⟨value, rfl, Or.inl rfl⟩
  | items => exact ⟨_, rfl, Or.inr rfl⟩

/-- A value is carried into a graph under any rule. -/
theorem enter (keys : KeyTable) (inputs : Store) (key : String) :
    Carries (Table.get? inputs key) (Table.get? (Store.enter keys inputs) key) := by
  rw [Store.get?_enter]
  cases Table.get? inputs key with
  | none => exact .same none
  | some value =>
      cases KeyTable.rule keys key with
      | replace => exact .same (some value)
      | append => exact .items value
      | merge => exact .same (some value)

end Carries

namespace Machine

variable {m : Machine} {ctx : RunConfig} {inputs : Store} {key : String}

/-- The run makes a superstep from a boundary. -/
def StepsFrom (m : Machine) (ctx : RunConfig) (inputs : Store) (b : Boundary) : Prop :=
  ∃ n, m.Reaches ctx inputs n b ∧ m.halts b = false ∧ n < m.config.maxSteps

/-- A router leads on with the store it was given, but for its own update. -/
theorem get?_successors (key : String) {source : String} {store after : Store}
    {targets : List String} (h : m.successors ctx source store = .ok (targets, after)) :
    Table.get? after key = Table.get? store key ∨
      ∃ router decision, m.topology.router? source = some router ∧
        router.choose store ctx = .ok decision ∧ Table.get? decision.update key ≠ none := by
  rcases successors_eq_ok h with ⟨-, -, hsame⟩ |
    ⟨router, decision, target, hrouter, hchoose, -, -, hwrite⟩
  · rw [hsame]
    exact Or.inl rfl
  · by_cases hkey : Table.get? decision.update key = none
    · rw [hwrite, Store.get?_update, hkey]
      exact Or.inl rfl
    · exact Or.inr ⟨router, decision, hrouter, hchoose, hkey⟩

/-- What a router writes is in the store that it leads on with. -/
theorem successors_has {source : String} {store after : Store} {targets : List String}
    {router : Router} {decision : Decision} (hrouter : m.topology.router? source = some router)
    (hchoose : router.choose store ctx = .ok decision)
    (hkey : Table.get? decision.update key ≠ none)
    (h : m.successors ctx source store = .ok (targets, after)) : Table.get? after key ≠ none := by
  rcases successors_eq_ok h with ⟨hnone, -, -⟩ |
    ⟨router', decision', target, hrouter', hchoose', -, -, hwrite⟩
  · rw [hrouter] at hnone
    cases hnone
  · cases hrouter.symm.trans hrouter'
    cases hchoose.symm.trans hchoose'
    rw [hwrite, Store.get?_update]
    cases hvalue : Table.get? decision.update key with
    | none => exact absurd hvalue hkey
    | some value => simp

/-- A run that succeeds makes its supersteps, and keeps what they leave. -/
theorem StepsFrom.advances {b : Boundary} {final : Store} (h : m.StepsFrom ctx inputs b)
    (hrun : m.run inputs ctx = .ok final) :
    ∃ next, m.advance ctx b = .ok next ∧ final.Covers next.store := by
  obtain ⟨n, hreach, hgoes, hbudget⟩ := h
  obtain ⟨next, hstep⟩ := hreach.advances hgoes hbudget hrun
  exact ⟨next, hstep, (hreach.advance hgoes hbudget hstep).final_covers hrun⟩

/-- A list of routers is followed in two halves. -/
theorem routeAll_append (front back next : List String) (store : Store) :
    m.routeAll ctx (front ++ back) next store =
      (m.routeAll ctx front next store).bind fun middle =>
        m.routeAll ctx back middle.1 middle.2 := by
  induction front generalizing next store with
  | nil => rfl
  | cons id rest ih =>
      rw [List.cons_append, routeAll, routeAll]
      cases m.successors ctx id store with
      | error fault => rfl
      | ok found => exact ih _ _

/-- A list of routers leaves a key alone, or one of them writes it. -/
theorem get?_routeAll (key : String) {ids next last : List String} {store after : Store}
    (h : m.routeAll ctx ids next store = .ok (last, after)) :
    Table.get? after key = Table.get? store key ∨
      ∃ front source back middle before router decision, ids = front ++ source :: back ∧
        m.routeAll ctx front next store = .ok (middle, before) ∧
        m.topology.router? source = some router ∧ router.choose before ctx = .ok decision ∧
        Table.get? decision.update key ≠ none := by
  induction ids generalizing next store with
  | nil =>
      cases h
      exact Or.inl rfl
  | cons id rest ih =>
      rw [routeAll] at h
      cases hid : m.successors ctx id store with
      | error fault => simp [hid] at h
      | ok found =>
          obtain ⟨targets, middle⟩ := found
          simp only [hid] at h
          rcases get?_successors key hid with hsame | ⟨router, decision, hrouter, hrest⟩
          · rcases ih h with hlater | ⟨front, source, back, between, before, router, decision,
              hsplit, hfront, hrest⟩
            · exact Or.inl (hlater.trans hsame)
            · refine Or.inr ⟨id :: front, source, back, between, before, router, decision, ?_, ?_,
                hrest⟩
              · rw [hsplit, List.cons_append]
              · simp only [routeAll, hid]
                exact hfront
          · exact Or.inr ⟨[], id, rest, next, store, router, decision, rfl, rfl, hrouter, hrest⟩

end Machine

namespace Graph

variable {graph : Graph} {ctx : RunConfig} {inputs : Store} {key : String}

/-- **The writes of a run**: what its routers and the actions of its nodes put
into their updates, and what nested graphs write. -/
inductive Writes (ctx : RunConfig) (key : String) : Graph → Store → Prop
  /-- The router of the entry writes the key. -/
  | entry {graph : Graph} {inputs : Store} {router : Router} {decision : Decision}
      (hrouter : graph.topology.router? startId = some router)
      (hchoose : router.choose (Store.enter graph.keys inputs) ctx = .ok decision)
      (hkey : Table.get? decision.update key ≠ none) : Writes ctx key graph inputs
  /-- An action that a superstep executes writes the key. -/
  | action {graph : Graph} {inputs : Store} {b : Boundary} {id : String} {node : Node Runner}
      {update : Update} (hsteps : graph.machine.StepsFrom ctx inputs b) (hid : id ∈ b.frontier)
      (hanswer : graph.machine.answer ctx b.store id = .ok (node, update))
      (hown : node.body.isSubgraph = false) (hkey : Table.get? update key ≠ none) :
      Writes ctx key graph inputs
  /-- A nested graph that a superstep executes writes the key. -/
  | nested {graph child : Graph} {inputs : Store} {b : Boundary} {id : String}
      (hsteps : graph.machine.StepsFrom ctx inputs b) (hid : id ∈ b.frontier)
      (hnode : graph.topology.node? id = some ⟨id, .subgraph child⟩)
      (hchild : Writes ctx key child b.store) : Writes ctx key graph inputs
  /-- A router that a superstep comes to writes the key. -/
  | router {graph : Graph} {inputs : Store} {b : Boundary} {front back next : List String}
      {source : String} {merged store : Store} {router : Router} {decision : Decision}
      (hsteps : graph.machine.StepsFrom ctx inputs b)
      (hfrontier : b.frontier = front ++ source :: back)
      (hmerged : graph.machine.actAll ctx b = .ok merged)
      (hearlier : graph.machine.routeAll ctx front [] merged = .ok (next, store))
      (hrouter : graph.topology.router? source = some router)
      (hchoose : router.choose store ctx = .ok decision)
      (hkey : Table.get? decision.update key ≠ none) : Writes ctx key graph inputs

/-- A graph is another one, or stands in a node of it at any depth. -/
inductive Within : Graph → Graph → Prop
  | self (graph : Graph) : Within graph graph
  | nested {inner child graph : Graph} {node : Node Graph}
      (hnode : node ∈ graph.topology.nodes) (hbody : node.body = .subgraph child)
      (hinner : Within inner child) : Within inner graph

/-- A node answers by itself, or by the run of the graph nested in it. -/
theorem answer_cases {store : Store} {id : String} {node : Node Runner} {update : Update}
    (h : graph.machine.answer ctx store id = .ok (node, update)) :
    node.body.isSubgraph = false ∨
      ∃ child, graph.topology.node? id = some ⟨id, .subgraph child⟩ ∧
        node.body.isSubgraph = true ∧ child.run store ctx = .ok update := by
  obtain ⟨hnode, hact⟩ := Machine.answer_eq_ok_iff.mp h
  have hmapped : (graph.topology.node? id).map (Node.map run) = some node := by
    rw [← machine_node?]
    exact hnode
  obtain ⟨⟨id', body⟩, hfound, hmap⟩ := Option.map_eq_some_iff.mp hmapped
  have hid : id' = id := Machine.id_of_node? hfound
  rw [← hmap] at hact ⊢
  cases body with
  | action act => exact Or.inl rfl
  | executor act => exact Or.inl rfl
  | subgraph child =>
      rw [hid] at hfound
      exact Or.inr ⟨child, hfound, rfl, hact⟩

/-- The answer of a nested graph is the result of its run. -/
theorem answer_nested {store : Store} {id : String} {child : Graph} {node : Node Runner}
    {update : Update} (hnode : graph.topology.node? id = some ⟨id, .subgraph child⟩)
    (h : graph.machine.answer ctx store id = .ok (node, update)) :
    node.body.isSubgraph = true ∧ child.run store ctx = .ok update := by
  have hmachine : graph.machine.topology.node? id = some ⟨id, .subgraph child.run⟩ := by
    rw [machine_node?, hnode]
    rfl
  obtain ⟨hfound, hact⟩ := Machine.answer_eq_ok_iff.mp h
  cases hmachine.symm.trans hfound
  exact ⟨rfl, hact⟩

/-- The result of a run covers its inputs. -/
theorem run_covers {final : Store} (hrun : graph.run inputs ctx = .ok final) :
    final.Covers inputs := by
  rw [run_eq] at hrun
  exact (Machine.run_covers hrun).trans (Store.enter_covers graph.machine.keys inputs)

/-! ## What is not written is carried -/

/-- What the nodes of a superstep write leaves a key carried, if the answers of
nested graphs carry it and the others leave it out. -/
theorem foldl_absorb_carries {m : Machine} {current : Option Json}
    {results : List (Node Runner × Update)}
    (hresults : ∀ result ∈ results,
      if result.1.body.isSubgraph then Carries current (Table.get? result.2 key)
      else Table.get? result.2 key = none)
    {store : Store} (hstore : Carries current (Table.get? store key)) :
    Carries current (Table.get? (results.foldl m.absorb store) key) := by
  induction results generalizing store with
  | nil => exact hstore
  | cons result rest ih =>
      obtain ⟨hhead, hrest⟩ := List.forall_mem_cons.mp hresults
      rw [List.foldl_cons]
      refine ih hrest ?_
      unfold Machine.absorb Machine.rulesFor
      cases hown : result.1.body.isSubgraph with
      | false =>
          have hleft : Table.get? result.2 key = none := by simpa [hown] using hhead
          simp only [Bool.false_eq_true, if_false]
          rw [Store.get?_update, hleft]
          exact hstore
      | true =>
          have hcarried : Carries current (Table.get? result.2 key) := by simpa [hown] using hhead
          simp only [if_true]
          rw [Store.get?_update_empty]
          cases hvalue : Table.get? result.2 key with
          | none => exact hstore
          | some value =>
              rw [hvalue] at hcarried
              exact hcarried

/-- The routers of a superstep leave a key as the nodes left it, if the run does
not write it. -/
theorem get?_next_eq_merged (hwrites : ¬ Writes ctx key graph inputs) {b next : Boundary}
    {merged : Store} (hsteps : graph.machine.StepsFrom ctx inputs b)
    (hmerged : graph.machine.actAll ctx b = .ok merged)
    (hadvance : graph.machine.advance ctx b = .ok next) :
    Table.get? next.store key = Table.get? merged key := by
  obtain ⟨merged', targets, store, hmerged', hroute, hnext⟩ :=
    Machine.advance_eq_ok_iff.mp hadvance
  cases hmerged.symm.trans hmerged'
  rw [hnext, Boundary.at]
  rcases Machine.get?_routeAll key hroute with hsame |
    ⟨front, source, back, middle, before, router, decision, hfrontier, hearlier, hrouter,
      hchoose, hkey⟩
  · exact hsame
  · exact absurd (.router hsteps hfrontier hmerged hearlier hrouter hchoose hkey) hwrites

/-- **A superstep carries what it does not write.** -/
theorem advance_carries
    (hnested : ∀ node ∈ graph.topology.nodes, ∀ child, node.body = .subgraph child →
      ∀ store final, child.run store ctx = .ok final → ¬ Writes ctx key child store →
        Carries (Table.get? store key) (Table.get? final key))
    (hwrites : ¬ Writes ctx key graph inputs) {b next : Boundary}
    (hsteps : graph.machine.StepsFrom ctx inputs b)
    (hadvance : graph.machine.advance ctx b = .ok next) :
    Carries (Table.get? b.store key) (Table.get? next.store key) := by
  obtain ⟨merged, -, -, hmerged, -, -⟩ := Machine.advance_eq_ok_iff.mp hadvance
  rw [get?_next_eq_merged hwrites hsteps hmerged hadvance]
  obtain ⟨results, hresults, hfold⟩ := Machine.actAll_eq_ok_iff.mp hmerged
  rw [hfold]
  refine foldl_absorb_carries ?_ (.same _)
  intro result hresult
  obtain ⟨id, hid, hanswer⟩ := Traversal.exists_asked hresults hresult
  rcases answer_cases hanswer with hown | ⟨child, hnode, hsub, hrun⟩
  · rw [hown]
    simp only [Bool.false_eq_true, if_false]
    by_contra hkey
    exact hwrites (.action hsteps hid hanswer hown hkey)
  · rw [hsub]
    simp only [if_true]
    refine hnested _ (Machine.mem_of_node? hnode) child rfl b.store result.2 hrun ?_
    intro hchild
    exact hwrites (.nested hsteps hid hnode hchild)

/-- **What a run does not write it carries**, however deep graphs are nested. -/
theorem carries_of_not_writes (graph : Graph) :
    ∀ inputs final, graph.run inputs ctx = .ok final → ¬ Writes ctx key graph inputs →
      Carries (Table.get? inputs key) (Table.get? final key) := by
  refine Graph.induct (motive := fun graph => ∀ inputs final, graph.run inputs ctx = .ok final →
    ¬ Writes ctx key graph inputs → Carries (Table.get? inputs key) (Table.get? final key))
    ?_ graph
  intro graph hnested inputs final hrun hwrites
  -- along the run of this graph, with the runs of its nested graphs as given
  have hboundary : ∀ n b, graph.machine.Reaches ctx inputs n b →
      Carries (Table.get? inputs key) (Table.get? b.store key) := by
    intro n b hreach
    induction hreach with
    | enter henter =>
        obtain ⟨targets, store, hfirst, hb⟩ := Machine.enter_eq_ok_iff.mp henter
        rw [hb, Boundary.at]
        rcases Machine.get?_successors key hfirst with hsame |
          ⟨router, decision, hrouter, hchoose, hkey⟩
        · rw [hsame]
          exact .enter graph.keys inputs key
        · exact absurd (.entry hrouter hchoose hkey) hwrites
    | advance hreach hgoes hbudget hstep ih =>
        exact ih.trans (advance_carries hnested hwrites ⟨_, hreach, hgoes, hbudget⟩ hstep)
  rw [run_eq] at hrun
  cases Machine.ends_iff_run_eq.mpr hrun with
  | halted hreach _ => exact hboundary _ _ hreach

/-! ## What is written is there -/

/-- A key in the answer of a node is in the store after the superstep's writes. -/
theorem merged_has_of_answer {m : Machine} {b : Boundary} {merged : Store} {id : String}
    {node : Node Runner} {update : Update} (hmerged : m.actAll ctx b = .ok merged)
    (hid : id ∈ b.frontier) (hanswer : m.answer ctx b.store id = .ok (node, update))
    (hkey : Table.get? update key ≠ none) : Table.get? merged key ≠ none := by
  obtain ⟨results, hresults, hfold⟩ := Machine.actAll_eq_ok_iff.mp hmerged
  obtain ⟨result, hmem, hresult⟩ := Traversal.exists_answer hresults hid
  rw [hanswer] at hresult
  obtain ⟨front, back, hsplit⟩ := List.append_of_mem hmem
  rw [hfold, hsplit, List.foldl_append, List.foldl_cons, ← Except.ok.inj hresult]
  refine Machine.foldl_absorb_covers back _ key ?_
  unfold Machine.absorb
  rw [Store.get?_update]
  cases hvalue : Table.get? update key with
  | none => exact absurd hvalue hkey
  | some value => simp

/-- A key that a node of a superstep answers with is there at the end of the run. -/
theorem final_has_of_answer {b : Boundary} {id : String} {final : Store}
    (hsteps : graph.machine.StepsFrom ctx inputs b) (hid : id ∈ b.frontier)
    (hrun : graph.run inputs ctx = .ok final)
    (hkey : ∀ node update, graph.machine.answer ctx b.store id = .ok (node, update) →
      Table.get? update key ≠ none) : Table.get? final key ≠ none := by
  rw [run_eq] at hrun
  obtain ⟨next, hstep, hcovers⟩ := hsteps.advances hrun
  obtain ⟨merged, targets, store, hmerged, hroute, hnext⟩ := Machine.advance_eq_ok_iff.mp hstep
  obtain ⟨results, hresults, -⟩ := Machine.actAll_eq_ok_iff.mp hmerged
  obtain ⟨⟨node, update⟩, -, hanswer⟩ := Traversal.exists_answer hresults hid
  have hmergedKey := merged_has_of_answer hmerged hid hanswer (hkey node update hanswer)
  refine hcovers key ?_
  rw [hnext]
  exact Machine.routeAll_covers hroute key hmergedKey

/-- **What a run writes is there at its end**, if it has one. -/
theorem has_of_writes (hwrites : Writes ctx key graph inputs) {final : Store}
    (hrun : graph.run inputs ctx = .ok final) : Table.get? final key ≠ none := by
  -- on how the key comes to be written, nested runs included; later steps keep it
  induction hwrites generalizing final with
  | @entry graph inputs router decision hrouter hchoose hkey =>
      rw [run_eq, Machine.run] at hrun
      cases henter : graph.machine.enter ctx inputs with
      | error fault => simp [henter] at hrun
      | ok b =>
          simp only [henter] at hrun
          obtain ⟨targets, store, hfirst, hb⟩ := Machine.enter_eq_ok_iff.mp henter
          have hstore : Table.get? store key ≠ none :=
            Machine.successors_has (m := graph.machine) hrouter hchoose hkey hfirst
          refine Machine.loop_covers hrun key ?_
          rw [hb]
          exact hstore
  | action hsteps hid hanswer hown hkey =>
      refine final_has_of_answer hsteps hid hrun ?_
      intro node update hother
      cases hanswer.symm.trans hother
      exact hkey
  | nested hsteps hid hnode hchild ih =>
      refine final_has_of_answer hsteps hid hrun ?_
      intro node update hanswer
      exact ih (answer_nested hnode hanswer).2
  | @router graph inputs b front back reached source merged store router decision hsteps
      hfrontier hmerged hearlier hrouter hchoose hkey =>
      rw [run_eq] at hrun
      obtain ⟨next, hstep, hcovers⟩ := hsteps.advances hrun
      obtain ⟨merged', targets, store', hmerged', hroute, hnext⟩ :=
        Machine.advance_eq_ok_iff.mp hstep
      cases hmerged.symm.trans hmerged'
      rw [hfrontier, Machine.routeAll_append, hearlier] at hroute
      simp only [Except.bind, Machine.routeAll] at hroute
      split at hroute
      · cases hroute
      · next after hfound =>
          refine hcovers key ?_
          rw [hnext]
          exact Machine.routeAll_covers hroute key
            (Machine.successors_has (m := graph.machine) hrouter hchoose hkey hfound)

end Graph

end FlowGraph
