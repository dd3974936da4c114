import FlowGraph.Proofs.Writes

/-!
# State that only grows

A key keeps its place in the store from the moment it has a value.  More can be
said of a key that a graph appends to, and all the graphs in it as well: its
value is a list, and the list is only ever made longer.  Nodes and routers
write under the rule of the key and put something at the end.  A nested graph
puts its own list in the place of the present one; but it was given the list
that the superstep began with, and it made that one longer.

* `Grown`: a list and a longer one.
* `Machine.foldl_absorb_grown`: what a superstep begins with is only made longer.
* `Graph.run_grown`: **a run makes a list longer**, however deep graphs are nested.
* `Graph.accumulated_state_only_grows`: from each boundary of a run to the next.
-/

namespace FlowGraph

/-- A list that has been made longer, or started; where there is no value there
was none. -/
inductive Grown : Option Json → Option Json → Prop
  | absent : Grown none none
  | started (items : List Json) : Grown none (some (.arr items))
  | longer (items more : List Json) : Grown (some (.arr items)) (some (.arr (items ++ more)))

namespace Grown

variable {first middle last : Option Json}

/-- What has grown twice has grown. -/
theorem trans (hfirst : Grown first middle) (hlast : Grown middle last) : Grown first last := by
  cases hfirst with
  | absent => exact hlast
  | started items =>
      cases hlast with
      | longer items more => exact .started (items ++ more)
  | longer items more =>
      cases hlast with
      | longer items' more' =>
          rw [List.append_assoc]
          exact .longer items (more ++ more')

/-- What has grown can go on growing. -/
theorem refl_right (h : Grown first last) : Grown last last := by
  have hsame : ∀ items : List Json, Grown (some (.arr items)) (some (.arr items)) := by
    intro items
    have hlonger := Grown.longer items []
    rwa [List.append_nil] at hlonger
  cases h with
  | absent => exact .absent
  | started items => exact hsame items
  | longer items more => exact hsame (items ++ more)

/-- A value that is written under the append rule is made longer. -/
theorem apply (h : Grown first last) (value : Json) :
    Grown first (some (WriteRule.append.apply last value)) := by
  cases h with
  | absent => exact .started _
  | started items => exact .started _
  | longer items more =>
      have hwritten : WriteRule.append.apply (some (.arr (items ++ more))) value =
          .arr (items ++ (more ++ WriteRule.itemsOf value)) := by
        rw [← List.append_assoc]
        rfl
      rw [hwritten]
      exact .longer items _

/-- A value that has grown is a list. -/
theorem eq_list (h : Grown first last) {value : Json} (hvalue : last = some value) :
    ∃ items, value = .arr items := by
  cases h with
  | absent => cases hvalue
  | started items => exact ⟨items, (Option.some.inj hvalue).symm⟩
  | longer items more => exact ⟨items ++ more, (Option.some.inj hvalue).symm⟩

/-- A value that has grown is the list of its items. -/
theorem map_asList (h : Grown first last) : last.map asList = last := by
  cases h <;> rfl

/-- The earlier list is a prefix of the later one. -/
theorem exists_more (h : Grown first last) {items : List Json}
    (hfirst : first = some (.arr items)) : ∃ more, last = some (.arr (items ++ more)) := by
  subst hfirst
  cases h with
  | longer items more => exact ⟨more, rfl⟩

end Grown

namespace Machine

variable {m : Machine} {ctx : RunConfig} {key : String} {first : Option Json}

/-- An update under the append rule makes a list longer. -/
theorem update_grown (hrule : KeyTable.rule m.keys key = .append) (u : Update) {store : Store}
    (h : Grown first (Table.get? store key)) :
    Grown first (Table.get? (Store.update m.keys store u) key) := by
  rw [Store.get?_update, hrule]
  cases Table.get? u key with
  | none => exact h
  | some value => exact h.apply value

/-- A source leads on with lists as long as before, or longer. -/
theorem successors_grown (hrule : KeyTable.rule m.keys key = .append) {source : String}
    {store after : Store} {targets : List String}
    (hsuccessors : m.successors ctx source store = .ok (targets, after))
    (h : Grown first (Table.get? store key)) : Grown first (Table.get? after key) := by
  rcases successors_eq_ok hsuccessors with
    ⟨-, -, hsame⟩ | ⟨router, decision, target, -, -, -, -, hwrite⟩
  · rw [hsame]
    exact h
  · rw [hwrite]
    exact update_grown hrule decision.update h

/-- The routers of a superstep let a key grow that is appended to. -/
theorem routeAll_grown (hrule : KeyTable.rule m.keys key = .append) {ids next last : List String}
    {store after : Store} (hroute : m.routeAll ctx ids next store = .ok (last, after))
    (h : Grown first (Table.get? store key)) : Grown first (Table.get? after key) := by
  refine routeAll_invariant (P := fun _ later => Grown first (Table.get? later key)) ?_ h hroute
  intro id _ _ middle targets later hmiddle hlater
  exact successors_grown hrule hlater hmiddle

/-- **What a superstep begins with is only made longer**, if every nested graph
makes it longer: a list that is put in the place of another one has the same
beginning. -/
theorem foldl_absorb_grown (hrule : KeyTable.rule m.keys key = .append)
    {results : List (Node Runner × Update)}
    (hnested : ∀ result ∈ results, result.1.body.isSubgraph = true →
      Grown first (Table.get? result.2 key)) {store : Store}
    (h : Grown first (Table.get? store key)) :
    Grown first (Table.get? (results.foldl m.absorb store) key) := by
  induction results generalizing store with
  | nil => exact h
  | cons result rest ih =>
      obtain ⟨hhead, hrest⟩ := List.forall_mem_cons.mp hnested
      rw [List.foldl_cons]
      refine ih hrest ?_
      unfold absorb rulesFor
      cases hsub : result.1.body.isSubgraph with
      | false =>
          simp only [Bool.false_eq_true, if_false]
          exact update_grown hrule result.2 h
      | true =>
          simp only [if_true]
          rw [Store.get?_update_empty]
          cases hvalue : Table.get? result.2 key with
          | none => exact h
          | some value =>
              have hgrown := hhead hsub
              rw [hvalue] at hgrown
              exact hgrown

/-- A run starts with the list of the items of its input. -/
theorem enter_grown (hrule : KeyTable.rule m.keys key = .append) {inputs : Store} {b : Boundary}
    (henter : m.enter ctx inputs = .ok b) :
    Grown ((Table.get? inputs key).map asList) (Table.get? b.store key) := by
  obtain ⟨targets, store, hfirst, hb⟩ := enter_eq_ok_iff.mp henter
  rw [hb, Boundary.at]
  refine successors_grown hrule hfirst ?_
  rw [← Store.enter, Store.get?_enter, hrule]
  cases Table.get? inputs key with
  | none => exact .absent
  | some value => exact (Grown.started (WriteRule.itemsOf value)).refl_right

end Machine

namespace Graph

variable {graph child : Graph} {ctx : RunConfig} {inputs : Store} {key : String}

/-- A graph appends to a key, and so do all the graphs in it. -/
def AppendsThroughout (graph : Graph) (key : String) : Prop :=
  ∀ inner : Graph, inner.Within graph → KeyTable.rule inner.keys key = .append

/-- A graph that appends to a key throughout has the rule for it. -/
theorem AppendsThroughout.rule (h : graph.AppendsThroughout key) :
    KeyTable.rule graph.keys key = .append := h graph (.self graph)

/-- The graphs in the nodes of a graph that appends to a key throughout do so as well. -/
theorem AppendsThroughout.nested (h : graph.AppendsThroughout key) {node : Node Graph}
    (hnode : node ∈ graph.topology.nodes) (hbody : node.body = .subgraph child) :
    child.AppendsThroughout key :=
  fun inner hinner => h inner (.nested hnode hbody hinner)

/-- A superstep makes a list longer, if the runs of nested graphs do. -/
theorem advance_grown (hrule : KeyTable.rule graph.keys key = .append)
    (hnested : ∀ node ∈ graph.topology.nodes, ∀ child, node.body = .subgraph child →
      ∀ store final, child.run store ctx = .ok final →
        Grown ((Table.get? store key).map asList) (Table.get? final key)) {b next : Boundary}
    (hlist : Grown (Table.get? b.store key) (Table.get? b.store key))
    (hstep : graph.machine.advance ctx b = .ok next) :
    Grown (Table.get? b.store key) (Table.get? next.store key) := by
  obtain ⟨merged, targets, store, hmerged, hroute, hnext⟩ := Machine.advance_eq_ok_iff.mp hstep
  obtain ⟨results, hresults, hfold⟩ := Machine.actAll_eq_ok_iff.mp hmerged
  rw [hnext, Boundary.at]
  refine Machine.routeAll_grown hrule hroute ?_
  rw [hfold]
  refine Machine.foldl_absorb_grown hrule ?_ hlist
  intro result hresult hsub
  obtain ⟨id, -, hanswer⟩ := Traversal.exists_asked hresults hresult
  rcases answer_cases hanswer with hown | ⟨child, hnode, -, hrun⟩
  · rw [hown] at hsub
    cases hsub
  · have hgrown := hnested _ (Machine.mem_of_node? hnode) child rfl b.store result.2 hrun
    rwa [hlist.map_asList] at hgrown

/-- What holds of the boundaries of a run, if nested graphs make lists longer. -/
theorem boundary_grown (hrule : KeyTable.rule graph.keys key = .append)
    (hnested : ∀ node ∈ graph.topology.nodes, ∀ child, node.body = .subgraph child →
      ∀ store final, child.run store ctx = .ok final →
        Grown ((Table.get? store key).map asList) (Table.get? final key)) {n : Nat} {b : Boundary}
    (hreach : graph.machine.Reaches ctx inputs n b) :
    Grown ((Table.get? inputs key).map asList) (Table.get? b.store key) := by
  induction hreach with
  | enter henter => exact Machine.enter_grown hrule henter
  | advance _ _ _ hstep ih => exact ih.trans (advance_grown hrule hnested ih.refl_right hstep)

/-- **A run makes a list longer**, however deep graphs are nested. -/
theorem run_grown (graph : Graph) :
    graph.AppendsThroughout key → ∀ inputs final, graph.run inputs ctx = .ok final →
      Grown ((Table.get? inputs key).map asList) (Table.get? final key) := by
  refine Graph.induct (motive := fun graph => graph.AppendsThroughout key → ∀ inputs final,
    graph.run inputs ctx = .ok final →
      Grown ((Table.get? inputs key).map asList) (Table.get? final key)) ?_ graph
  intro graph ih happends inputs final hrun
  rw [run_eq] at hrun
  cases Machine.ends_iff_run_eq.mpr hrun with
  | halted hreach _ =>
      refine boundary_grown happends.rule ?_ hreach
      intro node hnode child hbody
      exact ih node hnode child hbody (happends.nested hnode hbody)

/-- **Accumulated state only grows.**  From each boundary of a run to the next
every key that has a value keeps one, and where the graph and all the graphs in
it append, a value is a list that begins with the list before it.  So a result
has every key of the inputs, and there it begins with the items of the input. -/
theorem accumulated_state_only_grows (graph : Graph) (ctx : RunConfig) (inputs : Store) :
    (∀ n b next, graph.machine.Reaches ctx inputs n b →
      graph.machine.Reaches ctx inputs (n + 1) next →
        next.store.Covers b.store ∧
          ∀ key, graph.AppendsThroughout key →
            ∀ items, Table.get? b.store key = some (.arr items) →
              ∃ more, Table.get? next.store key = some (.arr (items ++ more))) ∧
      (∀ n b, graph.machine.Reaches ctx inputs n b → ∀ key, graph.AppendsThroughout key →
        ∀ value, Table.get? b.store key = some value → ∃ items, value = .arr items) ∧
      ∀ final, graph.run inputs ctx = .ok final →
        final.Covers inputs ∧
          ∀ key, graph.AppendsThroughout key → ∀ value, Table.get? inputs key = some value →
            ∃ more, Table.get? final key = some (.arr (WriteRule.itemsOf value ++ more)) := by
  have hboundary : ∀ n b, graph.machine.Reaches ctx inputs n b → ∀ key,
      graph.AppendsThroughout key →
        Grown ((Table.get? inputs key).map asList) (Table.get? b.store key) := by
    intro n b hreach key happends
    refine boundary_grown happends.rule ?_ hreach
    intro node hnode child hbody
    exact run_grown child (happends.nested hnode hbody)
  refine ⟨?_, ?_, ?_⟩
  · intro n b next hreach hnext
    have hstep := hreach.advance_eq hnext
    refine ⟨Machine.advance_covers hstep, ?_⟩
    intro key happends items hitems
    have hgrown : Grown (Table.get? b.store key) (Table.get? next.store key) := by
      refine advance_grown happends.rule ?_ (hboundary n b hreach key happends).refl_right hstep
      intro node hnode child hbody
      exact run_grown child (happends.nested hnode hbody)
    exact hgrown.exists_more hitems
  · intro n b hreach key happends value hvalue
    exact (hboundary n b hreach key happends).eq_list hvalue
  · intro final hrun
    refine ⟨run_covers hrun, ?_⟩
    intro key happends value hvalue
    have hgrown := run_grown graph happends inputs final hrun
    rw [hvalue] at hgrown
    exact hgrown.exists_more rfl

/-- A graph that notes one thing in the log. -/
def scribe : Graph where
  id := "scribe"
  keys := .ofList [("log", .append)]
  topology :=
    { nodes := [⟨"note", .action fun _ _ => .ok (.ofList [("log", .str "noted")])⟩]
      edges := [(startId, "note")] }
  config := {}

/-- A speaker and a scribe side by side, with one log. -/
def desk : Graph where
  id := "desk"
  keys := .ofList [("log", .append)]
  topology :=
    { nodes :=
        [⟨"speaker", .action fun _ _ => .ok (.ofList [("log", .str "spoken")])⟩,
         ⟨"scribe", .subgraph scribe⟩]
      edges := [(startId, "speaker"), (startId, "scribe")] }
  config := {}

theorem desk_appends_throughout : desk.AppendsThroughout "log" := by
  have hscribe : scribe.AppendsThroughout "log" := by
    intro inner hinner
    cases hinner with
    | self => rfl
    | nested hnode hbody _ =>
        rw [List.mem_singleton.mp hnode] at hbody
        cases hbody
  intro inner hinner
  cases hinner with
  | self => rfl
  | nested hnode hbody hinner =>
      rcases List.mem_cons.mp hnode with hspeaker | hnode
      · rw [hspeaker] at hbody
        cases hbody
      · rw [List.mem_singleton.mp hnode] at hbody
        cases hbody
        exact hscribe inner hinner

/-- The log of a desk begins with what was in it, although the scribe puts its
own list in the place of the one that the speaker wrote to. -/
theorem appended_list_begins_with_its_input :
    ∃ b next, desk.machine.Reaches {} (.ofList [("log", .str "topic")]) 0 b ∧
      desk.machine.Reaches {} (.ofList [("log", .str "topic")]) 1 next ∧
        Table.get? b.store "log" = some (.arr [.str "topic"]) ∧
          ∃ more, Table.get? next.store "log" = some (.arr (.str "topic" :: more)) := by
  obtain ⟨b, henter⟩ : ∃ b, desk.machine.enter {} (.ofList [("log", .str "topic")]) = .ok b :=
    ⟨_, rfl⟩
  obtain ⟨next, hstep⟩ : ∃ next, desk.machine.advance {} b = .ok next := by
    cases henter
    exact ⟨_, rfl⟩
  have hgoes : desk.machine.halts b = false := by
    cases henter
    rfl
  have htopic : Table.get? b.store "log" = some (.arr [.str "topic"]) := by
    cases henter
    rfl
  have hreach := Machine.Reaches.enter henter
  have hnext := hreach.advance hgoes (by decide) hstep
  obtain ⟨hsteps, -, -⟩ :=
    accumulated_state_only_grows desk {} (.ofList [("log", .str "topic")])
  obtain ⟨-, hgrows⟩ := hsteps 0 b next hreach hnext
  exact ⟨b, next, hreach, hnext, htopic,
    hgrows "log" desk_appends_throughout [.str "topic"] htopic⟩

end Graph

end FlowGraph
