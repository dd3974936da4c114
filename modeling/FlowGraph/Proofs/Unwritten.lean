import FlowGraph.Proofs.LoneWriter

/-!
# Keys that a nested graph does not write

A nested graph enters all that it is given and hands all of it back.  What it
does not write comes out as it went in, but for one thing: a graph in which
the key is appended to makes a list of the value where it enters it, and the
list is what is handed back.  Of nested graphs side by side the last one decides
what is handed back, so it is not enough that one of them makes a list.

* `Graph.Enlists`: the runs that make a list of a value.
* `get?_run_of_enlists`, `get?_run_of_not_enlists`: **what becomes of a key that
  a run does not write.**
* `unwritten_key_is_kept_or_listed`: the same for a superstep of the outer graph.
* `not_every_unwritten_key_is_kept`: a nested graph that writes nothing and
  changes a value.
-/

namespace FlowGraph

namespace Carries

variable {first last : Option Json}

/-- What was carried has the same items. -/
theorem map_asList (h : Carries first last) : last.map asList = first.map asList := by
  cases h <;> rfl

/-- A list is carried as it is. -/
theorem eq_of_list (h : Carries (first.map asList) last) : last = first.map asList := by
  cases first with
  | none => exact h.eq_none
  | some value =>
      obtain ⟨carried, hlast, hcarried⟩ := Carries.isSome h
      rw [hlast]
      rcases hcarried with hsame | hitems
      · rw [hsame]
        rfl
      · rw [hitems]
        rfl

end Carries

namespace Graph

variable {graph child : Graph} {ctx : RunConfig} {inputs : Store} {key : String}

/-- **The run of a graph makes a list of the value of a key**: the graph itself
appends to the key, or in some superstep the last nested graph of the frontier
makes a list of it. -/
inductive Enlists (ctx : RunConfig) (key : String) : Graph → Store → Prop
  | own {graph : Graph} {inputs : Store} (hrule : KeyTable.rule graph.keys key = .append) :
      Enlists ctx key graph inputs
  | nested {graph child : Graph} {inputs : Store} {b : Boundary} {front back : List String}
      {id : String} (hsteps : graph.machine.StepsFrom ctx inputs b)
      (hfrontier : b.frontier = front ++ id :: back)
      (hnode : graph.topology.node? id = some ⟨id, .subgraph child⟩)
      (hlast : ∀ other ∈ back, ¬ graph.NestedAt other)
      (hchild : Enlists ctx key child b.store) : Enlists ctx key graph inputs

/-- Only a graph that appends to a key makes a list of its value. -/
theorem Enlists.exists_within (h : Enlists ctx key graph inputs) :
    ∃ inner : Graph, inner.Within graph ∧ KeyTable.rule inner.keys key = .append := by
  induction h with
  | own hrule => exact ⟨_, .self _, hrule⟩
  | nested _ _ hnode _ _ ih =>
      obtain ⟨inner, hinner, hrule⟩ := ih
      exact ⟨inner, .nested (Machine.mem_of_node? hnode) rfl hinner, hrule⟩

/-! ## One superstep -/

/-- In a run that does not write a key no node of a superstep does. -/
theorem not_nodeWrites_of_not_writes (hwrites : ¬ Writes ctx key graph inputs) {b : Boundary}
    (hsteps : graph.machine.StepsFrom ctx inputs b) :
    ∀ id ∈ b.frontier, ¬ graph.NodeWrites ctx key b.store id := by
  intro id hid hnode
  cases hnode with
  | own hanswer hown hkey => exact hwrites (.action hsteps hid hanswer hown hkey)
  | nested hnode hchild => exact hwrites (.nested hsteps hid hnode hchild)

/-- A key that no node of a superstep writes has the value that nested graphs
hand back, and its own value if they hand back none. -/
theorem get?_merged_of_quiet {b : Boundary} {merged : Store}
    (hmerged : graph.machine.actAll ctx b = .ok merged)
    (hquiet : ∀ id ∈ b.frontier, ¬ graph.NodeWrites ctx key b.store id) :
    Table.get? merged key =
      (graph.machine.lastHandedBack ctx b.store key b.frontier).or (Table.get? b.store key) := by
  obtain ⟨results, hresults, hfold⟩ := Machine.actAll_eq_ok_iff.mp hmerged
  rw [hfold]
  refine Machine.get?_foldl_absorb hresults ?_ b.store
  intro result hresult hown
  obtain ⟨id, hid, hanswer⟩ := Traversal.exists_asked hresults hresult
  have hcarried := carries_of_not_nodeWrites hanswer (hquiet id hid)
  simpa [hown] using hcarried

/-- A nested graph hands back the result of its run. -/
theorem handedBack_of_run {store final : Store} {id : String}
    (hnode : graph.topology.node? id = some ⟨id, .subgraph child⟩)
    (hrun : child.run store ctx = .ok final) :
    graph.machine.handedBack ctx store key id = Table.get? final key := by
  have hfound : graph.machine.topology.node? id = some ⟨id, .subgraph child.run⟩ := by
    rw [machine_node?, hnode]
    rfl
  have hanswer : graph.machine.answer ctx store id = .ok (⟨id, .subgraph child.run⟩, final) :=
    Machine.answer_eq_ok_iff.mpr ⟨hfound, hrun⟩
  unfold Machine.handedBack
  rw [hanswer]
  rfl

/-- Where the last nested graph hands back a value, this is the last one. -/
theorem lastHandedBack_of_last_nested {store : Store} {front back : List String} {id : String}
    {value : Json} (hlast : ∀ other ∈ back, ¬ graph.NestedAt other)
    (hown : graph.machine.handedBack ctx store key id = some value) :
    graph.machine.lastHandedBack ctx store key (front ++ id :: back) = some value := by
  have hnone : back.reverse.findSome? (graph.machine.handedBack ctx store key) = none :=
    lastHandedBack_eq_none hlast
  unfold Machine.lastHandedBack
  rw [List.reverse_append, List.reverse_cons, List.append_assoc, List.findSome?_append, hnone,
    Option.none_or, List.singleton_append, List.findSome?_cons, hown]

/-- Where nobody writes a key that has no value, none is handed back. -/
theorem lastHandedBack_of_absent {store : Store} {ids : List String}
    (hquiet : ∀ id ∈ ids, ¬ graph.NodeWrites ctx key store id)
    (habsent : Table.get? store key = none) :
    graph.machine.lastHandedBack ctx store key ids = none := by
  cases hback : graph.machine.lastHandedBack ctx store key ids with
  | none => rfl
  | some value =>
      have hcarried := lastHandedBack_carries hquiet hback
      rw [habsent] at hcarried
      exact absurd hcarried.eq_none (by simp)

/-- **The last nested graph of a frontier decides** what becomes of a key that
no node writes: its run, which does not write it either, has the last word. -/
theorem exists_run_of_last_nested {b : Boundary} {merged : Store} {front back : List String}
    {id : String} (hmerged : graph.machine.actAll ctx b = .ok merged)
    (hquiet : ∀ id ∈ b.frontier, ¬ graph.NodeWrites ctx key b.store id)
    (hfrontier : b.frontier = front ++ id :: back)
    (hnode : graph.topology.node? id = some ⟨id, .subgraph child⟩)
    (hlast : ∀ other ∈ back, ¬ graph.NestedAt other) :
    ∃ final, child.run b.store ctx = .ok final ∧ ¬ Writes ctx key child b.store ∧
      Table.get? merged key = Table.get? final key := by
  have hid : id ∈ b.frontier := by
    rw [hfrontier]
    exact List.mem_append_right front List.mem_cons_self
  obtain ⟨results, hresults, -⟩ := Machine.actAll_eq_ok_iff.mp hmerged
  obtain ⟨⟨node, final⟩, -, hanswer⟩ := Traversal.exists_answer hresults hid
  obtain ⟨-, hrun⟩ := answer_nested hnode hanswer
  refine ⟨final, hrun, fun hwrites => hquiet id hid (.nested hnode hwrites), ?_⟩
  rw [get?_merged_of_quiet hmerged hquiet]
  cases hfinal : Table.get? final key with
  | some value =>
      rw [hfrontier, lastHandedBack_of_last_nested hlast
        ((handedBack_of_run hnode hrun).trans hfinal)]
      rfl
  | none =>
      -- a run takes nothing out, so there was nothing to begin with
      have habsent : Table.get? b.store key = none := by
        by_contra hbefore
        exact run_covers hrun key hbefore hfinal
      rw [lastHandedBack_of_absent hquiet habsent, habsent]
      rfl

/-- Without nested graphs in the frontier nothing becomes of it. -/
theorem get?_merged_of_no_nested {b : Boundary} {merged : Store}
    (hmerged : graph.machine.actAll ctx b = .ok merged)
    (hquiet : ∀ id ∈ b.frontier, ¬ graph.NodeWrites ctx key b.store id)
    (hnested : ∀ id ∈ b.frontier, ¬ graph.NestedAt id) :
    Table.get? merged key = Table.get? b.store key := by
  rw [get?_merged_of_quiet hmerged hquiet, lastHandedBack_eq_none hnested, Option.none_or]

/-! ## A whole run -/

/-- A key that a run does not write is carried from each boundary to the later ones. -/
theorem carries_between (hwrites : ¬ Writes ctx key graph inputs) {n later : Nat}
    {b last : Boundary} (hreach : graph.machine.Reaches ctx inputs n b)
    (hlater : graph.machine.Reaches ctx inputs later last) (hle : n ≤ later) :
    Carries (Table.get? b.store key) (Table.get? last.store key) := by
  induction hlater with
  | enter henter =>
      have hzero : n = 0 := by omega
      subst hzero
      rw [hreach.unique (.enter henter)]
      exact .same _
  | @advance k middle next hmiddle hgoes hbudget hstep ih =>
      by_cases hbefore : n ≤ k
      · have hnested : ∀ node ∈ graph.topology.nodes, ∀ child, node.body = .subgraph child →
            ∀ store final, child.run store ctx = .ok final → ¬ Writes ctx key child store →
              Carries (Table.get? store key) (Table.get? final key) :=
          fun _ _ child _ => carries_of_not_writes child
        exact (ih hbefore).trans
          (advance_carries hnested hwrites ⟨k, hmiddle, hgoes, hbudget⟩ hstep)
      · have hsame : n = k + 1 := by omega
        subst hsame
        rw [hreach.unique (.advance hmiddle hgoes hbudget hstep)]
        exact .same _

/-- The first boundary has the key as it was entered, if the run does not write it. -/
theorem get?_first_of_not_writes (hwrites : ¬ Writes ctx key graph inputs) {b : Boundary}
    (henter : graph.machine.enter ctx inputs = .ok b) :
    Table.get? b.store key =
      (Table.get? inputs key).map ((KeyTable.rule graph.keys key).apply none) := by
  obtain ⟨targets, store, hfirst, hb⟩ := Machine.enter_eq_ok_iff.mp henter
  rw [← Store.get?_enter, hb, Boundary.at]
  rcases Machine.get?_successors key hfirst with hsame | ⟨router, decision, hrouter, hchoose, hkey⟩
  · exact hsame
  · exact absurd (.entry hrouter hchoose hkey) hwrites

/-- **A key that a run does not write is carried** to each of its boundaries. -/
theorem carries_to_boundary (hwrites : ¬ Writes ctx key graph inputs) {n : Nat} {b : Boundary}
    (hreach : graph.machine.Reaches ctx inputs n b) :
    Carries (Table.get? inputs key) (Table.get? b.store key) := by
  obtain ⟨first, henter⟩ := hreach.exists_first
  have hentered := Carries.enter graph.keys inputs key
  rw [Store.get?_enter, ← get?_first_of_not_writes hwrites henter] at hentered
  exact hentered.trans (carries_between hwrites (.enter henter) hreach (Nat.zero_le n))

/-- A value of which a run makes a list comes out as the list. -/
theorem get?_run_of_enlists (henlists : Enlists ctx key graph inputs) :
    ∀ final, graph.run inputs ctx = .ok final → ¬ Writes ctx key graph inputs →
      Table.get? final key = (Table.get? inputs key).map asList := by
  induction henlists with
  | @own graph inputs hrule =>
      intro final hrun hwrites
      rw [run_eq] at hrun
      cases Machine.ends_iff_run_eq.mpr hrun with
      | @halted n last hlast _ =>
          obtain ⟨first, henter⟩ := hlast.exists_first
          have hcarried := carries_between hwrites (.enter henter) hlast (Nat.zero_le n)
          rw [get?_first_of_not_writes hwrites henter, hrule] at hcarried
          exact hcarried.eq_of_list
  | @nested graph child inputs b front back id hsteps hfrontier hnode hlast _ ih =>
      intro final hrun hwrites
      rw [run_eq] at hrun
      obtain ⟨next, hstep, -⟩ := hsteps.advances hrun
      obtain ⟨merged, -, -, hmerged, -, -⟩ := Machine.advance_eq_ok_iff.mp hstep
      obtain ⟨inner, hinner, hchild, hsame⟩ := exists_run_of_last_nested hmerged
        (not_nodeWrites_of_not_writes hwrites hsteps) hfrontier hnode hlast
      have hnext : Table.get? next.store key = (Table.get? b.store key).map asList := by
        rw [get?_next_eq_merged hwrites hsteps hmerged hstep, hsame]
        exact ih inner hinner hchild
      -- the value was carried to this superstep, and its list is carried to the end
      obtain ⟨n, hreach, hgoes, hbudget⟩ := hsteps
      have hnextReach := hreach.advance hgoes hbudget hstep
      cases Machine.ends_iff_run_eq.mpr hrun with
      | @halted k last hend hhalts =>
          have hcarried := carries_between hwrites hnextReach hend
            (hnextReach.le_of_halts hend hhalts)
          rw [hnext, (carries_to_boundary hwrites hreach).map_asList] at hcarried
          exact hcarried.eq_of_list

/-- A value of which no list is made comes out as it went in. -/
theorem get?_run_of_not_enlists (graph : Graph) :
    ∀ inputs final, graph.run inputs ctx = .ok final → ¬ Writes ctx key graph inputs →
      ¬ Enlists ctx key graph inputs → Table.get? final key = Table.get? inputs key := by
  refine Graph.induct (motive := fun graph => ∀ inputs final, graph.run inputs ctx = .ok final →
    ¬ Writes ctx key graph inputs → ¬ Enlists ctx key graph inputs →
      Table.get? final key = Table.get? inputs key) ?_ graph
  intro graph hnested inputs final hrun hwrites henlists
  have hboundary : ∀ n b, graph.machine.Reaches ctx inputs n b →
      Table.get? b.store key = Table.get? inputs key := by
    intro n b hreach
    induction hreach with
    | enter henter =>
        rw [get?_first_of_not_writes hwrites henter]
        cases hrule : KeyTable.rule graph.keys key with
        | append => exact absurd (.own hrule) henlists
        | replace => cases Table.get? inputs key <;> rfl
        | merge => cases Table.get? inputs key <;> rfl
    | @advance n b next hreach hgoes hbudget hstep ih =>
        have hsteps : graph.machine.StepsFrom ctx inputs b := ⟨n, hreach, hgoes, hbudget⟩
        have hquiet := not_nodeWrites_of_not_writes hwrites hsteps
        obtain ⟨merged, -, -, hmerged, -, -⟩ := Machine.advance_eq_ok_iff.mp hstep
        rw [get?_next_eq_merged hwrites hsteps hmerged hstep, ← ih]
        by_cases hany : ∃ id ∈ b.frontier, graph.NestedAt id
        · obtain ⟨front, id, back, hfrontier, ⟨child, hnode⟩, hlast⟩ := Traversal.exists_last hany
          obtain ⟨inner, hinner, hchild, hsame⟩ :=
            exists_run_of_last_nested hmerged hquiet hfrontier hnode hlast
          rw [hsame]
          refine hnested _ (Machine.mem_of_node? hnode) child rfl b.store inner hinner hchild ?_
          exact fun hlisted => henlists (.nested hsteps hfrontier hnode hlast hlisted)
        · exact get?_merged_of_no_nested hmerged hquiet fun id hid hat => hany ⟨id, hid, hat⟩
  rw [run_eq] at hrun
  cases Machine.ends_iff_run_eq.mpr hrun with
  | halted hreach _ => exact hboundary _ _ hreach

/-! ## A nested graph alone in its superstep -/

/-- **A key that a nested graph does not write is kept, or turned into a list.**
A superstep runs nothing but a nested graph, and nothing that is executed in
it, at any depth, writes the key.  If the run of the nested graph makes a list of
the value, the list is there afterwards; otherwise the value is as it was.  So
a missing value stays missing and a list stays as it is; and a list is made
only if the nested graph or one within it appends to the key. -/
theorem unwritten_key_is_kept_or_listed {b : Boundary} {merged : Store} {id : String}
    (hfrontier : b.frontier = [id])
    (hnode : graph.topology.node? id = some ⟨id, .subgraph child⟩)
    (hmerged : graph.machine.actAll ctx b = .ok merged)
    (hwrites : ¬ Writes ctx key child b.store) :
    (Enlists ctx key child b.store →
        Table.get? merged key = (Table.get? b.store key).map asList) ∧
      (¬ Enlists ctx key child b.store → Table.get? merged key = Table.get? b.store key) ∧
      ((Table.get? b.store key = none ∨ ∃ items, Table.get? b.store key = some (.arr items)) →
        Table.get? merged key = Table.get? b.store key) ∧
      ((∀ inner : Graph, inner.Within child → KeyTable.rule inner.keys key ≠ .append) →
        Table.get? merged key = Table.get? b.store key) := by
  have hquiet : ∀ other ∈ b.frontier, ¬ graph.NodeWrites ctx key b.store other := by
    intro other hother hnodeWrites
    rw [hfrontier] at hother
    rw [List.mem_singleton.mp hother] at hnodeWrites
    cases hnodeWrites with
    | own hanswer hplain _ =>
        rw [(answer_nested hnode hanswer).1] at hplain
        cases hplain
    | nested hnode' hchild =>
        cases hnode.symm.trans hnode'
        exact hwrites hchild
  obtain ⟨final, hrun, -, hfinal⟩ := exists_run_of_last_nested hmerged hquiet
    (hfrontier.trans (List.nil_append _).symm) hnode (by simp)
  have hlisted : Enlists ctx key child b.store →
      Table.get? merged key = (Table.get? b.store key).map asList := by
    intro henlists
    rw [hfinal]
    exact get?_run_of_enlists henlists final hrun hwrites
  have hkept : ¬ Enlists ctx key child b.store →
      Table.get? merged key = Table.get? b.store key := by
    intro henlists
    rw [hfinal]
    exact get?_run_of_not_enlists child b.store final hrun hwrites henlists
  refine ⟨hlisted, hkept, ?_, ?_⟩
  · intro hbefore
    by_cases henlists : Enlists ctx key child b.store
    · rw [hlisted henlists]
      rcases hbefore with hnone | ⟨items, hitems⟩
      · rw [hnone]
        rfl
      · rw [hitems]
        rfl
    · exact hkept henlists
  · intro hrules
    refine hkept ?_
    intro henlists
    obtain ⟨inner, hinner, hrule⟩ := henlists.exists_within
    exact hrules inner hinner hrule

/-! ## A nested graph that does nothing -/

/-- A graph that does nothing, under rules of its own, in another graph without rules. -/
def aroundIdle (keys : KeyTable) : Graph where
  id := "parent"
  keys := .empty
  topology := { nodes := [⟨"inner", .subgraph (idleUnder keys)⟩], edges := [(startId, "inner")] }
  config := {}

/-- The rule that appends to one key. -/
def appendsTo (key : String) : KeyTable := .ofList [(key, .append)]

/-- A nested graph that appends to a key makes a list of the value it finds. -/
theorem value_is_listed_by_appending_nested_graph :
    (aroundIdle (appendsTo "k")).machine.StepsFrom {} besideStore ⟨besideStore, ["inner"]⟩ ∧
      ∃ merged, (aroundIdle (appendsTo "k")).machine.actAll {} ⟨besideStore, ["inner"]⟩ =
          .ok merged ∧
        Table.get? merged "k" = some (.arr [.bool false]) := by
  have hmerged : ∃ merged, (aroundIdle (appendsTo "k")).machine.actAll {}
      ⟨besideStore, ["inner"]⟩ = .ok merged := ⟨_, rfl⟩
  obtain ⟨merged, hmerged⟩ := hmerged
  refine ⟨⟨0, .enter rfl, rfl, by decide⟩, merged, hmerged, ?_⟩
  have hwrites : ¬ Writes {} "k" (idleUnder (appendsTo "k")) besideStore :=
    idleUnder_writes_nothing (appendsTo "k") besideStore
  obtain ⟨hlisted, -⟩ := unwritten_key_is_kept_or_listed rfl rfl hmerged hwrites
  exact hlisted (.own (by decide))

/-- **A key that nothing writes may change**: a nested graph that appends to it
turns its value into a list. -/
theorem not_every_unwritten_key_is_kept :
    ¬ ∀ (graph child : Graph) (draft inner : Draft) (calls innerCalls : List Draft.Call)
      (config innerConfig : CompileConfig) (ctx : RunConfig) (inputs merged : Store)
      (b : Boundary) (id key : String),
      inner.topology = {} → (inner.attemptAll innerCalls).compile innerConfig = .ok child →
      draft.topology = {} → (draft.attemptAll calls).compile config = .ok graph →
      graph.machine.StepsFrom ctx inputs b → b.frontier = [id] →
      graph.topology.node? id = some ⟨id, .subgraph child⟩ →
      graph.machine.actAll ctx b = .ok merged → ¬ Writes ctx key child b.store →
      Table.get? merged key = Table.get? b.store key := by
  intro hall
  have hmerged : ∃ merged, (aroundIdle (appendsTo "k")).machine.actAll {}
      ⟨besideStore, ["inner"]⟩ = .ok merged ∧
      Table.get? merged "k" = some (.arr [.bool false]) := ⟨_, rfl, rfl⟩
  obtain ⟨merged, hmerged, hlisted⟩ := hmerged
  have hkept := hall (aroundIdle (appendsTo "k")) (idleUnder (appendsTo "k"))
    { id := "parent", keys := .empty } { id := "idle", keys := appendsTo "k" }
    [.node "inner" (.subgraph (idleUnder (appendsTo "k"))), .edge startId "inner"]
    [.node "rest" (.action fun _ _ => .ok .empty), .edge startId "rest", .edge "rest" endId]
    {} {} {} besideStore merged ⟨besideStore, ["inner"]⟩ "inner" "k" rfl rfl rfl rfl
    ⟨0, .enter rfl, rfl, by decide⟩ rfl rfl hmerged
    (idleUnder_writes_nothing (appendsTo "k") besideStore)
  rw [hlisted] at hkept
  cases hkept

end Graph

end FlowGraph
