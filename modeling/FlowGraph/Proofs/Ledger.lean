import FlowGraph.Proofs.Writes
import Mathlib.Data.List.Induction

/-!
# The ledger of a run

Where no graph is nested, a store is nothing but what was written to it.  The
updates made on the way to a boundary are kept in a ledger: the inputs, the
update of the entry's router, and then for each superstep the answers of its
nodes and the updates of its routers, both in frontier order.  The value of a
key at the boundary is read off the entries that mention the key.

* `WriteRule.Accounts`: **what a key is worth after a sequence of writes**, said
  without making them one by one.
* `Machine.Ledger`: the updates made on the way to a boundary.
* `Ledger.store_eq`: a store is its ledger, written to an empty store.
* `every_write_counts_once`: the value of every key at every boundary.
-/

namespace FlowGraph

/-! ## Sequences of writes -/

/-- The fields of an object. -/
def Json.fields? : Json → Option (List (String × Json))
  | .obj fields => some fields
  | _ => none

namespace WriteRule

/-- The objects written after the last value that is not an object, latest first. -/
def latestObjects (writes : List Json) : List (List (String × Json)) :=
  (writes.reverse.takeWhile fun value => value.fields?.isSome).filterMap Json.fields?

/-- **What a key is worth after a sequence of writes.**  Replacing leaves the
last write.  Appending leaves the items of all of them.  Merging leaves the last
write if it is not an object, and else an object in which every field has its
latest value since the last write that was not an object. -/
def Accounts (rule : WriteRule) (writes : List Json) (value : Option Json) : Prop :=
  match rule with
  | .replace => value = writes.getLast?
  | .append => value = if writes = [] then none else some (.arr (writes.flatMap itemsOf))
  | .merge =>
    match writes.getLast? with
    | some (.obj _) =>
      ∃ fields, value = some (.obj fields) ∧
        (∀ name, Fields.get? name fields =
          (latestObjects writes).findSome? (Fields.get? name)) ∧
        ((∀ object ∈ latestObjects writes, Fields.Sorted object) → Fields.Sorted fields)
    | last => value = last

/-- Make a sequence of writes, one by one. -/
def writeInTurn (rule : WriteRule) (current : Option Json) (writes : List Json) : Option Json :=
  writes.foldl (fun value write => some (rule.apply value write)) current

/-- The last of several writes joins what the others have come to. -/
theorem writeInTurn_concat (rule : WriteRule) (current : Option Json) (writes : List Json)
    (write : Json) :
    rule.writeInTurn current (writes ++ [write]) =
      some (rule.apply (rule.writeInTurn current writes) write) := by
  simp [writeInTurn, List.foldl_append]

/-- One more object goes on top of the latest ones. -/
theorem latestObjects_concat_object (writes : List Json) (fields : List (String × Json)) :
    latestObjects (writes ++ [.obj fields]) = fields :: latestObjects writes := by
  simp [latestObjects, Json.fields?]

/-- Behind a value that is not an object the objects begin anew. -/
theorem latestObjects_of_last {writes : List Json}
    (h : ∀ fields, writes.getLast? ≠ some (.obj fields)) : latestObjects writes = [] := by
  cases hreverse : writes.reverse with
  | nil => simp [latestObjects, hreverse]
  | cons last rest =>
      have hlast : writes.getLast? = some last := by
        rw [← List.head?_reverse, hreverse]
        rfl
      have hother : last.fields? = none := by
        cases last with
        | obj fields => exact absurd hlast (h fields)
        | _ => rfl
      simp [latestObjects, hreverse, hother]

/-- An account of what was appended takes one more write. -/
theorem accounts_concat_append {writes : List Json} {value : Option Json}
    (h : Accounts .append writes value) (write : Json) :
    Accounts .append (writes ++ [write]) (some (apply .append value write)) := by
  have hcurrent : currentItems value = writes.flatMap itemsOf := by
    have hvalue : value = if writes = [] then none else some (.arr (writes.flatMap itemsOf)) := h
    rw [hvalue]
    by_cases hempty : writes = []
    · simp [hempty, currentItems]
    · simp [hempty, currentItems, itemsOf]
  simp [Accounts, apply, hcurrent, List.flatMap_append]

/-- An account of what was merged takes one more write. -/
theorem accounts_concat_merge {writes : List Json} {value : Option Json}
    (h : Accounts .merge writes value) (write : Json) :
    Accounts .merge (writes ++ [write]) (some (apply .merge value write)) := by
  cases write with
  | obj patch =>
      simp only [Accounts, List.getLast?_concat, latestObjects_concat_object]
      by_cases hobject : ∃ fields, writes.getLast? = some (.obj fields)
      · -- the patch is written over an object that shows the earlier ones
        obtain ⟨last, hlast⟩ := hobject
        simp only [Accounts, hlast] at h
        obtain ⟨fields, hvalue, hlatest, hsorted⟩ := h
        refine ⟨Fields.override fields patch, by rw [hvalue]; rfl, ?_, ?_⟩
        · intro name
          rw [Fields.get?_override, hlatest, List.findSome?_cons]
          cases Fields.get? name patch <;> rfl
        · intro hall
          have hrest := (List.forall_mem_cons.mp hall).2
          exact Fields.sorted_override patch (hsorted hrest)
      · -- the patch takes the place of whatever is there
        have hlast : ∀ fields, writes.getLast? ≠ some (.obj fields) :=
          fun fields heq => hobject ⟨fields, heq⟩
        have hnone := latestObjects_of_last hlast
        have hvalue : value = writes.getLast? := by
          cases hwrites : writes.getLast? with
          | none => simpa [Accounts, hwrites] using h
          | some last =>
              cases last with
              | obj fields => exact absurd hwrites (hlast fields)
              | _ => simpa [Accounts, hwrites] using h
        refine ⟨patch, ?_, ?_, ?_⟩
        · rw [hvalue]
          cases hwrites : writes.getLast? with
          | none => rfl
          | some last =>
              cases last with
              | obj fields => exact absurd hwrites (hlast fields)
              | _ => rfl
        · intro name
          rw [hnone, List.findSome?_cons]
          cases Fields.get? name patch <;> rfl
        · intro hall
          exact hall patch List.mem_cons_self
  | _ =>
      simp only [Accounts, List.getLast?_concat]
      cases value with
      | none => rfl
      | some current => cases current <;> rfl

/-- **Writes made in turn account for themselves**, under every rule. -/
theorem accounts_writeInTurn (rule : WriteRule) (writes : List Json) :
    rule.Accounts writes (rule.writeInTurn none writes) := by
  induction writes using List.reverseRecOn with
  | nil => cases rule <;> rfl
  | append_singleton writes write ih =>
      rw [writeInTurn_concat]
      cases rule with
      | replace => simp [Accounts, apply]
      | append => exact accounts_concat_append ih write
      | merge => exact accounts_concat_merge ih write

/-- There is a value iff there was a write. -/
theorem isSome_writeInTurn (rule : WriteRule) (writes : List Json) :
    (rule.writeInTurn none writes).isSome = true ↔ writes ≠ [] := by
  induction writes using List.reverseRecOn with
  | nil => simp [writeInTurn]
  | append_singleton writes write _ => simp [writeInTurn_concat]

end WriteRule

/-- Updates act on each key by themselves. -/
theorem Store.get?_foldl_update (keys : KeyTable) (updates : List Update) (store : Store)
    (key : String) :
    Table.get? (updates.foldl (Store.update keys) store) key =
      (KeyTable.rule keys key).writeInTurn (Table.get? store key)
        (updates.filterMap fun update => Table.get? update key) := by
  induction updates generalizing store with
  | nil => rfl
  | cons update rest ih =>
      rw [List.foldl_cons, ih, Store.get?_update, List.filterMap_cons]
      cases Table.get? update key <;> rfl

/-! ## What a run writes, in order -/

namespace Machine

variable {m : Machine} {ctx : RunConfig} {inputs : Store}

/-- The updates of the routers of some sources, each of which sees the earlier ones. -/
def routerUpdates (m : Machine) (ctx : RunConfig) : List String → Store → List Update
  | [], _ => []
  | source :: rest, store =>
    match m.topology.router? source with
    | none => m.routerUpdates ctx rest store
    | some router =>
      match router.choose store ctx with
      | .error _ => []
      | .ok decision =>
        decision.update :: m.routerUpdates ctx rest (store.update m.keys decision.update)

/-- **The updates made on the way to a boundary**, first one first. -/
inductive Ledger (m : Machine) (ctx : RunConfig) (inputs : Store) :
    Nat → Boundary → List Update → Prop
  | enter {b : Boundary} (henter : m.enter ctx inputs = .ok b) :
      Ledger m ctx inputs 0 b
        (inputs :: m.routerUpdates ctx [startId] (Store.enter m.keys inputs))
  | advance {n : Nat} {b next : Boundary} {updates : List Update}
      {results : List (Node Runner × Update)} {merged : Store}
      (hledger : Ledger m ctx inputs n b updates) (hgoes : m.halts b = false)
      (hbudget : n < m.config.maxSteps)
      (hresults : b.frontier.mapM (m.answer ctx b.store) = .ok results)
      (hmerged : m.actAll ctx b = .ok merged) (hstep : m.advance ctx b = .ok next) :
      Ledger m ctx inputs (n + 1) next
        (updates ++ results.map Prod.snd ++ m.routerUpdates ctx b.frontier merged)

/-- A ledger is kept for boundaries that the run reaches. -/
theorem Ledger.reaches {n : Nat} {b : Boundary} {updates : List Update}
    (h : m.Ledger ctx inputs n b updates) : m.Reaches ctx inputs n b := by
  induction h with
  | enter henter => exact .enter henter
  | advance _ hgoes hbudget _ _ hstep ih => exact .advance ih hgoes hbudget hstep

/-- There is one ledger for each boundary. -/
theorem Ledger.unique {n : Nat} {b b' : Boundary} {updates updates' : List Update}
    (h : m.Ledger ctx inputs n b updates) (h' : m.Ledger ctx inputs n b' updates') :
    updates = updates' := by
  induction h generalizing b' updates' with
  | enter _ =>
      cases h' with
      | enter _ => rfl
  | advance hledger _ _ hresults hmerged _ ih =>
      cases h' with
      | advance hledger' _ _ hresults' hmerged' _ =>
          have hsame := hledger.reaches.unique hledger'.reaches
          rw [← hsame] at hresults' hmerged'
          cases hresults.symm.trans hresults'
          cases hmerged.symm.trans hmerged'
          rw [ih hledger', hsame]

/-- Every boundary of a run has a ledger. -/
theorem Reaches.exists_ledger {n : Nat} {b : Boundary} (h : m.Reaches ctx inputs n b) :
    ∃ updates, m.Ledger ctx inputs n b updates := by
  induction h with
  | enter henter => exact ⟨_, .enter henter⟩
  | advance _ hgoes hbudget hstep ih =>
      obtain ⟨updates, hledger⟩ := ih
      obtain ⟨merged, targets, store, hmerged, -, -⟩ := advance_eq_ok_iff.mp hstep
      obtain ⟨results, hresults, -⟩ := actAll_eq_ok_iff.mp hmerged
      exact ⟨_, .advance hledger hgoes hbudget hresults hmerged hstep⟩

/-! ## A store is its ledger -/

/-- A source that leads on writes the update of its router and nothing else. -/
theorem routerUpdates_cons {source : String} {store after : Store} {targets : List String}
    (h : m.successors ctx source store = .ok (targets, after)) (rest : List String) :
    ∃ own, m.routerUpdates ctx (source :: rest) store = own ++ m.routerUpdates ctx rest after ∧
      after = own.foldl (Store.update m.keys) store := by
  rcases successors_eq_ok h with ⟨hrouter, -, hsame⟩ |
    ⟨router, decision, target, hrouter, hchoose, -, -, hwrite⟩
  · refine ⟨[], ?_, hsame⟩
    simp only [routerUpdates, hrouter, hsame, List.nil_append]
  · refine ⟨[decision.update], ?_, hwrite⟩
    simp only [routerUpdates, hrouter, hchoose, hwrite, List.cons_append, List.nil_append]

/-- The routers of a superstep write their updates in frontier order. -/
theorem routeAll_eq_foldl {ids next last : List String} {store after : Store}
    (h : m.routeAll ctx ids next store = .ok (last, after)) :
    after = (m.routerUpdates ctx ids store).foldl (Store.update m.keys) store := by
  induction ids generalizing next store with
  | nil =>
      cases h
      rfl
  | cons id rest ih =>
      rw [routeAll] at h
      cases hid : m.successors ctx id store with
      | error fault => simp [hid] at h
      | ok found =>
          obtain ⟨targets, middle⟩ := found
          simp only [hid] at h
          obtain ⟨own, hown, hmiddle⟩ := routerUpdates_cons hid rest
          rw [hown, List.foldl_append, ← hmiddle]
          exact ih h

/-- Without nested graphs the answers of nodes are written under the rules of the keys. -/
theorem foldl_absorb_eq {results : List (Node Runner × Update)}
    (hplain : ∀ result ∈ results, result.1.body.isSubgraph = false) (store : Store) :
    results.foldl m.absorb store =
      (results.map Prod.snd).foldl (Store.update m.keys) store := by
  induction results generalizing store with
  | nil => rfl
  | cons result rest ih =>
      obtain ⟨hhead, hrest⟩ := List.forall_mem_cons.mp hplain
      have habsorb : m.absorb store result = store.update m.keys result.2 := by
        simp [absorb, rulesFor, hhead]
      rw [List.foldl_cons, List.map_cons, List.foldl_cons, habsorb]
      exact ih hrest _

/-- **A store is its ledger**, written to an empty store. -/
theorem Ledger.store_eq
    (hplain : ∀ store id node update, m.answer ctx store id = .ok (node, update) →
      node.body.isSubgraph = false)
    {n : Nat} {b : Boundary} {updates : List Update} (h : m.Ledger ctx inputs n b updates) :
    b.store = updates.foldl (Store.update m.keys) .empty := by
  induction h with
  | @enter b henter =>
      obtain ⟨targets, store, hfirst, hb⟩ := enter_eq_ok_iff.mp henter
      obtain ⟨own, hown, hstore⟩ := routerUpdates_cons hfirst []
      have hupdates : m.routerUpdates ctx [startId] (Store.enter m.keys inputs) = own := by
        simpa [routerUpdates, Store.enter] using hown
      rw [hb, List.foldl_cons, hupdates]
      exact hstore
  | @advance n b next updates results merged _ _ _ hresults hmerged hstep ih =>
      obtain ⟨merged', targets, store, hmerged', hroute, hnext⟩ := advance_eq_ok_iff.mp hstep
      cases hmerged.symm.trans hmerged'
      obtain ⟨results', hresults', hfold⟩ := actAll_eq_ok_iff.mp hmerged
      cases hresults.symm.trans hresults'
      have hnodes : ∀ result ∈ results, result.1.body.isSubgraph = false := by
        intro result hresult
        obtain ⟨id, -, hanswer⟩ := Traversal.exists_asked hresults hresult
        exact hplain b.store id result.1 result.2 hanswer
      rw [foldl_absorb_eq hnodes, ih] at hfold
      rw [hnext, List.foldl_append, List.foldl_append, ← hfold]
      exact routeAll_eq_foldl hroute

end Machine

namespace Graph

variable {graph : Graph} {ctx : RunConfig} {inputs : Store}

/-- **Every write counts once, in its order.**  In a graph without nested graphs
each boundary of a run has one ledger, and with the entries that mention a key
the ledger accounts for its value there: no entries, no value, and else the
value that the rule of the key makes of them. -/
theorem every_write_counts_once
    (hflat : ∀ node ∈ graph.topology.nodes, node.body.isSubgraph = false) {n : Nat} {b : Boundary}
    (hreach : graph.machine.Reaches ctx inputs n b) :
    ∃ updates, (∀ other, graph.machine.Ledger ctx inputs n b other ↔ other = updates) ∧
      ∀ key, let writes := updates.filterMap fun update => Table.get? update key
        ((Table.get? b.store key).isSome = true ↔ writes ≠ []) ∧
          (KeyTable.rule graph.keys key).Accounts writes (Table.get? b.store key) := by
  have hplain : ∀ store id node update,
      graph.machine.answer ctx store id = .ok (node, update) → node.body.isSubgraph = false := by
    intro store id node update hanswer
    rcases answer_cases hanswer with hown | ⟨child, hnode, -, -⟩
    · exact hown
    · exact absurd (hflat _ (Machine.mem_of_node? hnode)) (by simp [Body.isSubgraph])
  -- without nested graphs a store is its ledger, written key by key
  obtain ⟨updates, hledger⟩ := hreach.exists_ledger
  refine ⟨updates, ?_, ?_⟩
  · intro other
    constructor
    · intro hother
      exact hother.unique hledger
    · intro hsame
      rw [hsame]
      exact hledger
  · intro key
    have hkey : Table.get? b.store key = (KeyTable.rule graph.keys key).writeInTurn none
        (updates.filterMap fun update => Table.get? update key) := by
      rw [hledger.store_eq hplain]
      exact Store.get?_foldl_update graph.machine.keys updates .empty key
    simp only [hkey]
    exact ⟨WriteRule.isSome_writeInTurn _ _, WriteRule.accounts_writeInTurn _ _⟩

/-- An update of the log. -/
def logged (value : Json) : Update := .ofList [("log", value)]

/-- Two speakers side by side, and a router that has the last word. -/
def roundTable : Graph where
  id := "round table"
  keys := .ofList [("log", .append)]
  topology :=
    { nodes :=
        [⟨"first", .action fun _ _ => .ok (logged (.arr [.str "one", .str "two"]))⟩,
         ⟨"second", .executor fun _ _ _ => .ok (logged .null)⟩]
      edges := [(startId, "first"), (startId, "second")]
      routers := [("second",
        ⟨fun _ _ => .ok { goto := "close", update := logged (.str "done") },
          .ofList [("close", endId)]⟩)] }
  config := {}

/-- After the first superstep the log holds the input and all that was said. -/
theorem appended_list_holds_input_and_all_writes :
    (∀ node ∈ roundTable.topology.nodes, node.body.isSubgraph = false) ∧
      ∃ b, roundTable.machine.Reaches {} (logged (.str "topic")) 1 b ∧
        Table.get? b.store "log" =
          some (.arr [.str "topic", .str "one", .str "two", .null, .str "done"]) := by
  have hflat : ∀ node ∈ roundTable.topology.nodes, node.body.isSubgraph = false := by
    simp [roundTable, Body.isSubgraph]
  obtain ⟨first, henter⟩ : ∃ b, roundTable.machine.enter {} (logged (.str "topic")) = .ok b :=
    ⟨_, rfl⟩
  obtain ⟨merged, hmerged⟩ : ∃ merged, roundTable.machine.actAll {} first = .ok merged := by
    cases henter
    exact ⟨_, rfl⟩
  obtain ⟨b, hstep⟩ : ∃ b, roundTable.machine.advance {} first = .ok b := by
    cases henter
    exact ⟨_, rfl⟩
  have hledger : roundTable.machine.Ledger {} (logged (.str "topic")) 1 b
      [logged (.str "topic"), logged (.arr [.str "one", .str "two"]), logged .null,
        logged (.str "done")] := by
    cases henter
    exact .advance (.enter rfl) rfl (by decide) rfl hmerged hstep
  obtain ⟨updates, honly, haccounts⟩ := every_write_counts_once hflat hledger.reaches
  cases (honly _).mp hledger
  exact ⟨hflat, b, hledger.reaches, (haccounts "log").2⟩

end Graph

end FlowGraph
