import FlowGraph.Proofs.Boundaries

/-!
# Stores across a run

Nothing takes a key out of a store: updates write, and a nested graph hands
back all that it was given.  So every store of a run covers the ones before it.
Two more facts make runs compose: entering a graph with a store that was
entered already changes nothing, and writing back a store that covers the
present one puts it in its place.

* `Store.enter_enter`: **entering is done once**, for all write rules.
* `Reaches.final_covers`, `run_covers`: what a run holds it keeps.
* `run_enter`: a run on inputs is a run on what they become.
-/

namespace FlowGraph

/-- The list of the items of a value. -/
def asList (value : Json) : Json := .arr (WriteRule.itemsOf value)

namespace Store

/-- Every key of the earlier store has a value in the later one. -/
def Covers (later earlier : Store) : Prop :=
  ∀ key, Table.get? earlier key ≠ none → Table.get? later key ≠ none

/-- A store covers itself. -/
theorem Covers.refl (store : Store) : store.Covers store := fun _ h => h

/-- A store that covers one that covers a third covers the third. -/
theorem Covers.trans {last middle first : Store} (hlast : last.Covers middle)
    (hfirst : middle.Covers first) : last.Covers first :=
  fun key h => hlast key (hfirst key h)

/-- An update takes no key away. -/
theorem update_covers (keys : KeyTable) (store : Store) (u : Update) :
    (Store.update keys store u).Covers store := by
  intro key h
  rw [get?_update]
  cases Table.get? u key with
  | none => exact h
  | some value => simp

/-- Without rules every key is replaced. -/
theorem rule_empty (key : String) : KeyTable.rule .empty key = .replace := rfl

/-- Without rules every value of an update stands as it is. -/
theorem get?_update_empty (store : Store) (u : Update) (key : String) :
    Table.get? (Store.update .empty store u) key =
      (Table.get? u key).or (Table.get? store key) := by
  rw [get?_update, rule_empty]
  cases Table.get? u key <;> rfl

/-- A whole store that covers the present one takes its place. -/
theorem update_empty_of_covers {store u : Store} (h : Covers u store) :
    Store.update .empty store u = u := by
  refine Table.ext_get? fun key => ?_
  rw [get?_update_empty]
  cases hu : Table.get? u key with
  | some value => rfl
  | none =>
      have hstore : Table.get? store key = none := by
        by_contra hne
        exact h key hne hu
      rw [hstore]
      rfl

/-! ## Entering a graph -/

/-- The store that a run starts with: the inputs, written under the rules of
their keys. -/
def enter (keys : KeyTable) (inputs : Store) : Store := update keys .empty inputs

/-- Entering makes a first write of every input. -/
theorem get?_enter (keys : KeyTable) (inputs : Store) (key : String) :
    Table.get? (enter keys inputs) key =
      (Table.get? inputs key).map ((KeyTable.rule keys key).apply none) := by
  unfold enter
  rw [get?_update]
  cases Table.get? inputs key <;> rfl

/-- What is entered covers the inputs. -/
theorem enter_covers (keys : KeyTable) (inputs : Store) : (enter keys inputs).Covers inputs := by
  intro key h
  rw [get?_enter]
  cases hinputs : Table.get? inputs key with
  | none => exact absurd hinputs h
  | some value => simp

/-- A first write is worth the same if it is made twice. -/
theorem apply_none_idem (rule : WriteRule) (value : Json) :
    rule.apply none (rule.apply none value) = rule.apply none value := by
  cases rule <;> rfl

/-- **Entering is done once.** -/
theorem enter_enter (keys : KeyTable) (inputs : Store) :
    enter keys (enter keys inputs) = enter keys inputs := by
  refine Table.ext_get? fun key => ?_
  rw [get?_enter, get?_enter]
  cases Table.get? inputs key with
  | none => rfl
  | some value =>
      simp only [Option.map_some]
      rw [apply_none_idem]

end Store

namespace Machine

variable {m : Machine} {ctx : RunConfig} {inputs : Store}

/-- The router of a source takes no key away. -/
theorem successors_covers {source : String} {store after : Store} {targets : List String}
    (h : m.successors ctx source store = .ok (targets, after)) : after.Covers store := by
  rcases successors_eq_ok h with ⟨-, -, hsame⟩ | ⟨router, decision, target, -, -, -, -, hwrite⟩
  · rw [hsame]
    exact Store.Covers.refl store
  · rw [hwrite]
    exact Store.update_covers m.keys store decision.update

/-- Writing the updates of nodes takes no key away. -/
theorem foldl_absorb_covers (results : List (Node Runner × Update)) (store : Store) :
    (results.foldl m.absorb store).Covers store := by
  induction results generalizing store with
  | nil => exact Store.Covers.refl store
  | cons result rest ih =>
      rw [List.foldl_cons]
      exact (ih (m.absorb store result)).trans (Store.update_covers _ store result.2)

/-- The nodes of a frontier take no key away. -/
theorem actAll_covers {b : Boundary} {merged : Store} (h : m.actAll ctx b = .ok merged) :
    merged.Covers b.store := by
  obtain ⟨results, -, hmerged⟩ := actAll_eq_ok_iff.mp h
  rw [hmerged]
  exact foldl_absorb_covers results b.store

/-- The routers of a frontier take no key away. -/
theorem routeAll_covers {ids next last : List String} {store after : Store}
    (h : m.routeAll ctx ids next store = .ok (last, after)) : after.Covers store := by
  refine routeAll_invariant (P := fun _ later => later.Covers store) ?_
    (Store.Covers.refl store) h
  intro id _ _ middle targets later hmiddle hlater
  exact (successors_covers hlater).trans hmiddle

/-- A superstep keeps every key. -/
theorem advance_covers {b next : Boundary} (h : m.advance ctx b = .ok next) :
    next.store.Covers b.store := by
  obtain ⟨merged, targets, store, hmerged, hroute, hnext⟩ := advance_eq_ok_iff.mp h
  rw [hnext]
  exact (routeAll_covers hroute).trans (actAll_covers hmerged)

/-- The first boundary covers what has been entered. -/
theorem enter_boundary_covers {b : Boundary} (h : m.enter ctx inputs = .ok b) :
    b.store.Covers (Store.enter m.keys inputs) := by
  obtain ⟨targets, store, hfirst, hb⟩ := enter_eq_ok_iff.mp h
  rw [hb]
  exact successors_covers hfirst

/-- The rest of a run takes no key away. -/
theorem loop_covers {budget : Nat} {b : Boundary} {final : Store}
    (h : m.loop ctx budget b = .ok final) : final.Covers b.store := by
  induction budget generalizing b with
  | zero =>
      rw [loop] at h
      split at h
      · rw [← Except.ok.inj h]
        exact Store.Covers.refl b.store
      · cases h
  | succ budget ih =>
      cases hhalts : m.halts b with
      | true =>
          rw [loop_of_halts m ctx _ hhalts] at h
          rw [← Except.ok.inj h]
          exact Store.Covers.refl b.store
      | false =>
          rw [loop_succ m ctx budget hhalts] at h
          obtain ⟨next, hstep, hrest⟩ := Traversal.bind_eq_ok_iff.mp h
          exact (ih hrest).trans (advance_covers hstep)

/-- **What a run holds it keeps**: its result covers every boundary that it passes. -/
theorem Reaches.final_covers {n : Nat} {b : Boundary} {final : Store}
    (h : m.Reaches ctx inputs n b) (hrun : m.run inputs ctx = .ok final) :
    final.Covers b.store := by
  rw [h.run_eq_loop] at hrun
  exact loop_covers hrun

/-- A run that succeeds makes every superstep that it comes to. -/
theorem Reaches.advances {n : Nat} {b : Boundary} {final : Store}
    (h : m.Reaches ctx inputs n b) (hgoes : m.halts b = false) (hbudget : n < m.config.maxSteps)
    (hrun : m.run inputs ctx = .ok final) : ∃ next, m.advance ctx b = .ok next := by
  have hleft : m.config.maxSteps - n = (m.config.maxSteps - (n + 1)) + 1 := by omega
  rw [h.run_eq_loop, hleft, loop_succ m ctx _ hgoes] at hrun
  obtain ⟨next, hstep, -⟩ := Traversal.bind_eq_ok_iff.mp hrun
  exact ⟨next, hstep⟩

/-- The result of a run covers what its inputs become. -/
theorem run_covers {final : Store} (h : m.run inputs ctx = .ok final) :
    final.Covers (Store.enter m.keys inputs) := by
  unfold run at h
  cases henter : m.enter ctx inputs with
  | error fault => simp [henter] at h
  | ok b =>
      simp only [henter] at h
      exact (loop_covers h).trans (enter_boundary_covers henter)

/-- **A run on inputs is a run on what they become.** -/
theorem run_enter (m : Machine) (ctx : RunConfig) (inputs : Store) :
    m.run (Store.enter m.keys inputs) ctx = m.run inputs ctx := by
  have henter : m.enter ctx (Store.enter m.keys inputs) = m.enter ctx inputs := by
    have hsame : Store.update m.keys .empty (Store.enter m.keys inputs) =
        Store.update m.keys .empty inputs := Store.enter_enter m.keys inputs
    unfold enter
    rw [hsame]
  unfold run
  rw [henter]

end Machine

end FlowGraph
