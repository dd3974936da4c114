import FlowGraph.Proofs.Superstep

/-!
# The boundaries of a run

A run passes boundaries until it ends.  `Reaches` is the thin relation over
`enter` and `advance` that says at which boundary a run stands after a number
of supersteps, and `Ends` says how a run may end.  Both describe the one run
that the machine makes: a run stands at one boundary at a time, and
`ends_iff_run_eq` identifies its end with its result.

* `Reaches.invariant`: **induction on supersteps.**
* `ends_iff_run_eq`: a run ends in one of four ways, and only in that one.
-/

namespace FlowGraph.Machine

variable {m : Machine} {ctx : RunConfig} {inputs : Store}

/-- The first boundary holds what leaves the entry, after the inputs have been written. -/
theorem enter_eq_ok_iff {b : Boundary} :
    m.enter ctx inputs = .ok b ↔
      ∃ targets store, m.successors ctx startId (Store.update m.keys .empty inputs) =
        .ok (targets, store) ∧ b = .at store targets := by
  unfold enter
  rw [Traversal.bind_eq_ok_iff]
  constructor
  · intro h
    obtain ⟨⟨targets, store⟩, hfirst, hb⟩ := h
    exact ⟨targets, store, hfirst, (Except.ok.inj hb).symm⟩
  · intro h
    obtain ⟨targets, store, hfirst, rfl⟩ := h
    exact ⟨(targets, store), hfirst, rfl⟩

/-- A run is not entered iff the router of the entry fails. -/
theorem enter_eq_error_iff {fault : Fault} :
    m.enter ctx inputs = .error fault ↔
      m.successors ctx startId (Store.update m.keys .empty inputs) = .error fault := by
  unfold enter
  rw [Traversal.bind_eq_error_iff]
  constructor
  · intro h
    rcases h with h | ⟨_, _, hpure⟩
    · exact h
    · cases hpure
  · exact Or.inl

/-- **One superstep**: the writes of the frontier's nodes, and then what its
sources lead to. -/
theorem advance_eq_ok_iff {b next : Boundary} :
    m.advance ctx b = .ok next ↔
      ∃ merged targets store, m.actAll ctx b = .ok merged ∧
        m.routeAll ctx b.frontier [] merged = .ok (targets, store) ∧
        next = .at store targets := by
  unfold advance
  rw [Traversal.bind_eq_ok_iff]
  constructor
  · intro h
    obtain ⟨merged, hmerged, hrest⟩ := h
    obtain ⟨⟨targets, store⟩, hroute, hnext⟩ := Traversal.bind_eq_ok_iff.mp hrest
    exact ⟨merged, targets, store, hmerged, hroute, (Except.ok.inj hnext).symm⟩
  · intro h
    obtain ⟨merged, targets, store, hmerged, hroute, rfl⟩ := h
    exact ⟨merged, hmerged, Traversal.bind_eq_ok_iff.mpr ⟨(targets, store), hroute, rfl⟩⟩

/-- A superstep fails in its nodes, or after them in its routers. -/
theorem advance_eq_error_iff {b : Boundary} {fault : Fault} :
    m.advance ctx b = .error fault ↔
      m.actAll ctx b = .error fault ∨
        ∃ merged, m.actAll ctx b = .ok merged ∧
          m.routeAll ctx b.frontier [] merged = .error fault := by
  unfold advance
  rw [Traversal.bind_eq_error_iff]
  constructor
  · intro h
    rcases h with hact | ⟨merged, hmerged, hrest⟩
    · exact Or.inl hact
    · rcases Traversal.bind_eq_error_iff.mp hrest with hroute | ⟨_, _, hpure⟩
      · exact Or.inr ⟨merged, hmerged, hroute⟩
      · cases hpure
  · intro h
    rcases h with hact | ⟨merged, hmerged, hroute⟩
    · exact Or.inl hact
    · exact Or.inr ⟨merged, hmerged, Traversal.bind_eq_error_iff.mpr (Or.inl hroute)⟩

/-! ## Options -/

/-- A machine with other options. -/
def withConfig (m : Machine) (config : CompileConfig) : Machine := { m with config }

/-- Routers do not look at options. -/
theorem routeAll_withConfig (m : Machine) (config : CompileConfig) (ctx : RunConfig)
    (ids next : List String) (store : Store) :
    (m.withConfig config).routeAll ctx ids next store = m.routeAll ctx ids next store := by
  induction ids generalizing next store with
  | nil => rfl
  | cons id rest ih =>
      have hsource : (m.withConfig config).successors ctx id store = m.successors ctx id store := rfl
      rw [routeAll, routeAll, hsource]
      cases m.successors ctx id store with
      | error fault => rfl
      | ok result =>
          obtain ⟨targets, after⟩ := result
          exact ih (addNew next targets) after

/-- **Options have no part in a superstep**; they say where a run ends. -/
theorem advance_withConfig (m : Machine) (config : CompileConfig) (ctx : RunConfig)
    (b : Boundary) : (m.withConfig config).advance ctx b = m.advance ctx b := by
  have hact : (m.withConfig config).actAll ctx b = m.actAll ctx b := rfl
  have hroute : (m.withConfig config).routeAll ctx b.frontier [] =
      m.routeAll ctx b.frontier [] := by
    funext store
    exact routeAll_withConfig m config ctx b.frontier [] store
  unfold advance
  rw [hact, hroute]

/-! ## Boundaries -/

/-- The run on some inputs stands at a boundary after a number of supersteps. -/
inductive Reaches (m : Machine) (ctx : RunConfig) (inputs : Store) : Nat → Boundary → Prop
  | enter {b : Boundary} (henter : m.enter ctx inputs = .ok b) : Reaches m ctx inputs 0 b
  | advance {n : Nat} {b next : Boundary} (hreach : Reaches m ctx inputs n b)
      (hgoes : m.halts b = false) (hbudget : n < m.config.maxSteps)
      (hstep : m.advance ctx b = .ok next) : Reaches m ctx inputs (n + 1) next

/-- The ways in which a run may end. -/
inductive Ends (m : Machine) (ctx : RunConfig) (inputs : Store) : Except Fault Store → Prop
  /-- The router of the entry fails. -/
  | refused {fault : Fault} (henter : m.enter ctx inputs = .error fault) :
      Ends m ctx inputs (.error fault)
  /-- Nothing is left to run, or a node to stop before is next. -/
  | halted {n : Nat} {b : Boundary} (hreach : m.Reaches ctx inputs n b)
      (hhalts : m.halts b = true) : Ends m ctx inputs (.ok b.store)
  /-- There are nodes to run and no steps left. -/
  | spent {b : Boundary} (hreach : m.Reaches ctx inputs m.config.maxSteps b)
      (hgoes : m.halts b = false) :
      Ends m ctx inputs (.error (.stepLimitExceeded m.config.maxSteps))
  /-- A superstep fails. -/
  | failed {n : Nat} {b : Boundary} {fault : Fault} (hreach : m.Reaches ctx inputs n b)
      (hgoes : m.halts b = false) (hbudget : n < m.config.maxSteps)
      (hstep : m.advance ctx b = .error fault) : Ends m ctx inputs (.error fault)

/-- **Induction on supersteps.**  What holds where a run begins, and is kept by
every superstep that it makes, holds at every boundary. -/
theorem Reaches.invariant {P : Boundary → Prop}
    (hfirst : ∀ b, m.enter ctx inputs = .ok b → P b)
    (hstep : ∀ b next, P b → m.halts b = false → m.advance ctx b = .ok next → P next)
    {n : Nat} {b : Boundary} (h : m.Reaches ctx inputs n b) : P b := by
  induction h with
  | enter henter => exact hfirst _ henter
  | advance _ hgoes _ hadvance ih => exact hstep _ _ ih hgoes hadvance

/-- A run stands at one boundary at a time. -/
theorem Reaches.unique {n : Nat} {b b' : Boundary} (h : m.Reaches ctx inputs n b)
    (h' : m.Reaches ctx inputs n b') : b = b' := by
  induction h generalizing b' with
  | enter henter =>
      cases h' with
      | enter henter' => exact Except.ok.inj (henter.symm.trans henter')
  | advance _ _ _ hstep ih =>
      cases h' with
      | advance hreach' _ _ hstep' =>
          rw [ih hreach'] at hstep
          exact Except.ok.inj (hstep.symm.trans hstep')

/-- One superstep leads from a boundary to the one after it. -/
theorem Reaches.advance_eq {n : Nat} {b next : Boundary} (h : m.Reaches ctx inputs n b)
    (hnext : m.Reaches ctx inputs (n + 1) next) : m.advance ctx b = .ok next := by
  cases hnext with
  | advance hreach _ _ hstep =>
      rw [h.unique hreach]
      exact hstep

/-- A run that reaches a boundary was entered. -/
theorem Reaches.exists_first {n : Nat} {b : Boundary} (h : m.Reaches ctx inputs n b) :
    ∃ first, m.enter ctx inputs = .ok first := by
  induction h with
  | enter henter => exact ⟨_, henter⟩
  | advance _ _ _ _ ih => exact ih

/-- Where a run ends it has passed all its boundaries. -/
theorem Reaches.le_of_halts {n k : Nat} {b last : Boundary} (h : m.Reaches ctx inputs n b)
    (hlast : m.Reaches ctx inputs k last) (hhalts : m.halts last = true) : n ≤ k := by
  induction h with
  | enter _ => exact Nat.zero_le k
  | @advance n b next hreach hgoes _ _ ih =>
      have hne : n ≠ k := by
        intro heq
        subst heq
        rw [hreach.unique hlast, hhalts] at hgoes
        cases hgoes
      omega

/-- At every boundary that it has passed a run went on. -/
theorem Reaches.goes_of_lt {n k : Nat} {b earlier : Boundary} (h : m.Reaches ctx inputs n b)
    (hk : k < n) (hearlier : m.Reaches ctx inputs k earlier) : m.halts earlier = false := by
  cases hhalts : m.halts earlier with
  | false => rfl
  | true =>
      have hle := h.le_of_halts hearlier hhalts
      omega

/-- From any boundary that it reaches, a run goes on with the steps it has left. -/
theorem Reaches.run_eq_loop {n : Nat} {b : Boundary} (h : m.Reaches ctx inputs n b) :
    m.run inputs ctx = m.loop ctx (m.config.maxSteps - n) b := by
  induction h with
  | enter henter => simp [run, henter]
  | @advance n b next hreach hgoes hbudget hstep ih =>
      have hleft : m.config.maxSteps - n = (m.config.maxSteps - (n + 1)) + 1 := by omega
      rw [ih, hleft, loop_succ m ctx _ hgoes, hstep]
      rfl

/-- An end of a run is its result. -/
theorem Ends.run_eq {result : Except Fault Store} (h : m.Ends ctx inputs result) :
    m.run inputs ctx = result := by
  cases h with
  | refused henter => simp [run, henter]
  | halted hreach hhalts => rw [hreach.run_eq_loop, loop_of_halts m ctx _ hhalts]
  | spent hreach hgoes =>
      rw [hreach.run_eq_loop, Nat.sub_self, loop]
      simp [hgoes]
  | @failed n b fault hreach hgoes hbudget hstep =>
      have hleft : m.config.maxSteps - n = (m.config.maxSteps - (n + 1)) + 1 := by omega
      rw [hreach.run_eq_loop, hleft, loop_succ m ctx _ hgoes, hstep]
      rfl

/-- From a boundary that it has reached, a run ends within its budget. -/
private theorem ends_loop (budget : Nat) {n : Nat} {b : Boundary}
    (hreach : m.Reaches ctx inputs n b) (hbudget : n + budget = m.config.maxSteps) :
    m.Ends ctx inputs (m.loop ctx budget b) := by
  induction budget generalizing n b with
  | zero =>
      cases hhalts : m.halts b with
      | true =>
          rw [loop_of_halts m ctx 0 hhalts]
          exact .halted hreach hhalts
      | false =>
          have hn : n = m.config.maxSteps := by omega
          subst hn
          have hloop : m.loop ctx 0 b = .error (.stepLimitExceeded m.config.maxSteps) := by
            simp [loop, hhalts]
          rw [hloop]
          exact .spent hreach hhalts
  | succ budget ih =>
      cases hhalts : m.halts b with
      | true =>
          rw [loop_of_halts m ctx (budget + 1) hhalts]
          exact .halted hreach hhalts
      | false =>
          rw [loop_succ m ctx budget hhalts]
          cases hstep : m.advance ctx b with
          | error fault => exact .failed hreach hhalts (by omega) hstep
          | ok next => exact ih (.advance hreach hhalts (by omega) hstep) (by omega)

/-- Every run ends. -/
theorem ends_run (m : Machine) (ctx : RunConfig) (inputs : Store) :
    m.Ends ctx inputs (m.run inputs ctx) := by
  unfold run
  cases henter : m.enter ctx inputs with
  | error fault => exact .refused henter
  | ok b => exact ends_loop m.config.maxSteps (.enter henter) (Nat.zero_add _)

/-- **A run ends as its boundaries say**, and in no other way. -/
theorem ends_iff_run_eq {result : Except Fault Store} :
    m.Ends ctx inputs result ↔ m.run inputs ctx = result := by
  constructor
  · exact Ends.run_eq
  · intro hrun
    rw [← hrun]
    exact ends_run m ctx inputs

end FlowGraph.Machine
