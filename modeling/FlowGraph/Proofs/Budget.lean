import FlowGraph.Proofs.Rounds
import Mathlib.Order.Nat

/-!
# Runs on different budgets

The budget of a run is looked at only where the run would go on, and after
everything else.  So runs on different budgets pass the same boundaries as long
as they last, and once a run settles within its budget, a larger budget changes
nothing.

What a run comes to is therefore said without a limit first: `settle` answers
within a number of supersteps, or not yet.

* `outcome_of_le`: **an answer that is reached stays.**
* `settle_ne_limit`: no answer speaks of a limit; nested graphs and actions that
  do are named after their node.
* `run_withBudget`: a run is what it settles to, or else its own limit.
* `budget_only_truncates`: all budgets of one graph together.
-/

namespace FlowGraph

/-- A machine with another budget. -/
def Machine.withBudget (m : Machine) (budget : Nat) : Machine :=
  { m with config.maxSteps := budget }

/-- A graph with another budget; the graphs in its nodes keep theirs. -/
def Graph.withBudget (graph : Graph) (budget : Nat) : Graph :=
  { graph with config.maxSteps := budget }

@[simp] theorem Graph.machine_withBudget (graph : Graph) (budget : Nat) :
    (graph.withBudget budget).machine = graph.machine.withBudget budget := rfl

namespace Machine

variable {m : Machine} {ctx : RunConfig} {inputs : Store}

/-- What a run comes to from a boundary within a number of supersteps, if it
comes to anything. -/
def settle (m : Machine) (ctx : RunConfig) :
    (supersteps : Nat) → Boundary → Option (Except Fault Store)
  | 0, b => if m.halts b then some (.ok b.store) else none
  | supersteps + 1, b =>
    if m.halts b then some (.ok b.store)
    else
      match m.advance ctx b with
      | .error fault => some (.error fault)
      | .ok next => settle m ctx supersteps next

/-- What a run on inputs comes to within a number of supersteps. -/
def outcome (m : Machine) (ctx : RunConfig) (inputs : Store) (supersteps : Nat) :
    Option (Except Fault Store) :=
  match m.enter ctx inputs with
  | .error fault => some (.error fault)
  | .ok b => m.settle ctx supersteps b

/-! ## Answers stay -/

/-- A result that has settled stays with one superstep more. -/
theorem settle_succ {supersteps : Nat} {b : Boundary} {result : Except Fault Store}
    (h : m.settle ctx supersteps b = some result) :
    m.settle ctx (supersteps + 1) b = some result := by
  induction supersteps generalizing b with
  | zero =>
      cases hhalts : m.halts b with
      | true => simpa [settle, hhalts] using h
      | false => simp [settle, hhalts] at h
  | succ supersteps ih =>
      rw [settle] at h ⊢
      cases hhalts : m.halts b with
      | true => simpa [hhalts] using h
      | false =>
          cases hstep : m.advance ctx b with
          | error fault => simpa [hhalts, hstep] using h
          | ok next =>
              simp only [hhalts, hstep, Bool.false_eq_true, if_false] at h ⊢
              exact ih h

/-- **An answer that is reached stays**, however many supersteps are added. -/
theorem outcome_of_le {supersteps more : Nat} {result : Except Fault Store}
    (h : m.outcome ctx inputs supersteps = some result) (hle : supersteps ≤ more) :
    m.outcome ctx inputs more = some result := by
  induction more, hle using Nat.le_induction with
  | base => exact h
  | succ more _ ih =>
      unfold outcome at ih ⊢
      cases henter : m.enter ctx inputs with
      | error fault => simpa [henter] using ih
      | ok b =>
          simp only [henter] at ih ⊢
          exact settle_succ ih

/-! ## No answer speaks of a limit -/

/-- No source fails for want of steps. -/
theorem successors_ne_limit {source : String} {store : Store} {fault : Fault}
    (h : m.successors ctx source store = .error fault) (limit : Nat) :
    fault ≠ .stepLimitExceeded limit := by
  obtain ⟨router, -, ⟨cause, -, rfl⟩ | ⟨decision, -, -, rfl⟩⟩ := successors_eq_error h
  · exact nofun
  · exact nofun

/-- No node fails for want of steps: such a fault of its action is named after the node. -/
theorem actAll_ne_limit {b : Boundary} {fault : Fault} (h : m.actAll ctx b = .error fault)
    (limit : Nat) : fault ≠ .stepLimitExceeded limit := by
  rcases Traversal.bind_eq_error_iff.mp h with hnodes | ⟨nodes, -, hrest⟩
  · obtain ⟨before, id, after, -, -, hid⟩ := Traversal.mapM_eq_error_iff.mp hnodes
    unfold nodeOf at hid
    cases hnode : m.topology.node? id with
    | some node => simp [hnode] at hid
    | none =>
        simp only [hnode, Except.error.injEq] at hid
        rw [← hid]
        exact nofun
  · rcases Traversal.bind_eq_error_iff.mp hrest with hact | ⟨_, _, hpure⟩
    · obtain ⟨before, node, after, -, -, hfail⟩ := Traversal.mapM_eq_error_iff.mp hact
      obtain ⟨cause, -, rfl⟩ := Traversal.mapError_eq_error_iff.mp hfail
      -- a limit that is exceeded inside the node comes out under the node's name
      obtain ⟨inner, message, hnamed⟩ := Fault.atNode_eq_nodeFailed node.id cause
      rw [hnamed]
      exact nofun
    · cases hpure

/-- No superstep fails for want of steps; it is the loop around them that counts. -/
theorem advance_ne_limit {b : Boundary} {fault : Fault} (h : m.advance ctx b = .error fault)
    (limit : Nat) : fault ≠ .stepLimitExceeded limit := by
  rcases advance_eq_error_iff.mp h with hact | ⟨merged, -, hroute⟩
  · exact actAll_ne_limit hact limit
  · obtain ⟨before, source, after, found, reached, -, -, hsource⟩ := routeAll_eq_error hroute
    exact successors_ne_limit hsource limit

/-- What a run settles to is never a want of steps. -/
theorem settle_ne_limit {supersteps : Nat} {b : Boundary} {result : Except Fault Store}
    (h : m.settle ctx supersteps b = some result) (limit : Nat) :
    result ≠ .error (.stepLimitExceeded limit) := by
  induction supersteps generalizing b with
  | zero =>
      cases hhalts : m.halts b with
      | true =>
          simp only [settle, hhalts, if_true, Option.some.injEq] at h
          rw [← h]
          exact nofun
      | false => simp [settle, hhalts] at h
  | succ supersteps ih =>
      rw [settle] at h
      cases hhalts : m.halts b with
      | true =>
          simp only [hhalts, if_true, Option.some.injEq] at h
          rw [← h]
          exact nofun
      | false =>
          cases hstep : m.advance ctx b with
          | error fault =>
              simp only [hhalts, hstep, Bool.false_eq_true, if_false, Option.some.injEq] at h
              rw [← h]
              intro heq
              exact advance_ne_limit hstep limit (Except.error.inj heq)
          | ok next =>
              simp only [hhalts, hstep, Bool.false_eq_true, if_false] at h
              exact ih h

/-- **No answer speaks of a limit.** -/
theorem outcome_ne_limit {supersteps : Nat} {result : Except Fault Store}
    (h : m.outcome ctx inputs supersteps = some result) (limit : Nat) :
    result ≠ .error (.stepLimitExceeded limit) := by
  unfold outcome at h
  cases henter : m.enter ctx inputs with
  | error fault =>
      simp only [henter, Option.some.injEq] at h
      rw [← h]
      intro heq
      exact successors_ne_limit (enter_eq_error_iff.mp henter) limit (Except.error.inj heq)
  | ok b =>
      simp only [henter] at h
      exact settle_ne_limit h limit

/-! ## A run is what it settles to -/

/-- A run from a boundary is what it settles to, or else its limit. -/
theorem loop_eq_getD_settle (m : Machine) (ctx : RunConfig) (budget : Nat) (b : Boundary) :
    m.loop ctx budget b =
      (m.settle ctx budget b).getD (.error (.stepLimitExceeded m.config.maxSteps)) := by
  induction budget generalizing b with
  | zero => cases hhalts : m.halts b <;> simp [loop, settle, hhalts]
  | succ budget ih =>
      cases hhalts : m.halts b with
      | true => simp [loop, settle, hhalts]
      | false =>
          cases hstep : m.advance ctx b with
          | error fault => simp [loop, settle, hhalts, hstep]
          | ok next =>
              simp only [loop, settle, hhalts, hstep, Bool.false_eq_true, if_false]
              exact ih next

/-- The budget has no part in a superstep. -/
theorem advance_withBudget (m : Machine) (budget : Nat) (ctx : RunConfig) (b : Boundary) :
    (m.withBudget budget).advance ctx b = m.advance ctx b :=
  advance_withConfig m { m.config with maxSteps := budget } ctx b

/-- The budget has no part in what a run settles to. -/
theorem outcome_withBudget (m : Machine) (budget : Nat) (ctx : RunConfig) (inputs : Store)
    (supersteps : Nat) :
    (m.withBudget budget).outcome ctx inputs supersteps = m.outcome ctx inputs supersteps := by
  have hsettle : ∀ b, (m.withBudget budget).settle ctx supersteps b = m.settle ctx supersteps b := by
    intro b
    induction supersteps generalizing b with
    | zero => rfl
    | succ supersteps ih =>
        have hhalts : (m.withBudget budget).halts b = m.halts b := rfl
        rw [settle, settle, advance_withBudget m budget ctx b, hhalts]
        cases m.advance ctx b with
        | error fault => rfl
        | ok next => simp only [ih next]
  have henter : (m.withBudget budget).enter ctx inputs = m.enter ctx inputs := rfl
  unfold outcome
  rw [henter]
  cases m.enter ctx inputs with
  | error fault => rfl
  | ok b => exact hsettle b

/-- **A run is what it settles to within its budget, or else its own limit.** -/
theorem run_withBudget (m : Machine) (budget : Nat) (ctx : RunConfig) (inputs : Store) :
    (m.withBudget budget).run inputs ctx =
      (m.outcome ctx inputs budget).getD (.error (.stepLimitExceeded budget)) := by
  rw [← outcome_withBudget m budget]
  unfold run outcome
  cases (m.withBudget budget).enter ctx inputs with
  | error fault => rfl
  | ok b => exact loop_eq_getD_settle (m.withBudget budget) ctx budget b

/-- **The budget only truncates.**  Either a run exceeds every budget, or there
is a number of supersteps below which it exceeds its budget, and from which on
it has one answer. -/
theorem exceeds_or_settles (m : Machine) (ctx : RunConfig) (inputs : Store) :
    (∀ budget, (m.withBudget budget).run inputs ctx = .error (.stepLimitExceeded budget)) ∨
      ∃ needed result, (∀ limit, result ≠ .error (.stepLimitExceeded limit)) ∧
        (∀ budget, budget < needed →
          (m.withBudget budget).run inputs ctx = .error (.stepLimitExceeded budget)) ∧
        ∀ budget, needed ≤ budget → (m.withBudget budget).run inputs ctx = result := by
  by_cases hsettles : ∃ supersteps, (m.outcome ctx inputs supersteps).isSome
  · have hfirst := Nat.find_spec hsettles
    -- the least number of supersteps by which the run settles decides
    obtain ⟨result, hresult⟩ := Option.isSome_iff_exists.mp hfirst
    refine Or.inr ⟨Nat.find hsettles, result, outcome_ne_limit hresult, ?_, ?_⟩
    · intro budget hless
      have hnone : m.outcome ctx inputs budget = none := by
        simpa using Nat.find_min hsettles hless
      rw [run_withBudget, hnone]
      rfl
    · intro budget hle
      rw [run_withBudget, outcome_of_le hresult hle]
      rfl
  · left
    intro budget
    have hnone : m.outcome ctx inputs budget = none := by
      by_contra hsome
      exact hsettles ⟨budget, Option.isSome_iff_ne_none.mpr hsome⟩
    rw [run_withBudget, hnone]
    rfl

end Machine

namespace Graph

/-- **The budget only truncates.**  A compiled graph, run on the same inputs
with different budgets and all else the same, exceeds every budget, or else it
exceeds the budgets below some number and has one answer from there on, which
does not speak of a limit.  A run makes no more supersteps than its budget
allows, and so runs no node more often. -/
theorem budget_only_truncates {id : String} {keys : KeyTable} {calls : List Draft.Call}
    {config : CompileConfig} {graph : Graph}
    (hcompile : (Draft.attemptAll { id, keys } calls).compile config = .ok graph)
    (inputs : Store) (ctx : RunConfig) :
    ((∀ budget, (graph.withBudget budget).run inputs ctx = .error (.stepLimitExceeded budget)) ∨
      ∃ needed result, (∀ limit, result ≠ .error (.stepLimitExceeded limit)) ∧
        (∀ budget, budget < needed →
          (graph.withBudget budget).run inputs ctx = .error (.stepLimitExceeded budget)) ∧
        ∀ budget, needed ≤ budget → (graph.withBudget budget).run inputs ctx = result) ∧
      ∀ budget, ((graph.withBudget budget).machine.rounds ctx inputs).length ≤ budget ∧
        ∀ id, ((graph.withBudget budget).machine.rounds ctx inputs).flatten.count id ≤ budget := by
  obtain ⟨hlegal, hclosed⟩ := Draft.legal_closed_of_compile hcompile
  constructor
  · simp only [run_eq, machine_withBudget]
    exact graph.machine.exceeds_or_settles ctx inputs
  · intro budget
    refine ⟨Machine.length_rounds_le _ ctx inputs, ?_⟩
    exact Machine.count_rounds_le (m := graph.machine.withBudget budget)
      hlegal.edgesDistinct (hclosed.map run)

/-- The calls that build the nodes and static edges of a graph. -/
def staticCalls (graph : Graph) : List Draft.Call :=
  graph.topology.nodes.map (fun node => .node node.id node.body) ++
    graph.topology.edges.map fun edge => .edge edge.1 edge.2

/-- Two nodes, one after the other. -/
def relay : Graph where
  id := "relay"
  keys := .empty
  topology :=
    { nodes := [⟨"first", .action fun _ _ => .ok .empty⟩, ⟨"second", .action fun _ _ => .ok .empty⟩]
      edges := [(startId, "first"), ("first", "second"), ("second", endId)] }
  config := {}

/-- One superstep is too few for it, and two are as good as any larger number. -/
theorem two_supersteps_need_budget_two :
    (Draft.attemptAll { id := "relay", keys := .empty } relay.staticCalls).compile {} = .ok relay ∧
      (relay.withBudget 1).run .empty {} = .error (.stepLimitExceeded 1) ∧
      ∀ budget, 2 ≤ budget → (relay.withBudget budget).run .empty {} = .ok .empty := by
  have hcompile : (Draft.attemptAll { id := "relay", keys := .empty } relay.staticCalls).compile {} =
      .ok relay := rfl
  have htwo : (relay.withBudget 2).run .empty {} = .ok .empty := rfl
  obtain ⟨hruns, -⟩ := budget_only_truncates hcompile .empty {}
  refine ⟨hcompile, rfl, ?_⟩
  intro budget hbudget
  rcases hruns with hexceeds | ⟨needed, result, -, hbelow, habove⟩
  · rw [hexceeds 2] at htwo
    cases htwo
  · have hneeded : needed ≤ 2 := by
      by_contra hmore
      rw [hbelow 2 (by omega)] at htwo
      cases htwo
    rw [habove budget (by omega), ← habove 2 hneeded]
    exact htwo

end Graph

end FlowGraph
