import FlowGraph.Proofs.Budget

/-!
# Runs that stop before nodes

A graph may name nodes to stop before.  A run hands back its store as soon as
one of them is up next: after everything that the supersteps so far have
written, the updates of their routers included, and before anything that the
next one would do.

Here a run is compared with a run that has more nodes to stop before.  Both
pass the same boundaries, up to the first one at which the second run stops.

* `notMem_of_runsIn`: **a node to stop before never runs.**
* `run_withStops_of_firstMeets`: a run is cut at the first boundary with a node
  to stop before, whether or not it would have had a step left there.
* `run_withStops_of_not_meets`: a run that does not meet the added nodes ends as
  it did.
-/

namespace FlowGraph

/-- A node of a list is up next. -/
def Boundary.Meets (b : Boundary) (stops : List String) : Prop := ∃ id ∈ b.frontier, id ∈ stops

namespace Machine

/-- A machine with other nodes to stop before. -/
def withStops (m : Machine) (stops : List String) : Machine :=
  m.withConfig { m.config with interruptBefore := stops }

/-- A run stands at its first boundary with a node of a list. -/
structure FirstMeets (m : Machine) (ctx : RunConfig) (inputs : Store) (stops : List String)
    (n : Nat) (b : Boundary) : Prop where
  reach : m.Reaches ctx inputs n b
  meets : b.Meets stops
  clear : ∀ k earlier, k < n → m.Reaches ctx inputs k earlier → ¬ earlier.Meets stops

variable {m : Machine} {ctx : RunConfig} {inputs : Store} {stops : List String}

/-- A run ends with its store where nothing is left to run, or where a node to
stop before is up next. -/
theorem halts_iff {b : Boundary} :
    m.halts b = true ↔ b.frontier = [] ∨ b.Meets m.config.interruptBefore := by
  simp [halts, interrupts, Boundary.Meets]

/-- **A node to stop before never runs.** -/
theorem notMem_of_runsIn {superstep : Nat} {id : String}
    (h : m.RunsIn ctx inputs superstep id) : id ∉ m.config.interruptBefore := by
  obtain ⟨n, ids, rfl, hround, hid⟩ := h
  obtain ⟨b, -, hgoes, -, rfl⟩ := (getElem?_rounds_iff n ids).mp hround
  intro hstop
  have hhalts : m.halts b = true := halts_iff.mpr (Or.inr ⟨id, hid, hstop⟩)
  rw [hgoes] at hhalts
  cases hhalts

/-! ## The boundaries of the two runs -/

/-- Stops have no part in a superstep. -/
theorem advance_withStops (m : Machine) (stops : List String) (ctx : RunConfig) (b : Boundary) :
    (m.withStops stops).advance ctx b = m.advance ctx b :=
  advance_withConfig m { m.config with interruptBefore := stops } ctx b

/-- With more nodes to stop before a run stops wherever it stopped. -/
theorem halts_withStops_of_halts (hsub : m.config.interruptBefore ⊆ stops) {b : Boundary}
    (h : m.halts b = true) : (m.withStops stops).halts b = true := by
  rw [halts_iff] at h ⊢
  rcases h with hempty | ⟨id, hid, hstop⟩
  · exact Or.inl hempty
  · exact Or.inr ⟨id, hid, hsub hstop⟩

/-- It goes on where it went on, unless one of the nodes is up next. -/
theorem halts_withStops_eq_false {b : Boundary} (hgoes : m.halts b = false)
    (hclear : ¬ b.Meets stops) : (m.withStops stops).halts b = false := by
  rw [Bool.eq_false_iff] at hgoes ⊢
  intro hhalts
  rcases halts_iff.mp hhalts with hempty | hmeets
  · exact hgoes (halts_iff.mpr (Or.inl hempty))
  · exact hclear hmeets

/-- **Both runs pass the same boundaries** as long as none of the nodes is up next. -/
theorem Reaches.withStops {n : Nat} {b : Boundary} (h : m.Reaches ctx inputs n b)
    (hclear : ∀ k earlier, k < n → m.Reaches ctx inputs k earlier → ¬ earlier.Meets stops) :
    (m.withStops stops).Reaches ctx inputs n b := by
  induction h with
  | enter henter => exact .enter henter
  | @advance n b next hreach hgoes hbudget hstep ih =>
      have hbefore : (m.withStops stops).Reaches ctx inputs n b := by
        refine ih ?_
        intro k earlier hk hearlier
        exact hclear k earlier (by omega) hearlier
      have hhere : ¬ b.Meets stops := hclear n b (by omega) hreach
      exact .advance hbefore (halts_withStops_eq_false hgoes hhere) hbudget
        ((advance_withStops m stops ctx b).trans hstep)

/-- A run that meets some of the nodes meets them somewhere first. -/
theorem exists_firstMeets {n : Nat} {b : Boundary} (h : m.Reaches ctx inputs n b)
    (hmeets : b.Meets stops) : ∃ k first, m.FirstMeets ctx inputs stops k first := by
  induction n using Nat.strongRecOn generalizing b with
  | ind n ih =>
      by_cases hearlier : ∃ k earlier, k < n ∧ m.Reaches ctx inputs k earlier ∧ earlier.Meets stops
      · obtain ⟨k, earlier, hk, hreach, hfirst⟩ := hearlier
        exact ih k hk hreach hfirst
      · refine ⟨n, b, h, hmeets, ?_⟩
        intro k earlier hk hreach hfirst
        exact hearlier ⟨k, earlier, hk, hreach, hfirst⟩

/-! ## The results of the two runs -/

/-- **A run is cut at the first boundary with a node to stop before.**  The
budget is not asked there. -/
theorem run_withStops_of_firstMeets {n : Nat} {b : Boundary}
    (h : m.FirstMeets ctx inputs stops n b) :
    (m.withStops stops).run inputs ctx = .ok b.store := by
  have hhalts : (m.withStops stops).halts b = true := halts_iff.mpr (Or.inr h.meets)
  exact (Ends.halted (h.reach.withStops h.clear) hhalts).run_eq

/-- The supersteps of the run that is cut are the first ones of the other. -/
theorem rounds_withStops_of_firstMeets {n : Nat} {b : Boundary}
    (h : m.FirstMeets ctx inputs stops n b) :
    (m.withStops stops).rounds ctx inputs = (m.rounds ctx inputs).take n := by
  have hcut : (m.withStops stops).Reaches ctx inputs n b := h.reach.withStops h.clear
  have hhalts : (m.withStops stops).halts b = true := halts_iff.mpr (Or.inr h.meets)
  refine List.ext_getElem? fun k => Option.ext fun ids => ?_
  rw [List.getElem?_take, getElem?_rounds_iff]
  split
  · next hk =>
      rw [getElem?_rounds_iff]
      obtain ⟨earlier, hearlier⟩ := h.reach.exists_earlier (k := k) (by omega)
      have hclear := h.clear k earlier hk hearlier
      have hcutEarlier : (m.withStops stops).Reaches ctx inputs k earlier := by
        refine hearlier.withStops ?_
        intro j before hj hbefore
        exact h.clear j before (by omega) hbefore
      have hgoes : m.halts earlier = false := h.reach.goes_of_lt hk hearlier
      constructor
      · intro hround
        obtain ⟨b', hreach', -, hbudget, hids⟩ := hround
        rw [hreach'.unique hcutEarlier] at hids
        exact ⟨earlier, hearlier, hgoes, hbudget, hids⟩
      · intro hround
        obtain ⟨b', hreach', -, hbudget, hids⟩ := hround
        rw [hreach'.unique hearlier] at hids
        exact ⟨earlier, hcutEarlier, halts_withStops_eq_false hgoes hclear, hbudget, hids⟩
  · next hk =>
      -- the run that is cut stands at its last boundary after `n` supersteps
      constructor
      · intro hround
        obtain ⟨b', hreach', hgoes', -, -⟩ := hround
        have hle := hreach'.le_of_halts hcut hhalts
        have hkn : k = n := by omega
        subst hkn
        rw [hreach'.unique hcut, hhalts] at hgoes'
        cases hgoes'
      · intro hround
        cases hround

/-- **A run that does not meet the added nodes ends as it did.** -/
theorem run_withStops_of_not_meets (hsub : m.config.interruptBefore ⊆ stops)
    (hold : ∀ n b, m.Reaches ctx inputs n b →
      ∀ id ∈ b.frontier, id ∈ stops → id ∈ m.config.interruptBefore) :
    (m.withStops stops).run inputs ctx = m.run inputs ctx := by
  have hclear : ∀ n b, m.Reaches ctx inputs n b → m.halts b = false → ¬ b.Meets stops := by
    intro n b hreach hgoes hmeets
    obtain ⟨id, hid, hstop⟩ := hmeets
    have hhalts : m.halts b = true := halts_iff.mpr (Or.inr ⟨id, hid, hold n b hreach id hid hstop⟩)
    rw [hgoes] at hhalts
    cases hhalts
  have hsame : ∀ n b, m.Reaches ctx inputs n b → (m.withStops stops).Reaches ctx inputs n b := by
    intro n b hreach
    refine hreach.withStops ?_
    intro k earlier hk hearlier
    exact hclear k earlier hearlier (hreach.goes_of_lt hk hearlier)
  refine Ends.run_eq ?_
  have hends := ends_run m ctx inputs
  generalize m.run inputs ctx = result at hends
  cases hends with
  | refused henter => exact .refused henter
  | halted hreach hhalts =>
      exact .halted (hsame _ _ hreach) (halts_withStops_of_halts hsub hhalts)
  | spent hreach hgoes =>
      exact .spent (hsame _ _ hreach) (halts_withStops_eq_false hgoes (hclear _ _ hreach hgoes))
  | failed hreach hgoes hbudget hstep =>
      exact .failed (hsame _ _ hreach)
        (halts_withStops_eq_false hgoes (hclear _ _ hreach hgoes)) hbudget
        ((advance_withStops m stops ctx _).trans hstep)

end Machine

namespace Graph

/-- **An interrupt stops a run at a boundary of the uninterrupted one.**  One
draft is compiled twice, with the same budget and with nodes to stop before of
which the second time there are more.  A run of either graph never runs a node
that it is to stop before.  If no frontier of the first run has one of the added
nodes, both runs have the same result.  Else the first run has a first frontier
with a node to stop before in the second, and there the second run hands back
the store of the first, after the same supersteps; no budget is asked for. -/
theorem interrupt_stops_at_a_boundary {draft : Draft} {maxSteps : Nat}
    {stops more : List String} {graph cut : Graph} (hsub : stops ⊆ more)
    (hgraph : draft.compile { maxSteps, interruptBefore := stops } = .ok graph)
    (hcut : draft.compile { maxSteps, interruptBefore := more } = .ok cut)
    (inputs : Store) (ctx : RunConfig) :
    (∀ superstep id, graph.machine.RunsIn ctx inputs superstep id → id ∉ stops) ∧
      (∀ superstep id, cut.machine.RunsIn ctx inputs superstep id → id ∉ more) ∧
      ((∀ n b, graph.machine.Reaches ctx inputs n b →
          ∀ id ∈ b.frontier, id ∈ more → id ∈ stops) →
        cut.run inputs ctx = graph.run inputs ctx) ∧
      ((∃ n b, graph.machine.Reaches ctx inputs n b ∧
          ∃ id ∈ b.frontier, id ∈ more ∧ id ∉ stops) →
        ∃ n b, graph.machine.FirstMeets ctx inputs more n b) ∧
      ∀ n b, graph.machine.FirstMeets ctx inputs more n b →
        cut.run inputs ctx = .ok b.store ∧
          cut.machine.rounds ctx inputs = (graph.machine.rounds ctx inputs).take n := by
  obtain ⟨-, rfl⟩ := Draft.compile_eq_ok_iff.mp hgraph
  obtain ⟨-, rfl⟩ := Draft.compile_eq_ok_iff.mp hcut
  refine ⟨fun _ _ => Machine.notMem_of_runsIn, fun _ _ => Machine.notMem_of_runsIn, ?_, ?_, ?_⟩
  · intro hold
    rw [run_eq, run_eq]
    exact Machine.run_withStops_of_not_meets hsub hold
  · intro hadded
    obtain ⟨n, b, hreach, id, hid, hmore, -⟩ := hadded
    exact Machine.exists_firstMeets hreach ⟨id, hid, hmore⟩
  · intro n b hfirst
    rw [run_eq]
    exact ⟨Machine.run_withStops_of_firstMeets hfirst, Machine.rounds_withStops_of_firstMeets hfirst⟩

/-- A router writes, then a node does, and a second node is left to run. -/
def gate : Draft where
  id := "gate"
  keys := .empty
  topology :=
    { nodes :=
        [⟨"first", .action fun _ _ => .ok (.ofList [("passed", .bool true)])⟩,
         ⟨"second", .action fun _ _ => .error (.actionFailed "not reached")⟩]
      edges := [("first", "second"), ("second", endId)]
      routers :=
        [(startId, ⟨fun _ _ => .ok ⟨"on", .ofList [("gate", .str "open")]⟩,
          .ofList [("on", "first")]⟩)] }

/-- The graph of it, with one superstep allowed. -/
def gateBefore (stops : List String) : Graph :=
  ⟨gate.id, gate.keys, gate.topology, { maxSteps := 1, interruptBefore := stops }⟩

/-- What the router and the first node write. -/
def gateStore : Store := .ofList [("gate", .str "open"), ("passed", .bool true)]

/-- A run uses up its budget in front of the second node; if it is to stop
there, it hands back its store all the same. -/
theorem interrupt_stops_without_a_step_left :
    gate.compile { maxSteps := 1, interruptBefore := [] } = .ok (gateBefore []) ∧
      gate.compile { maxSteps := 1, interruptBefore := ["second"] } = .ok (gateBefore ["second"]) ∧
      (gateBefore []).machine.FirstMeets {} .empty ["second"] 1 ⟨gateStore, ["second"]⟩ ∧
      (gateBefore []).run .empty {} = .error (.stepLimitExceeded 1) ∧
      (gateBefore ["second"]).run .empty {} = .ok gateStore ∧
      (gateBefore ["second"]).machine.rounds {} .empty = [["first"]] := by
  have hgraph : gate.compile { maxSteps := 1, interruptBefore := [] } = .ok (gateBefore []) := rfl
  have hcut : gate.compile { maxSteps := 1, interruptBefore := ["second"] } =
      .ok (gateBefore ["second"]) := rfl
  have hfirst : (gateBefore []).machine.FirstMeets {} .empty ["second"] 1
      ⟨gateStore, ["second"]⟩ := by
    have hstart : (gateBefore []).machine.Reaches {} .empty 0
        ⟨.ofList [("gate", .str "open")], ["first"]⟩ := .enter rfl
    refine ⟨.advance hstart rfl (by decide) rfl, ⟨"second", by decide, by decide⟩, ?_⟩
    intro k earlier hk hearlier hmeets
    have hzero : k = 0 := by omega
    subst hzero
    obtain ⟨id, hid, hstop⟩ := hmeets
    rw [hearlier.unique hstart] at hid
    cases List.mem_singleton.mp hid
    exact absurd hstop (by decide)
  obtain ⟨-, -, -, -, hstops⟩ :=
    interrupt_stops_at_a_boundary (List.nil_subset _) hgraph hcut .empty {}
  obtain ⟨hrun, hrounds⟩ := hstops 1 _ hfirst
  exact ⟨hgraph, hcut, hfirst, rfl, hrun, hrounds⟩

end Graph

end FlowGraph
