import FlowGraph.Proofs.Legality

/-!
# What a draft accepts

Calls are made on a draft one after the other, and it goes on with the next one
when a call is refused.  Each call is checked against what is there, on many
grounds and in a fixed order; all of this comes to one thing: a call is accepted
iff the draft stays legal with its addition.

* `accepted`: the calls of a list that are not refused.
* `attemptAll_eq_described`: **a draft is what its accepted calls describe**, so
  a refused call leaves no trace.
* `accepted_eq_self_iff`: no call is refused iff the list describes a legal
  structure, in which the order of the calls has no part.
* `draft_holds_what_is_legal`: the calls and the checks of the whole together.
-/

namespace FlowGraph

namespace Topology

variable {γ : Type} {t t' : Topology γ}

/-- **Being legal has nothing to do with order.** -/
theorem Legal.of_perm (h : t.Legal) (hnodes : t.nodes.Perm t'.nodes)
    (hedges : t.edges.Perm t'.edges) (hrouters : t.routers.Perm t'.routers) : t'.Legal := by
  have hids : t.nodeIds.Perm t'.nodeIds := hnodes.map _
  have hrouted : t.routed.Perm t'.routed := hrouters.map _
  constructor
  · intro id hid
    exact h.named id (hids.mem_iff.mpr hid)
  · exact hids.nodup_iff.mp h.distinct
  · intro edge hedge
    exact h.edgesNamed edge (hedges.mem_iff.mpr hedge)
  · intro edge hedge
    exact h.edgesInside edge (hedges.mem_iff.mpr hedge)
  · exact hedges.nodup_iff.mp h.edgesDistinct
  · intro entry hentry
    exact h.routersNamed entry (hrouters.mem_iff.mpr hentry)
  · intro entry hentry
    exact h.routersLead entry (hrouters.mem_iff.mpr hentry)
  · exact hrouted.nodup_iff.mp h.routersDistinct
  · intro edge hedge
    rw [← hrouted.mem_iff]
    exact h.unmixed edge (hedges.mem_iff.mpr hedge)

end Topology

namespace Draft

/-! ## What a list of calls describes -/

/-- The structure that a list of calls describes: its nodes, edges and routers,
each in the order of their calls. -/
def described (calls : List Call) : Topology Graph :=
  ⟨calls.flatMap Call.nodes, calls.flatMap Call.edges, calls.flatMap Call.routers⟩

/-- Calls that are simply added, to an empty draft, make the structure that they describe. -/
theorem extendAll_open (id : String) (keys : KeyTable) (calls : List Call) :
    ({ id, keys } : Draft).extendAll calls = ⟨id, keys, described calls⟩ := by
  rw [extendAll_eq]
  simp [described]

/-- The same calls in another order describe the same, in another order. -/
theorem legal_described_iff_of_perm {calls calls' : List Call} (hperm : calls.Perm calls') :
    (described calls).Legal ↔ (described calls').Legal := by
  have hlegal : ∀ {calls calls' : List Call}, calls.Perm calls' →
      (described calls).Legal → (described calls').Legal := by
    intro calls calls' hperm hlegal
    exact hlegal.of_perm (hperm.flatMap_right _) (hperm.flatMap_right _) (hperm.flatMap_right _)
  exact ⟨hlegal hperm, hlegal hperm.symm⟩

/-! ## The calls that are accepted -/

/-- The calls of a list that are accepted, when those that are refused are
skipped. -/
def accepted (draft : Draft) : List Call → List Call
  | [] => []
  | call :: rest =>
    match draft.apply call with
    | .ok next => call :: accepted next rest
    | .error _ => accepted draft rest

/-- What is accepted of a list of calls comes in the order of the list. -/
theorem accepted_sublist (draft : Draft) (calls : List Call) :
    (draft.accepted calls).Sublist calls := by
  induction calls generalizing draft with
  | nil => exact .slnil
  | cons call rest ih =>
      unfold accepted
      cases draft.apply call with
      | ok next => exact (ih next).cons_cons call
      | error fault => exact (ih draft).cons call

/-- A refused call leaves a draft as it is. -/
theorem attempt_of_error {draft : Draft} {call : Call} {fault : Fault}
    (h : draft.apply call = .error fault) : draft.attempt call = draft := by
  simp only [attempt, h]

/-- **A draft is what its accepted calls add to it.** -/
theorem attemptAll_eq_extendAll (draft : Draft) (calls : List Call) :
    draft.attemptAll calls = draft.extendAll (draft.accepted calls) := by
  induction calls generalizing draft with
  | nil => rfl
  | cons call rest ih =>
      have hattempt : draft.attemptAll (call :: rest) = (draft.attempt call).attemptAll rest := rfl
      rw [hattempt]
      cases hcall : draft.apply call with
      | error fault =>
          have hskip : draft.accepted (call :: rest) = draft.accepted rest := by
            simp only [accepted, hcall]
          rw [attempt_of_error hcall, hskip, ih]
      | ok next =>
          have hmake : draft.attempt call = next := by simp only [attempt, hcall]
          have hkeep : draft.accepted (call :: rest) = call :: next.accepted rest := by
            simp only [accepted, hcall]
          have hnext : next = draft.extend call := (apply_eq_ok_iff.mp hcall).2
          rw [hmake, hkeep, ih, hnext]
          rfl

/-- **A draft holds what its accepted calls describe**, and nothing of the refused ones. -/
theorem attemptAll_eq_described (id : String) (keys : KeyTable) (calls : List Call) :
    ({ id, keys } : Draft).attemptAll calls =
      ⟨id, keys, described (({ id, keys } : Draft).accepted calls)⟩ := by
  rw [attemptAll_eq_extendAll, extendAll_open]

/-- No call is refused iff all of them go through in turn. -/
theorem accepted_eq_self_iff_applyAll (draft : Draft) (calls : List Call) :
    draft.accepted calls = calls ↔ ∃ next, draft.applyAll calls = .ok next := by
  induction calls generalizing draft with
  | nil => exact ⟨fun _ => ⟨draft, rfl⟩, fun _ => rfl⟩
  | cons call rest ih =>
      have hwalk : draft.applyAll (call :: rest) =
          draft.apply call >>= fun next => next.applyAll rest := rfl
      rw [hwalk, accepted]
      cases hcall : draft.apply call with
      | ok next =>
          have hrest := ih next
          simpa [bind, Except.bind] using hrest
      | error fault =>
          constructor
          · intro heq
            -- the rest alone is too short to be the whole list
            have hshort := (draft.accepted_sublist rest).length_le
            have hlength := congrArg List.length heq
            simp only [List.length_cons] at hlength
            omega
          · intro h
            obtain ⟨next, h⟩ := h
            cases h

/-- **No call is refused iff the calls describe a legal structure.** -/
theorem accepted_eq_self_iff (id : String) (keys : KeyTable) (calls : List Call) :
    ({ id, keys } : Draft).accepted calls = calls ↔ (described calls).Legal := by
  have hempty : (Draft.mk id keys {}).topology.Legal := Topology.legal_empty
  rw [accepted_eq_self_iff_applyAll]
  simp only [applyAll_eq_ok_iff hempty, extendAll_open]
  simp

/-! ## Refusals are about the structure -/

/-- What is refused breaks one of the rules, and the fault is the rule's. -/
theorem exists_broken_of_error {α : Type} {rules : List (Bool × Fault)} {value : α}
    {fault : Fault} (h : unlessBroken rules value = .error fault) :
    ∃ rule ∈ rules, rule.1 = true ∧ rule.2 = fault := by
  unfold unlessBroken at h
  cases hfind : rules.find? Prod.fst with
  | none => simp [hfind] at h
  | some rule =>
      simp only [hfind, Except.error.injEq] at h
      exact ⟨rule, List.mem_of_find?_eq_some hfind, List.find?_some hfind, h⟩

/-- A call is refused with faults of the structure only. -/
theorem isStructural_of_mem_rules {draft : Draft} {call : Call} {rule : Bool × Fault}
    (h : rule ∈ draft.rules call) : rule.2.isStructural = true := by
  cases call with
  | node id body =>
      simp only [rules, nodeRules, List.mem_cons, List.not_mem_nil, or_false] at h
      rcases h with rfl | rfl | rfl <;> rfl
  | edge source target =>
      simp only [rules, edgeRules, List.mem_cons, List.not_mem_nil, or_false] at h
      rcases h with rfl | rfl | rfl | rfl <;> rfl
  | router source router =>
      simp only [rules, routerRules, List.mem_cons, List.not_mem_nil, or_false] at h
      rcases h with rfl | rfl | rfl | rfl | rfl <;> rfl

/-- Compiling refuses a draft with faults of the structure only. -/
theorem isStructural_of_mem_wholeRules {draft : Draft} {config : CompileConfig}
    {rule : Bool × Fault} (h : rule ∈ draft.wholeRules config) : rule.2.isStructural = true := by
  simp only [wholeRules, edgeEndRules, routerEndRules, List.mem_cons, List.mem_append,
    List.mem_flatMap, List.mem_map, List.not_mem_nil, or_false] at h
  rcases h with rfl | (⟨edge, -, rfl | rfl⟩ | ⟨entry, -, rfl | ⟨route, -, rfl⟩⟩) | ⟨id, -, rfl⟩
  all_goals rfl

/-- **A legal draft answers a call in one of two ways**: it makes the addition,
which is legal, or it stays as it is with a fault of the structure, and the
addition would not have been legal. -/
theorem apply_cases {draft : Draft} (hlegal : draft.topology.Legal) (call : Call) :
    (draft.apply call = .ok (draft.extend call) ∧ (draft.extend call).topology.Legal) ∨
      ∃ fault, draft.apply call = .error fault ∧ fault.isStructural = true ∧
        draft.attempt call = draft ∧ ¬ (draft.extend call).topology.Legal := by
  cases hcall : draft.apply call with
  | ok next =>
      obtain ⟨hnext, rfl⟩ := (apply_eq_ok_iff_legal hlegal).mp hcall
      exact Or.inl ⟨rfl, hnext⟩
  | error fault =>
      refine Or.inr ⟨fault, rfl, ?_, attempt_of_error hcall, ?_⟩
      · obtain ⟨rule, hrule, -, rfl⟩ := exists_broken_of_error hcall
        exact isStructural_of_mem_rules hrule
      · intro hextend
        have hok := (apply_eq_ok_iff_legal hlegal).mpr ⟨hextend, rfl⟩
        rw [hcall] at hok
        cases hok

/-- **A draft holds exactly what is legal.**  Whatever calls were made on a new
draft, it is what the accepted ones describe, and legal.  The next call is
accepted iff its addition is legal too, and else it is refused for a fault of
the structure and changes nothing.  A list of calls is accepted throughout iff
what it describes is legal, in whatever order.  And the draft compiles iff it is
closed; the graph keeps its id, keys and structure and has the given options,
and a draft that does not compile has a fault of the structure. -/
theorem draft_holds_what_is_legal (id : String) (keys : KeyTable) (calls : List Call) :
    let opened : Draft := { id, keys }
    let draft := opened.attemptAll calls
    draft = ⟨id, keys, described (opened.accepted calls)⟩ ∧ draft.topology.Legal ∧
      (∀ call,
        (draft.apply call = .ok (draft.extend call) ∧ (draft.extend call).topology.Legal) ∨
          ∃ fault, draft.apply call = .error fault ∧ fault.isStructural = true ∧
            draft.attempt call = draft ∧ ¬ (draft.extend call).topology.Legal) ∧
      (opened.accepted calls = calls ↔ (described calls).Legal) ∧
      (∀ calls', calls.Perm calls' →
        (opened.accepted calls = calls ↔ opened.accepted calls' = calls')) ∧
      ∀ config,
        ((∃ graph, draft.compile config = .ok graph) ↔
          draft.topology.Closed config.interruptBefore) ∧
        (∀ graph, draft.compile config = .ok graph →
          graph = ⟨id, keys, draft.topology, config⟩) ∧
        ∀ fault, draft.compile config = .error fault → fault.isStructural = true := by
  intro opened draft
  have hempty : opened.topology.Legal := Topology.legal_empty
  have hlegal : draft.topology.Legal := legal_attemptAll hempty calls
  have hdraft : draft = ⟨id, keys, described (opened.accepted calls)⟩ :=
    attemptAll_eq_described id keys calls
  have haccepted := accepted_eq_self_iff id keys
  refine ⟨hdraft, hlegal, apply_cases hlegal, haccepted calls, ?_, ?_⟩
  · intro calls' hperm
    rw [haccepted calls, haccepted calls']
    exact legal_described_iff_of_perm hperm
  · intro config
    refine ⟨by simp [compile_eq_ok_iff_closed], ?_, ?_⟩
    · intro graph hgraph
      obtain ⟨-, rfl⟩ := compile_eq_ok_iff_closed.mp hgraph
      rw [hdraft]
    · intro fault hfault
      obtain ⟨rule, hrule, -, rfl⟩ := exists_broken_of_error hfault
      exact isStructural_of_mem_wholeRules hrule

end Draft

end FlowGraph
