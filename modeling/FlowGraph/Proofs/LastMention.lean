import FlowGraph.Proofs.FailureOrigins
import FlowGraph.Proofs.WellFormed

/-!
# The last mention of a label decides

A router member lists labels and destinations by turns, and may mention a label
more than once.  What is made of the list is a table, so that of all mentions of
a label only the last one is left: in the draft, when destinations are looked
at, and in every run.  The router that a member declares is found under its
source to the end, because a draft never gives up a router that it has, and only a
hook that throws the draft away can take it out of the graph.

* `Draft.router?_of_mem_applyAll`: a router that was accepted is found from then on.
* `Compiler.router?_of_compile`: **the graph has the router of the member.**
* `Machine.Turn`: a run comes to a source, and goes on from where the source leads.
* `EdgeSpec.leads_redirect_iff`: a destination that is not the label's last is no
  destination at all.
* `Compiler.last_mention_decides`: where the router goes, and what it never needs.
* `Compiler.not_every_last_mention_decides`: a last hook that draws the draft anew may
  lead elsewhere, and a place may be shadowed under one label and needed under another.
-/

namespace FlowGraph

/-! ## Labels that are mentioned -/

namespace EdgeSpec

variable {tag : EdgeSpec} {label target other : String} {i : Nat}

/-- A label stands in the place of a label. -/
def Mentions (tag : EdgeSpec) (label : String) : Prop := ∃ i, tag.mappings[2 * i]? = some label

/-- A mention is followed by a later one of the same label. -/
def Shadowed (tag : EdgeSpec) (i : Nat) : Prop :=
  ∃ label j, i < j ∧ tag.mappings[2 * i]? = some label ∧ tag.mappings[2 * j]? = some label

/-- The destination after a mention is changed. -/
def redirect (tag : EdgeSpec) (i : Nat) (other : String) : EdgeSpec :=
  { tag with mappings := tag.mappings.set (2 * i + 1) other }

/-- The routes have a destination for the labels that are mentioned, and no other. -/
theorem get?_routes_eq_none_iff (heven : tag.mappings.length % 2 = 0) :
    (Table.ofList (routesOf.pairs tag.mappings)).get? label = none ↔ ¬ tag.Mentions label := by
  constructor
  · rintro hnone ⟨i, hlabel⟩
    have hlength : 2 * i + 1 < tag.mappings.length := by
      have := (List.getElem?_eq_some_iff.mp hlabel).1
      omega
    have hpair : (routesOf.pairs tag.mappings)[i]? = some (label, tag.mappings[2 * i + 1]) :=
      (getElem?_pairs _ _ _ _).mpr ⟨hlabel, List.getElem?_eq_getElem hlength⟩
    rw [Table.get?_ofList, Fields.get?_eq_none_iff] at hnone
    exact hnone _ (List.mem_reverse.mpr (List.mem_of_getElem? hpair)) rfl
  · intro hunmentioned
    cases hroute : (Table.ofList (routesOf.pairs tag.mappings)).get? label with
    | none => rfl
    | some target =>
        obtain ⟨i, hlabel, -, -⟩ := (get?_routes_iff heven label target).mp hroute
        exact absurd ⟨i, hlabel⟩ hunmentioned

/-- **A shadowed destination is none**: to change it changes nothing. -/
theorem leads_redirect_iff (hshadowed : tag.Shadowed i) :
    (tag.redirect i other).Leads label target ↔ tag.Leads label target := by
  have hlabels : ∀ k, (tag.redirect i other).mappings[2 * k]? = tag.mappings[2 * k]? := by
    intro k
    have hne : 2 * i + 1 ≠ 2 * k := by omega
    exact List.getElem?_set_ne hne
  have htargets : ∀ k, k ≠ i →
      (tag.redirect i other).mappings[2 * k + 1]? = tag.mappings[2 * k + 1]? := by
    intro k hk
    have hne : 2 * i + 1 ≠ 2 * k + 1 := by omega
    exact List.getElem?_set_ne hne
  obtain ⟨again, j, hj, hi, hlater⟩ := hshadowed
  unfold Leads
  simp only [hlabels]
  refine exists_congr fun k => and_congr_right fun hk => and_congr_left fun hlast => ?_
  by_cases hki : k = i
  · subst hki
    rw [hi, Option.some.injEq] at hk
    exact absurd (hk ▸ hlater) (hlast j hj)
  · rw [htargets k hki]

/-- So the routes are the same. -/
theorem routesOf_redirect (hshadowed : tag.Shadowed i) (member other : String) :
    routesOf member (tag.redirect i other).mappings = routesOf member tag.mappings := by
  have hlength : (tag.redirect i other).mappings.length = tag.mappings.length := List.length_set
  unfold routesOf
  rw [hlength]
  by_cases heven : tag.mappings.length % 2 = 0
  · rw [if_pos heven, if_pos heven]
    refine congrArg Except.ok (Table.ext_get? fun label => ?_)
    refine Option.ext fun target => ?_
    rw [get?_routes_iff heven, get?_routes_iff (hlength ▸ heven), leads_redirect_iff hshadowed]
  · rw [if_neg heven, if_neg heven]

end EdgeSpec

/-! ## A draft keeps its routers -/

namespace Draft

variable {draft next : Draft} {source : String} {router : Router}

/-- An addition leaves the routers that are there. -/
theorem router?_extend (h : draft.topology.router? source = some router) (call : Call) :
    (draft.extend call).topology.router? source = some router := by
  cases call with
  | node id body => exact h
  | edge origin target => exact h
  | router origin added =>
      obtain ⟨entry, hfound, rfl⟩ := Option.map_eq_some_iff.mp h
      simp [extend, Topology.router?, List.find?_append, hfound]

/-- A call that is accepted leaves the routers that are there. -/
theorem router?_apply (h : draft.topology.router? source = some router) {call : Call}
    (hcall : draft.apply call = .ok next) : next.topology.router? source = some router := by
  obtain ⟨-, rfl⟩ := apply_eq_ok_iff.mp hcall
  exact router?_extend h call

/-- A list of calls leaves the routers that are there. -/
theorem router?_applyAll (h : draft.topology.router? source = some router) {calls : List Call}
    (hcalls : draft.applyAll calls = .ok next) : next.topology.router? source = some router := by
  induction calls generalizing draft with
  | nil =>
      cases hcalls
      exact h
  | cons call rest ih =>
      obtain ⟨middle, hcall, hrest⟩ := Traversal.bind_eq_ok_iff.mp hcalls
      exact ih (router?_apply h hcall) hrest

/-- Calls leave the routers that are there also if some of them are refused. -/
theorem router?_attemptAll (h : draft.topology.router? source = some router) (calls : List Call) :
    (draft.attemptAll calls).topology.router? source = some router := by
  induction calls generalizing draft with
  | nil => exact h
  | cons call rest ih =>
      refine ih ?_
      unfold attempt
      split
      · next hcall => exact router?_apply h hcall
      · exact h

/-- A router that is accepted is the one that is found, and it has routes. -/
theorem router?_of_apply (h : draft.apply (.router source router) = .ok next) :
    next.topology.router? source = some router ∧ router.routes.isEmpty = false := by
  obtain ⟨hclean, rfl⟩ := apply_eq_ok_iff.mp h
  simp only [rules, routerRules, List.forall_mem_cons] at hclean
  obtain ⟨-, -, hroutes, hfree, -⟩ := hclean
  refine ⟨?_, hroutes⟩
  have hnone : draft.topology.routers.find? (fun entry => entry.1 == source) = none := by
    simpa [Topology.router?] using hfree
  simp [extend, Topology.router?, List.find?_append, hnone]

/-- **A router that was accepted is found from then on.** -/
theorem router?_of_mem_applyAll {calls : List Call} (hmem : .router source router ∈ calls)
    (h : draft.applyAll calls = .ok next) :
    next.topology.router? source = some router ∧ router.routes.isEmpty = false := by
  induction calls generalizing draft with
  | nil => cases hmem
  | cons call rest ih =>
      obtain ⟨middle, hcall, hrest⟩ := Traversal.bind_eq_ok_iff.mp h
      rcases List.mem_cons.mp hmem with rfl | hmem
      · obtain ⟨hfound, hroutes⟩ := router?_of_apply hcall
        exact ⟨router?_applyAll hfound hrest, hroutes⟩
      · exact ih hmem hrest

end Draft

/-- The last hook leaves the router of a source, where it finds one. -/
def Hooks.KeepRouter (hooks : Hooks) (source : String) : Prop :=
  ∀ draft next router, hooks.onComplete draft = .ok next →
    draft.topology.router? source = some router → next.topology.router? source = some router

/-- A hook that makes calls, and does nothing else to the draft, leaves every router. -/
theorem Hooks.keepRouter_of_calls {hooks : Hooks}
    (h : ∀ draft next, hooks.onComplete draft = .ok next → ∃ calls, next = draft.attemptAll calls)
    (source : String) : hooks.KeepRouter source := by
  intro draft next router hhook hrouter
  obtain ⟨calls, rfl⟩ := h draft next hhook
  exact Draft.router?_attemptAll hrouter calls

/-! ## The router of a member -/

/-- A plan that is built is built step by step. -/
theorem Plan.exists_drafts_of_build {plan : Plan} {hooks : Hooks} {graph : Graph}
    (h : plan.build hooks = .ok graph) :
    ∃ opened filled final, Plan.performAll plan.operations opened = .ok filled ∧
      hooks.onComplete filled = .ok final ∧ final.compile plan.options = .ok graph := by
  obtain ⟨final, hfinished, hcompile⟩ := Traversal.bind_eq_ok_iff.mp h
  obtain ⟨filled, hfilled, hlast⟩ := Traversal.bind_eq_ok_iff.mp hfinished
  obtain ⟨opened, -, hperform⟩ := Traversal.bind_eq_ok_iff.mp hfilled
  exact ⟨opened, filled, final, hperform, Traversal.mapError_eq_ok_iff.mp hlast,
    Traversal.mapError_eq_ok_iff.mp hcompile⟩

/-- A router member declares one call. -/
theorem Member.exists_router_of_declares {supplier : Supplier} {member : Member} {tag : EdgeSpec}
    {found : Contribution} (htag : member.routerTag? = some tag)
    (h : member.declares supplier = .ok found) :
    tag.mappings.length % 2 = 0 ∧ ∃ value choose, member.resolved supplier none = some value ∧
      value.choice? = some choose ∧
      .router tag.source ⟨choose, .ofList (routesOf.pairs tag.mappings)⟩ ∈ found.calls := by
  obtain ⟨hrole, htag⟩ := routerTag?_eq_some_iff.mp htag
  obtain ⟨-, heven, hread⟩ := (declares_router_eq_ok_iff hrole htag).mp h
  obtain ⟨value, choose, hvalue, hchoose, rfl⟩ := readRouter_eq_ok hread
  exact ⟨heven, value, choose, hvalue, hchoose, List.mem_singleton_self _⟩

namespace Compiler

variable {compiler : Compiler} {composer : Composer} {member : Member} {tag : EdgeSpec}
  {graph : Graph}

/-- **The graph has the router of the member**, with the routes of its tag. -/
theorem router?_of_compile (hplain : compiler.extensions = [])
    (hkeep : composer.hooks.KeepRouter tag.source) (hmember : member ∈ composer.members)
    (htag : member.routerTag? = some tag) (hgraph : compiler.compile composer = .ok graph) :
    tag.mappings.length % 2 = 0 ∧ tag.mappings ≠ [] ∧
      ∃ value choose, member.resolved compiler.supplier none = some value ∧
        value.choice? = some choose ∧
        graph.topology.router? tag.source =
          some ⟨choose, .ofList (routesOf.pairs tag.mappings)⟩ := by
  obtain ⟨_, plan, -, hwalk, hbuild⟩ := exists_plan_of_compile hplain hgraph
  obtain ⟨found, hfound, -, -, hgathers⟩ := gathers_of_takeAll hwalk
  obtain ⟨opened, filled, final, hperform, hlast, hcompile⟩ := Plan.exists_drafts_of_build hbuild
  obtain ⟨contribution, hmem, hdeclares⟩ := Traversal.exists_answer hfound hmember
  obtain ⟨heven, value, choose, hvalue, hchoose, hcall⟩ :=
    Member.exists_router_of_declares htag hdeclares
  rw [hgathers.operations, Plan.performAll_eq_ok_iff (Member.plain_of_mapM hfound),
    List.flatMap_assoc] at hperform
  obtain ⟨hrouter, hroutes⟩ :=
    Draft.router?_of_mem_applyAll (List.mem_flatMap.mpr ⟨contribution, hmem, hcall⟩) hperform
  obtain ⟨-, rfl⟩ := Draft.compile_eq_ok_iff.mp hcompile
  exact ⟨heven, (EdgeSpec.isEmpty_routes_eq_false_iff heven).mp hroutes, value, choose, hvalue,
    hchoose, hkeep filled final _ hlast hrouter⟩

/-- A shadowed destination may be changed to anything: the composer compiles alike. -/
theorem compile_redirect (hplain : compiler.extensions = []) {front back : List Member}
    (hmembers : composer.members = front ++ member :: back) (htag : member.routerTag? = some tag)
    {i : Nat} (hshadowed : tag.Shadowed i) {redirected : Member} {other : String}
    (hname : redirected.name = member.name)
    (hother : redirected.routerTag? = some (tag.redirect i other))
    (hvalue : redirected.resolved compiler.supplier none = member.resolved compiler.supplier none) :
    compiler.compile { composer with members := front ++ redirected :: back } =
      compiler.compile composer := by
  obtain ⟨hrole, htag⟩ := Member.routerTag?_eq_some_iff.mp htag
  obtain ⟨hrole', hother⟩ := Member.routerTag?_eq_some_iff.mp hother
  have hdeclares : redirected.declares compiler.supplier = member.declares compiler.supplier := by
    rw [Member.declares_of_edge hrole htag, Member.declares_of_edge hrole' hother, hvalue,
      Member.readEdge_congr hname]
    unfold Member.readEdge Member.edgeReading
    rw [EdgeSpec.routesOf_redirect hshadowed]
    rfl
  refine compile_congr hplain ?_
  rw [hmembers]
  have hsame : ∀ members : List Member,
      List.Forall₂ (Member.StandsIn compiler.supplier) members members :=
    fun _ => List.forall₂_same.mpr fun other _ => .refl compiler.supplier other
  exact List.rel_append (hsame front) (.cons ⟨hname, hdeclares⟩ (hsame back))

end Compiler

/-! ## Where a run goes from a source -/

namespace Machine

/-- **A run comes to a source**, and asks on a store what comes after it.  The step that
it is making comes out as `resume` says of the answer: of the targets, and of the store
that goes with them. -/
inductive Turn (m : Machine) (ctx : RunConfig) (inputs : Store) : String → Store →
    Except Fault Boundary → (List String → Store → Except Fault Boundary) → Prop
  /-- The run begins: the answer is the first boundary. -/
  | entry : Turn m ctx inputs startId (.enter m.keys inputs) (m.enter ctx inputs)
      fun targets store => .ok (.at store targets)
  /-- The source has run in a superstep, and those before it in the frontier have led on:
  those after it lead on from the store of the answer, and then it is the store of the
  next boundary. -/
  | later {b : Boundary} {before after next : List String} {source : String}
      {merged store : Store} (hstep : m.StepsFrom ctx inputs b)
      (hfrontier : b.frontier = before ++ source :: after)
      (hact : m.actAll ctx b = .ok merged)
      (hearlier : m.routeAll ctx before [] merged = .ok (next, store)) :
      Turn m ctx inputs source store (m.advance ctx b) fun targets store =>
        (m.routeAll ctx after (addNew next targets) store).map fun reached =>
          .at reached.2 reached.1

variable {m : Machine} {ctx : RunConfig} {inputs store : Store} {source : String}
  {step : Except Fault Boundary} {resume : List String → Store → Except Fault Boundary}

/-- Where the nodes of a superstep succeed, the rest of it is the routing. -/
theorem advance_eq_of_actAll {b : Boundary} {merged : Store} (hact : m.actAll ctx b = .ok merged) :
    m.advance ctx b =
      (m.routeAll ctx b.frontier [] merged).map fun reached => .at reached.2 reached.1 := by
  rw [advance, hact]
  change (m.routeAll ctx b.frontier [] merged >>= _) = _
  cases m.routeAll ctx b.frontier [] merged <;> rfl

/-- The step goes on with what comes after the source. -/
theorem Turn.step_eq (h : m.Turn ctx inputs source store step resume) {targets : List String}
    {written : Store} (hlead : m.successors ctx source store = .ok (targets, written)) :
    step = resume targets written := by
  cases h with
  | entry => exact enter_eq_ok_iff.mpr ⟨targets, written, hlead, rfl⟩
  | @later b before after next source merged store hstep hfrontier hact hearlier =>
      rw [advance_eq_of_actAll hact, hfrontier, routeAll_append, hearlier]
      simp only [Except.bind, routeAll, hlead]

/-- The run fails where the router of the source does not lead on. -/
theorem Turn.run_eq_error (h : m.Turn ctx inputs source store step resume) {router : Router}
    (hrouter : m.topology.router? source = some router) {fault : Fault}
    (hfail : m.successors ctx source store = .error fault) : m.run inputs ctx = .error fault := by
  have hcomes : m.ComesToRouter ctx inputs source router store := by
    cases h with
    | entry => exact .entry hrouter
    | later hstep hfrontier hact hearlier => exact .later hstep hfrontier hact hearlier hrouter
  exact hcomes.run_eq_error hfail

end Machine

/-- **The last mention of a label decides.**  Take a compiler without extensions, and a
composer that compiles and whose last hook leaves the routers that it finds.  A member
that is a router lists labels and destinations in pairs, one pair at least, and it has a
value, its own or the supplier's, that is a routing action.

* Whenever a run comes to the source of the member and the action chooses a label that is
  mentioned, the run goes on with one target, the destination after the label's last
  mention, and with the store to which the update has been written by the rules of the
  graph.
* If the label is not mentioned, the run fails, and names the source and the label.
* The source never leads to anything but the destination after some label's last mention.
* A destination after an earlier mention may be anything at all: with another one in its
  place the composer compiles to the same graph. -/
theorem Compiler.last_mention_decides {compiler : Compiler} {composer : Composer}
    {member : Member} {tag : EdgeSpec} {graph : Graph} (hplain : compiler.extensions = [])
    (hkeep : composer.hooks.KeepRouter tag.source) (hmember : member ∈ composer.members)
    (htag : member.routerTag? = some tag) (hgraph : compiler.compile composer = .ok graph) :
    tag.mappings.length % 2 = 0 ∧ tag.mappings ≠ [] ∧
      (∃ value choose, member.resolved compiler.supplier none = some value ∧
        value.choice? = some choose ∧
        ∀ ctx inputs store step resume,
          graph.machine.Turn ctx inputs tag.source store step resume →
          ∀ decision, choose store ctx = .ok decision →
            (tag.Mentions decision.goto → ∃ target, tag.Leads decision.goto target ∧
              step = resume [target] (store.update graph.keys decision.update)) ∧
            (¬ tag.Mentions decision.goto →
              graph.run inputs ctx = .error (.unknownRoute tag.source decision.goto))) ∧
      (∀ ctx store targets written,
        graph.machine.successors ctx tag.source store = .ok (targets, written) →
          ∃ label target, tag.Leads label target ∧ targets = [target]) ∧
      ∀ front back i other redirected, composer.members = front ++ member :: back →
        tag.Shadowed i → redirected.name = member.name →
        redirected.routerTag? = some (tag.redirect i other) →
        redirected.resolved compiler.supplier none = member.resolved compiler.supplier none →
          compiler.compile { composer with members := front ++ redirected :: back } =
            .ok graph := by
  obtain ⟨heven, hroutes, value, choose, hvalue, hchoose, hrouter⟩ :=
    router?_of_compile hplain hkeep hmember htag hgraph
  have hmachine : graph.machine.topology.router? tag.source =
      some ⟨choose, .ofList (routesOf.pairs tag.mappings)⟩ := hrouter
  refine ⟨heven, hroutes, ⟨value, choose, hvalue, hchoose, ?_⟩, ?_, ?_⟩
  · intro ctx inputs store step resume hturn decision hdecision
    constructor
    · intro hmentioned
      have hsome := mt (EdgeSpec.get?_routes_eq_none_iff heven).mp (not_not.mpr hmentioned)
      obtain ⟨target, htarget⟩ := Option.ne_none_iff_exists'.mp hsome
      refine ⟨target, (EdgeSpec.get?_routes_iff heven _ _).mp htarget, hturn.step_eq ?_⟩
      simp only [Machine.successors, hmachine, hdecision, htarget]
      rfl
    · intro hunmentioned
      have hnone := (EdgeSpec.get?_routes_eq_none_iff heven).mpr hunmentioned
      rw [Graph.run_eq]
      refine hturn.run_eq_error hmachine ?_
      simp only [Machine.successors, hmachine, hdecision, hnone]
  · intro ctx store targets written hlead
    rcases Machine.successors_eq_ok hlead with ⟨hnone, -, -⟩ |
      ⟨router, decision, target, hfound, -, hroute, rfl, -⟩
    · cases hmachine.symm.trans hnone
    · cases hmachine.symm.trans hfound
      exact ⟨decision.goto, target, (EdgeSpec.get?_routes_iff heven _ _).mp hroute, rfl⟩
  · intro front back i other redirected hmembers hshadowed hname hother hsame
    rw [compile_redirect hplain hmembers htag hshadowed hname hother hsame, hgraph]

/-- Of two mentions of `on` the first leads to a place that nobody knows. -/
def EdgeSpec.dial : EdgeSpec :=
  { source := "lamp", mappings := ["on", "nowhere", "off", endId, "on", "street"] }

/-- Turns the lamp on, or to what the thread says. -/
def Choice.dial : Choice := fun _ ctx =>
  .ok { goto := ctx.threadId.getD "on", update := .ofList [("lit", .bool true)] }

/-- A member that turns the lamp. -/
def Member.dial : Member :=
  { Member.field "dial" (.commandAction .dial) with tags := [.edge .dial] }

/-- A lamp with a dial; the street is added by the last hook. -/
def Composer.lantern : Composer where
  typeName := "Lantern"
  marker := some {}
  members :=
    [{ Member.field "lamp" (.nodeAction fun _ => .ok .empty) with
       tags := [.node { isStart := true }] }, .dial]
  hooks :=
    { onComplete := fun draft => .ok (draft.attemptAll
        [.node "street" (.action fun store _ => .ok (.ofList [("seen", .bool (store.contains "lit"))])),
         .edge startId startId]) }

/-- The dial leads to the street, which sees its light, and needs no other place; a thread
that says something else gets nowhere. -/
theorem Compiler.last_of_two_mentions_is_taken :
    Composer.lantern.hooks.KeepRouter "lamp" ∧ Member.dial.routerTag? = some .dial ∧
      EdgeSpec.dial.Shadowed 0 ∧
      ∃ graph, ({} : Compiler).compile .lantern = .ok graph ∧
        graph.machine.advance {} ⟨.empty, ["lamp"]⟩ =
          .ok ⟨.ofList [("lit", .bool true)], ["street"]⟩ ∧
        graph.run .empty { threadId := some "dim" } = .error (.unknownRoute "lamp" "dim") ∧
        ({} : Compiler).compile { Composer.lantern with
          members := Composer.lantern.members.take 1 ++
            { Member.dial with tags := [.edge (EdgeSpec.dial.redirect 0 "elsewhere")] } :: [] } =
          .ok graph := by
  have hkeep : Composer.lantern.hooks.KeepRouter "lamp" :=
    Hooks.keepRouter_of_calls (fun _ _ h => ⟨_, (Except.ok.inj h).symm⟩) "lamp"
  have hshadowed : EdgeSpec.dial.Shadowed 0 := ⟨"on", 2, by decide, rfl, rfl⟩
  obtain ⟨graph, hgraph⟩ : ∃ graph, ({} : Compiler).compile .lantern = .ok graph := ⟨_, rfl⟩
  have hplain : ({} : Compiler).extensions = [] := rfl
  have hdial : Member.dial ∈ Composer.lantern.members := List.mem_cons_of_mem _ List.mem_cons_self
  obtain ⟨-, -, ⟨value, choose, hvalue, hchoose, hturns⟩, -, hredirect⟩ :=
    last_mention_decides hplain hkeep hdial rfl hgraph
  cases hvalue
  cases hchoose
  have hsplit : ["lamp"] = [] ++ "lamp" :: [] := rfl
  have hturn : ∀ ctx, graph.machine.Turn ctx .empty "lamp" .empty
      (graph.machine.advance ctx ⟨.empty, ["lamp"]⟩) fun targets store =>
        (graph.machine.routeAll ctx [] (addNew [] targets) store).map fun reached =>
          .at reached.2 reached.1 := by
    intro ctx
    cases hgraph
    exact .later (b := ⟨.empty, ["lamp"]⟩) ⟨0, .enter rfl, rfl, by decide⟩ hsplit rfl rfl
  refine ⟨hkeep, rfl, hshadowed, graph, hgraph, ?_, ?_, ?_⟩
  · obtain ⟨target, hleads, hstep⟩ := (hturns _ _ _ _ _ (hturn {}) _ rfl).1 ⟨0, rfl⟩
    have hstreet := (EdgeSpec.get?_routes_iff rfl _ _).mpr hleads
    cases hstreet
    cases hgraph
    exact hstep
  · have hunmentioned : ¬ EdgeSpec.dial.Mentions "dim" :=
      (EdgeSpec.get?_routes_eq_none_iff rfl).mp rfl
    exact (hturns _ _ _ _ _ (hturn { threadId := some "dim" }) _ rfl).2 hunmentioned
  · exact hredirect _ [] 0 "elsewhere" _ rfl hshadowed rfl rfl rfl

/-- A last hook that throws the draft away and draws the lamp anew: the dial is the
same, and what it says leads to the exit. -/
def Composer.redrawnLantern : Composer :=
  { Composer.lantern with
    hooks :=
      { onComplete := fun draft => .ok (Draft.attemptAll { id := draft.id, keys := draft.keys }
          [.node "lamp" (.action fun _ _ => .ok .empty), .edge startId "lamp",
           .router "lamp" ⟨.dial, .ofList [("off", endId), ("on", endId)]⟩]) } }

/-- An attic after two labels, of which only the first is mentioned again. -/
def EdgeSpec.attic : EdgeSpec :=
  { source := "lamp", mappings := ["on", "attic", "off", "attic", "on", endId] }

/-- A lamp whose dial leads to an attic that is not there. -/
def Composer.darkAttic : Composer :=
  { Composer.lantern with
    members := Composer.lantern.members.take 1 ++ [{ Member.dial with tags := [.edge .attic] }]
    hooks := {} }

/-- **The list of a member does not decide alone.**  A last hook may give its source
other routes; and a place that is shadowed under one label is still looked for when it
stands after the last mention of another. -/
theorem Compiler.not_every_last_mention_decides :
    (¬ ∀ (compiler : Compiler) (composer : Composer) (member : Member) (tag : EdgeSpec)
      (graph : Graph), compiler.extensions = [] → member ∈ composer.members →
      member.routerTag? = some tag → compiler.compile composer = .ok graph →
      ∀ value choose, member.resolved compiler.supplier none = some value →
        value.choice? = some choose →
        ∀ ctx inputs store step resume,
          graph.machine.Turn ctx inputs tag.source store step resume →
          ∀ decision, choose store ctx = .ok decision → tag.Mentions decision.goto →
            ∃ target, tag.Leads decision.goto target ∧
              step = resume [target] (store.update graph.keys decision.update)) ∧
    ¬ ∀ (compiler : Compiler) (composer : Composer) (member : Member) (tag : EdgeSpec) (i : Nat)
      (place graphId context : String), compiler.extensions = [] → member ∈ composer.members →
      member.routerTag? = some tag → tag.Shadowed i → tag.mappings[2 * i + 1]? = some place →
      compiler.compile composer ≠ .error (.definition
        ⟨⟨"compile graph", .engine (.unknownNode place context)⟩, graphId⟩) := by
  constructor
  · intro hdecides
    obtain ⟨graph, hgraph⟩ : ∃ graph, ({} : Compiler).compile .redrawnLantern = .ok graph :=
      ⟨_, rfl⟩
    have hsplit : ["lamp"] = [] ++ "lamp" :: [] := rfl
    have hturn : graph.machine.Turn {} .empty "lamp" .empty
        (graph.machine.advance {} ⟨.empty, ["lamp"]⟩) fun targets store =>
          (graph.machine.routeAll {} [] (addNew [] targets) store).map fun reached =>
            .at reached.2 reached.1 := by
      cases hgraph
      exact .later (b := ⟨.empty, ["lamp"]⟩) ⟨0, .enter rfl, rfl, by decide⟩ hsplit rfl rfl
    have hdial : Member.dial ∈ Composer.redrawnLantern.members :=
      List.mem_cons_of_mem _ List.mem_cons_self
    obtain ⟨target, hleads, hstep⟩ := hdecides {} .redrawnLantern .dial .dial graph rfl hdial rfl
      hgraph _ _ rfl rfl _ _ _ _ _ hturn _ rfl ⟨0, rfl⟩
    -- the list leads to the street, and the run to the exit
    have hstreet := (EdgeSpec.get?_routes_iff rfl _ _).mpr hleads
    cases hstreet
    cases hgraph
    cases hstep
  · intro hneedless
    have hdial : { Member.dial with tags := [.edge .attic] } ∈ Composer.darkAttic.members :=
      List.mem_cons_of_mem _ List.mem_cons_self
    exact hneedless {} .darkAttic _ .attic 0 "attic" _ _ rfl hdial rfl ⟨"on", 2, by decide, rfl, rfl⟩
      rfl rfl

end FlowGraph
