import FlowGraph.Proofs.PlainScan
import FlowGraph.Scan.Handlers

/-!
# Handlers that register last

The built-in handlers work step by step on one plan, and what a step registers
stays there.  That a member which is refused leaves nothing behind is therefore
owed to the order of the steps: everything that can fail comes before the first
registration, and what comes after it cannot fail.

* `Planning.Looks`, `Planning.Succeeds`: steps that register nothing, and steps that
  cannot fail.
* `Planning.Spares`: where the steps fail, the plan is what it was but for its record.
* `Planning.spares_work`: **the handlers spare the plan.**
* `Planning.Registers`: steps that add a contribution as the plan adds it.
* `Handler.ofSteps_eq_builtin`: **a handler that works step by step is the built-in
  handler of its role.**
-/

namespace FlowGraph

namespace Planning

variable {α β : Type} {first : Planning α} {next : α → Planning β}

/-! ## What steps do to a plan -/

/-- Steps after others are given what those have made, and the plan as those left it. -/
theorem run_bind (first : Planning α) (next : α → Planning β) (plan : Plan) :
    (first >>= next).run plan =
      match first.run plan with
      | (.ok value, left) => (next value).run left
      | (.error error, left) => (.error error, left) := by
  change (match first.run plan with | (result, left) => ExceptT.bindCont next result left) = _
  rcases first.run plan with ⟨failure | value, left⟩ <;> rfl

/-- Steps that read the plan first go on from it. -/
theorem run_get_bind (next : Plan → Planning β) (plan : Plan) :
    (get >>= next).run plan = (next plan).run plan := rfl

/-- Whatever comes of the steps, the plan keeps everything but its record. -/
def Looks (steps : Planning α) : Prop := ∀ plan, (steps.run plan).2.quiet = plan.quiet

/-- The steps go through on every plan. -/
def Succeeds (steps : Planning α) : Prop := ∀ plan, ∃ value left, steps.run plan = (.ok value, left)

/-- Where the steps fail, the plan keeps everything but its record. -/
def Spares (steps : Planning α) : Prop :=
  ∀ plan error left, steps.run plan = (.error error, left) → left.quiet = plan.quiet

/-- To be done is to leave the plan alone. -/
theorem looks_pure (value : α) : Looks (pure value : Planning α) := fun _ => rfl

/-- A refusal leaves the plan as it is. -/
theorem looks_refuse (operation : String) (cause : Cause) :
    Looks (refuse operation cause : Planning α) := fun _ => rfl

/-- Asking for a value leaves a record and nothing else. -/
theorem looks_resolve (member : Member) (candidate : Option String) :
    Looks (resolve member candidate) := by
  intro plan
  change (plan.noteQuestion member candidate).quiet = plan.quiet
  unfold Plan.noteQuestion
  split <;> rfl

/-- To be done is to have gone through. -/
theorem succeeds_pure (value : α) : Succeeds (pure value : Planning α) :=
  fun plan => ⟨value, plan, rfl⟩

/-- A call can always be put off. -/
theorem succeeds_defer (description : String) (call : Draft.Call) :
    Succeeds (defer description call) :=
  fun plan => ⟨(), plan.defer ⟨description, .call call⟩, rfl⟩

/-- Steps that go through may follow each other. -/
theorem Succeeds.bind (hfirst : Succeeds first) (hnext : ∀ value, Succeeds (next value)) :
    Succeeds (first >>= next) := by
  intro plan
  obtain ⟨value, left, hrun⟩ := hfirst plan
  rw [run_bind, hrun]
  exact hnext value left

/-! ## Looking first and registering last -/

/-- Steps that only look spare the plan. -/
theorem Looks.spares (h : Looks first) : Spares first := by
  intro plan error left hrun
  have hplan := h plan
  rwa [hrun] at hplan

/-- Steps that go through have no failure to answer for. -/
theorem Succeeds.spares (h : Succeeds first) : Spares first := by
  intro plan error left hrun
  obtain ⟨value, after, hok⟩ := h plan
  cases hok.symm.trans hrun

/-- **Steps may look around before steps that spare the plan.** -/
theorem Looks.bind_spares (hfirst : Looks first) (hnext : ∀ value, Spares (next value)) :
    Spares (first >>= next) := by
  intro plan error left hrun
  have hplan := hfirst plan
  rw [run_bind] at hrun
  rcases hanswer : first.run plan with ⟨failure | value, middle⟩
  · rw [hanswer] at hrun hplan
    cases hrun
    exact hplan
  · rw [hanswer] at hrun hplan
    exact (hnext value middle error left hrun).trans hplan

/-- **Steps that cannot fail may come after steps that spare the plan.** -/
theorem Spares.bind_succeeds (hfirst : Spares first) (hnext : ∀ value, Succeeds (next value)) :
    Spares (first >>= next) := by
  intro plan error left hrun
  rw [run_bind] at hrun
  rcases hanswer : first.run plan with ⟨failure | value, middle⟩
  · rw [hanswer] at hrun
    cases hrun
    exact hfirst plan error left hanswer
  · rw [hanswer] at hrun
    obtain ⟨_, _, hok⟩ := hnext value middle
    cases hok.symm.trans hrun

/-! ## What the handlers choose -/

/-- The checks of a key member come to what is read of it. -/
theorem exists_answer_chooseKey (member : Member) (tag : KeySpec) (plan : Plan) :
    ∃ answer : Except Refusal String,
      member.readKey tag = answer.map (.key · tag.rule) ∧
        (chooseKey member tag).run plan = (answer.mapError plan.error, plan) := by
  unfold chooseKey Member.readKey
  split
  · exact ⟨.error _, rfl, rfl⟩
  split
  · exact ⟨.error _, rfl, rfl⟩
  -- the id of the tag comes first, and then the own value
  generalize Text.given tag.id = given, member.value = own
  cases given with
  | some id => exact ⟨.ok id, rfl, rfl⟩
  | none =>
      cases own with
      | none =>
          by_cases htext : member.declared = .text
          · simp only [htext, if_true]
            exact ⟨.error _, rfl, rfl⟩
          · simp only [htext, if_false]
            exact ⟨.error _, rfl, rfl⟩
      | some value =>
          cases value with
          | text value => exact ⟨.ok value, rfl, rfl⟩
          | _ => exact ⟨.error _, rfl, rfl⟩

/-- What is chosen for a node is what is read first of its member. -/
theorem exists_answer_chooseBody (member : Member) (tag : NodeSpec) (value : Option Component)
    (plan : Plan) :
    ∃ answer : Except Refusal (String × Body Graph),
      member.readNode tag value = answer.map (fun found => .operations
        (⟨found.1, .call (.node (member.nodeId tag) found.2)⟩ ::
          Member.nodeEdges (member.nodeId tag) tag)) ∧
        (chooseBody member (member.nodeId tag) value).run plan =
          (answer.mapError plan.error, plan) := by
  cases value with
  | none => exact ⟨.error _, rfl, rfl⟩
  | some value =>
      cases value with
      | subgraph graph => exact ⟨.ok _, rfl, rfl⟩
      | nodeAction run | asyncNodeAction run | nodeActionWithConfig run
      | asyncNodeActionWithConfig run => exact ⟨.ok _, rfl, rfl⟩
      | _ => exact ⟨.error _, rfl, rfl⟩

/-- What is chosen for a router, once its routes are made, is what is read of its member. -/
theorem exists_answer_chooseChoice (member : Member) (tag : EdgeSpec) (routes : Table String)
    (value : Option Component) (plan : Plan) :
    ∃ answer : Except Refusal Choice,
      member.readRouter tag.source routes value = answer.map (fun choose => .operations
        [⟨s!"add conditional edges from '{tag.source}'",
          .call (.router tag.source ⟨choose, routes⟩)⟩]) ∧
        (chooseChoice member tag value).run plan = (answer.mapError plan.error, plan) := by
  cases value with
  | none => exact ⟨.error _, rfl, rfl⟩
  | some value =>
      cases value with
      | edgeAction choose | asyncEdgeAction choose | commandAction choose
      | asyncCommandAction choose => exact ⟨.ok _, rfl, rfl⟩
      | _ => exact ⟨.error _, rfl, rfl⟩

/-- What is chosen for a compile config is what is read of its member. -/
theorem exists_answer_chooseConfig (member : Member) (value : Option Component) (plan : Plan) :
    ∃ answer : Except Refusal CompileConfig,
      member.readConfig value = answer.map .config ∧
        (chooseConfig member value).run plan = (answer.mapError plan.error, plan) := by
  cases value with
  | none => exact ⟨.error _, rfl, rfl⟩
  | some value =>
      cases value with
      | compileConfig config => exact ⟨.ok config, rfl, rfl⟩
      | configSupplier supplied =>
          cases supplied with
          | none => exact ⟨.error _, rfl, rfl⟩
          | some config => exact ⟨.ok config, rfl, rfl⟩
      | _ => exact ⟨.error _, rfl, rfl⟩

/-- Steps that answer at a plan as the plan is, and hand it back, only look. -/
theorem looks_of_answer {steps : Planning α} {Reads : Plan → Except Refusal α → Prop}
    (h : ∀ plan, ∃ answer, Reads plan answer ∧
      steps.run plan = (answer.mapError plan.error, plan)) : Looks steps := by
  intro plan
  obtain ⟨answer, -, hrun⟩ := h plan
  rw [hrun]

/-- Routes are made without a change of the plan. -/
theorem looks_chooseRoutes (member : Member) (tag : EdgeSpec) :
    Looks (chooseRoutes member tag) := by
  unfold chooseRoutes
  split
  · exact looks_refuse _ _
  · split
    · exact looks_refuse _ _
    · exact looks_pure _

/-! ## What the handlers register -/

/-- A key is looked up before it is registered. -/
theorem spares_registerKey (key : String) (rule : WriteRule) (member : String) :
    Spares (registerKey key rule member) := by
  refine Looks.bind_spares (fun _ => rfl) fun plan => ?_
  split
  · exact (looks_refuse _ _).spares
  · exact Succeeds.spares fun plan => ⟨(), _, rfl⟩

/-- An earlier compile config is looked for before one is registered. -/
theorem spares_registerConfig (operation member : String) (config : CompileConfig) :
    Spares (registerConfig operation member config) := by
  refine Looks.bind_spares (fun _ => rfl) fun plan => ?_
  split
  · exact (looks_refuse _ _).spares
  · exact Succeeds.spares fun plan => ⟨(), _, rfl⟩

/-- Steps that go through for each entry of a list go through for the list. -/
theorem succeeds_forM {ι : Type} (entries : List ι) (steps : ι → Planning Unit)
    (h : ∀ entry, Succeeds (steps entry)) : Succeeds (entries.forM steps) := by
  induction entries with
  | nil => exact succeeds_pure ()
  | cons entry rest ih => exact (h entry).bind fun _ => ih

/-- What belongs to a node can always be put off. -/
theorem succeeds_deferNode (id : String) (tag : NodeSpec) (found : String × Body Graph) :
    Succeeds (deferNode id tag found) := by
  have hnext : Succeeds ((tag.next.filter fun next => !Text.isBlank next).forM fun next =>
      defer s!"add edge from '{id}' to '{next}'" (.edge id next)) :=
    succeeds_forM _ _ fun _ => succeeds_defer _ _
  refine (succeeds_defer _ _).bind fun _ => ?_
  split
  · exact (succeeds_defer _ _).bind fun _ => hnext
  · exact hnext

/-! ## The handlers -/

/-- **The handlers spare the plan**: a member that is refused leaves no key, no operation
and no compile config behind. -/
theorem spares_work (role : Role) (member : Member) : Spares (work role member) := by
  have htaken : ∀ _ : Unit, Succeeds (pure .intercepted : Planning Verdict) :=
    fun _ => succeeds_pure _
  -- in each role what can fail comes first, and then come steps that go through
  cases role with
  | key =>
      change Spares (workKey member)
      unfold workKey
      split
      · exact (looks_pure _).spares
      · next tag _ =>
          refine (looks_of_answer (exists_answer_chooseKey member tag)).bind_spares fun key => ?_
          exact (spares_registerKey key tag.rule member.name).bind_succeeds htaken
  | node =>
      change Spares (workNode member)
      unfold workNode
      split
      · exact (looks_pure _).spares
      · next tag _ =>
          refine (looks_resolve member _).bind_spares fun value => ?_
          have hbody := looks_of_answer (exists_answer_chooseBody member tag value)
          refine hbody.bind_spares fun found => Succeeds.spares ?_
          exact (succeeds_deferNode _ tag found).bind htaken
  | conditionalEdge =>
      change Spares (workRouter member)
      unfold workRouter
      split
      · exact (looks_pure _).spares
      · next tag _ =>
          refine (looks_chooseRoutes member tag).bind_spares fun routes => ?_
          refine (looks_resolve member none).bind_spares fun value => ?_
          have hchoice := looks_of_answer (exists_answer_chooseChoice member tag routes value)
          refine hchoice.bind_spares fun _ => Succeeds.spares ?_
          exact (succeeds_defer _ _).bind htaken
  | compileConfig =>
      refine (looks_resolve member none).bind_spares fun value => ?_
      have hconfig := looks_of_answer (exists_answer_chooseConfig member value)
      refine hconfig.bind_spares fun config => ?_
      exact (spares_registerConfig _ _ config).bind_succeeds htaken
  | unrecognized => exact (looks_pure _).spares

/-! ## The handlers and what they read -/

/-- Putting off calls one by one puts off the list of them. -/
theorem run_forM_defer {ι : Type} (entries : List ι) (describe : ι → String)
    (call : ι → Draft.Call) (plan : Plan) :
    (entries.forM fun entry => defer (describe entry) (call entry)).run plan =
      (.ok (), plan.deferAll (entries.map fun entry => ⟨describe entry, .call (call entry)⟩)) := by
  induction entries generalizing plan with
  | nil =>
      rw [List.map_nil, Plan.deferAll, List.append_nil]
      rfl
  | cons entry rest ih =>
      refine (ih (plan.defer ⟨describe entry, .call (call entry)⟩)).trans ?_
      simp [Plan.defer, Plan.deferAll]

/-- The steps add a contribution to a plan, or fail as the plan refuses it. -/
def Registers (member : Member) (steps : Planning Unit) (declared : Contribution) : Prop :=
  ∀ plan, steps.run plan =
    match plan.add member declared with
    | .ok next => (.ok (), next)
    | .error refusal => (.error (plan.error refusal), plan)

/-- A key is registered as the plan declares it. -/
theorem registers_key (member : Member) (key : String) (rule : WriteRule) :
    Registers member (registerKey key rule member.name) (.key key rule) := by
  intro plan
  unfold registerKey Plan.add Plan.declareKey
  rw [run_get_bind]
  by_cases htaken : Table.contains plan.keys key = true
  · simp only [htaken, if_true]
    rfl
  · simp only [htaken]
    rfl

/-- A node and its edges, put off one by one, are the operations of its contribution. -/
theorem registers_node (member : Member) (id : String) (tag : NodeSpec)
    (found : String × Body Graph) :
    Registers member (deferNode id tag found) (.operations
      (⟨found.1, .call (.node id found.2)⟩ :: Member.nodeEdges id tag)) := by
  intro plan
  change _ = ((.ok (), plan.deferAll _) : Except DefinitionError Unit × Plan)
  have hnext : ∀ plan : Plan, ((tag.next.filter fun next => !Text.isBlank next).forM fun next =>
      defer s!"add edge from '{id}' to '{next}'" (.edge id next)).run plan = _ :=
    run_forM_defer _ _ _
  unfold deferNode Member.nodeEdges
  split
  · refine (hnext _).trans ?_
    simp [Plan.defer, Plan.deferAll]
  · refine (hnext _).trans ?_
    simp [Plan.defer, Plan.deferAll]

/-- The one operation of a router is its contribution. -/
theorem registers_router (member : Member) (tag : EdgeSpec) (router : Router) :
    Registers member
      (defer s!"add conditional edges from '{tag.source}'" (.router tag.source router))
      (.operations [⟨s!"add conditional edges from '{tag.source}'",
        .call (.router tag.source router)⟩]) :=
  fun _ => rfl

/-- A compile config is registered as the plan declares it. -/
theorem registers_config (member : Member) (config : CompileConfig) :
    Registers member (registerConfig member.configOperation member.name config)
      (.config config) := by
  intro plan
  unfold registerConfig Plan.add Plan.declareConfig
  rw [run_get_bind]
  cases plan.config with
  | none => rfl
  | some entry => rfl

/-- Steps that choose something and register it come to a reading that is followed. -/
theorem run_choose_register {choose : Planning α} {register : α → Planning Unit}
    {member : Member} {plan : Plan} {answer : Except Refusal α} {declared : α → Contribution}
    (hchoose : choose.run plan = (answer.mapError plan.error, plan))
    (hregister : ∀ found, Registers member (register found) (declared found)) :
    (do let found ← choose; register found; return .intercepted : Planning Verdict).run plan =
      match (answer.map declared).bind (plan.add member) with
      | .error refusal => (.error (plan.error refusal), plan)
      | .ok next => (.ok .intercepted, next) := by
  rw [run_bind, hchoose]
  cases answer with
  | error refusal => rfl
  | ok found =>
      change (register found >>= fun _ => pure .intercepted : Planning Verdict).run plan =
        match plan.add member (declared found) with
        | .error refusal => (.error (plan.error refusal), plan)
        | .ok next => (.ok .intercepted, next)
      rw [run_bind, hregister found plan]
      cases plan.add member (declared found) <;> rfl

end Planning

namespace Handler

open Planning

/-- **A handler that works step by step is the built-in handler of its role.** -/
theorem ofSteps_eq_builtin (role : Role) : ofSteps role = builtin role := by
  funext member plan
  cases role with
  | key =>
      change (workKey member).run plan = _
      unfold workKey builtin Role.reading
      cases member.key? with
      | none => rfl
      | some tag =>
          obtain ⟨answer, hread, hrun⟩ := exists_answer_chooseKey member tag plan
          have hsteps := run_choose_register hrun fun key => registers_key member key tag.rule
          rw [← hread] at hsteps
          exact hsteps
  | node =>
      change (workNode member).run plan = _
      unfold workNode builtin Role.reading
      cases member.node? with
      | none => rfl
      | some tag =>
          let noted := plan.noteQuestion member (some (member.nodeId tag))
          obtain ⟨answer, hread, hrun⟩ := exists_answer_chooseBody member tag
            (noted.valueOf member (some (member.nodeId tag))) noted
          have hsteps := run_choose_register hrun fun found =>
            registers_node member (member.nodeId tag) tag found
          rw [← hread] at hsteps
          exact hsteps
  | conditionalEdge =>
      change (workRouter member).run plan = _
      unfold workRouter builtin Role.reading
      cases member.edge? with
      | none => rfl
      | some tag =>
          simp only [Option.map_some, Member.edgeReading, chooseRoutes]
          -- source and mappings can be refused before the supplier is asked
          by_cases hblank : Text.isBlank tag.source = true
          · simp only [hblank, if_true]
            rfl
          · simp only [hblank]
            cases routesOf member.name tag.mappings with
            | error cause => rfl
            | ok routes =>
                let noted := plan.noteQuestion member none
                obtain ⟨answer, hread, hrun⟩ := exists_answer_chooseChoice member tag routes
                  (noted.valueOf member none) noted
                have hsteps := run_choose_register hrun fun choose =>
                  registers_router member tag ⟨choose, routes⟩
                rw [← hread] at hsteps
                exact hsteps
  | compileConfig =>
      let noted := plan.noteQuestion member none
      obtain ⟨answer, hread, hrun⟩ :=
        exists_answer_chooseConfig member (noted.valueOf member none) noted
      have hsteps := run_choose_register hrun (registers_config member)
      rw [← hread] at hsteps
      exact hsteps
  | unrecognized => rfl

end Handler

end FlowGraph
