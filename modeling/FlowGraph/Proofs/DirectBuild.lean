import FlowGraph.Proofs.MemberReading

/-!
# Building without putting anything off

The *direct build* of a composer works its members in as they come.  It opens
the draft with the key table of all members, lets the first hook change it,
makes the calls that the tags of each member ask for, one member after the
other, lets the last hook change it, and compiles.  No plan is made.

* `Step`: a change of the draft, with the words for what it is meant to do.
* `Step.takeAll_eq_error_iff`: **the first step that is refused decides.**
* `Composer.buildDirectly`: the direct build.
* `Composer.buildDirectly_eq_error_iff`: why it fails.
* `Composer.id_of_buildDirectly`: what its graph is called.
-/

namespace FlowGraph

/-! ## Steps that are taken at once -/

/-- A change of the draft that is made at once, and what it is for. -/
structure Step where
  operation : String
  change : Draft → Except Fault Draft

namespace Step

/-- Take a step, or be refused. -/
def take (step : Step) (draft : Draft) : Except Refusal Draft :=
  (step.change draft).mapError fun fault => ⟨step.operation, .engine fault⟩

/-- Take steps one after the other, up to the first that is refused. -/
def takeAll (steps : List Step) (draft : Draft) : Except Refusal Draft :=
  steps.foldlM (fun draft step => step.take draft) draft

/-- Steps are refused at one of them: those before it are taken, it is refused,
and it would be whatever steps came next. -/
def RefusedAt (steps : List Step) (draft : Draft) (step : Step) (fault : Fault) : Prop :=
  ∃ before after middle, steps = before ++ step :: after ∧ takeAll before draft = .ok middle ∧
    step.change middle = .error fault ∧
    ∀ others, takeAll (before ++ step :: others) draft =
      .error ⟨step.operation, .engine fault⟩

/-- **Steps fail with the first that is refused.** -/
theorem takeAll_eq_error_iff {steps : List Step} {draft : Draft} {refusal : Refusal} :
    takeAll steps draft = .error refusal ↔
      ∃ step fault, RefusedAt steps draft step fault ∧
        refusal = ⟨step.operation, .engine fault⟩ := by
  constructor
  · intro h
    obtain ⟨before, step, after, middle, hsteps, hbefore, hstep⟩ :=
      Traversal.foldlM_eq_error_iff.mp h
    obtain ⟨fault, hchange, hrefusal⟩ := Traversal.mapError_eq_error_iff.mp hstep
    refine ⟨step, fault, ⟨before, after, middle, hsteps, hbefore, hchange, ?_⟩, hrefusal.symm⟩
    intro others
    rw [hrefusal]
    exact Traversal.foldlM_eq_error_iff.mpr ⟨before, step, others, middle, rfl, hbefore, hstep⟩
  · intro h
    obtain ⟨step, fault, ⟨before, after, middle, hsteps, -, -, hothers⟩, hrefusal⟩ := h
    rw [hsteps, hrefusal]
    exact hothers after

/-- Steps are taken one after the other. -/
theorem takeAll_cons (step : Step) (rest : List Step) (draft : Draft) :
    takeAll (step :: rest) draft = step.take draft >>= takeAll rest := List.foldlM_cons

/-- Lists of steps are taken one after the other. -/
theorem takeAll_append (front back : List Step) (draft : Draft) :
    takeAll (front ++ back) draft = takeAll front draft >>= takeAll back := List.foldlM_append

/-- Lists of steps are taken one after the other as the steps in them are. -/
theorem takeAll_flatMap {α : Type} (xs : List α) (f : α → List Step) (draft : Draft) :
    takeAll (xs.flatMap f) draft = xs.foldlM (fun draft x => takeAll (f x) draft) draft := by
  induction xs generalizing draft with
  | nil => rfl
  | cons x rest ih =>
      rw [List.flatMap_cons, takeAll_append, List.foldlM_cons]
      exact bind_congr ih

end Step

/-! ## The direct build -/

namespace Member

/-- The step that makes a node of a value: a graph is nested, an action is run. -/
def nodeStep? (id : String) : Component → Option Step
  | .subgraph graph => some ⟨s!"add sub-graph node '{id}'", fun draft => draft.addSubgraph id graph⟩
  | value => value.nodeAction?.map fun run =>
      ⟨s!"add node '{id}'", fun draft => draft.addNode id run⟩

/-- The steps that make the edges of a node: from the entry, then to each next
node that is not blank. -/
def edgeSteps (id : String) (tag : NodeSpec) : List Step :=
  (if tag.isStart then
    [⟨s!"add edge from START to '{id}'", fun draft => draft.addEdge startId id⟩] else []) ++
  (tag.next.filter fun next => !Text.isBlank next).map fun next =>
    ⟨s!"add edge from '{id}' to '{next}'", fun draft => draft.addEdge id next⟩

/-- The step that makes a router of a value. -/
def routerStep? (tag : EdgeSpec) (value : Component) : Option Step :=
  value.choice?.map fun choose =>
    ⟨s!"add conditional edges from '{tag.source}'", fun draft =>
      draft.addRouter tag.source choose (.ofList (routesOf.pairs tag.mappings))⟩

/-- The steps that work a member in: a node with its edges, or a router. -/
def steps (supplier : Supplier) (member : Member) : List Step :=
  (member.nodeTag?.toList.flatMap fun tag =>
    ((member.resolved supplier (some (member.nodeId tag))).bind
      (nodeStep? (member.nodeId tag))).toList ++ edgeSteps (member.nodeId tag) tag) ++
  member.routerTag?.toList.flatMap fun tag =>
    ((member.resolved supplier none).bind (routerStep? tag)).toList

/-- The key that a member stands for, with its rule. -/
def keyRule? (member : Member) : Option (String × WriteRule) :=
  member.keyTag?.bind fun tag => member.keyId?.map fun id => (id, tag.rule)

/-- The compile config that a member holds or supplies. -/
def config? (supplier : Supplier) (member : Member) : Option CompileConfig :=
  if member.role = .compileConfig then
    match member.resolved supplier none with
    | some (.compileConfig config) => some config
    | some (.configSupplier supplied) => supplied
    | _ => none
  else none

end Member

namespace Composer

/-- The keys of all members, with their rules. -/
def keyTable (composer : Composer) : KeyTable := .ofList (composer.members.filterMap Member.keyRule?)

/-- The compile config that a member declares, or else the default. -/
def config (composer : Composer) (supplier : Supplier) : CompileConfig :=
  (composer.members.findSome? (Member.config? supplier)).getD {}

/-- The draft that a direct build opens. -/
def opened (composer : Composer) (graphId : String) : Draft :=
  { id := graphId, keys := composer.keyTable }

/-- The first step: the hook that is run when the keys are known. -/
def firstStep (composer : Composer) : Step :=
  ⟨"run after-key-registration hook", composer.hooks.onKeys⟩

/-- The last step: the hook that is run when everything is added. -/
def lastStep (composer : Composer) : Step :=
  ⟨"run before-compile hook", composer.hooks.onComplete⟩

/-- The graph of a composer, with each member worked in at once. -/
def buildDirectly (composer : Composer) (supplier : Supplier) (graphId : String) :
    Except Refusal Graph := do
  let draft ← composer.firstStep.take (composer.opened graphId)
  let draft ← composer.members.foldlM
    (fun draft member => Step.takeAll (member.steps supplier) draft) draft
  let draft ← composer.lastStep.take draft
  (draft.compile (composer.config supplier)).mapError fun fault => ⟨"compile graph", .engine fault⟩

/-- All steps of a direct build, in order. -/
def steps (composer : Composer) (supplier : Supplier) : List Step :=
  composer.firstStep :: (composer.members.flatMap (Member.steps supplier) ++ [composer.lastStep])

/-- A direct build takes its steps, and compiles. -/
theorem buildDirectly_eq (composer : Composer) (supplier : Supplier) (graphId : String) :
    composer.buildDirectly supplier graphId =
      Step.takeAll (composer.steps supplier) (composer.opened graphId) >>= fun draft =>
        (draft.compile (composer.config supplier)).mapError fun fault =>
          ⟨"compile graph", .engine fault⟩ := by
  unfold buildDirectly steps
  rw [Step.takeAll_cons, bind_assoc]
  refine bind_congr ?_
  intro draft
  rw [Step.takeAll_append, Step.takeAll_flatMap, bind_assoc]
  refine bind_congr ?_
  intro filled
  rw [Step.takeAll_cons, bind_assoc]
  rfl

/-- Why a direct build fails. -/
inductive Refused (composer : Composer) (supplier : Supplier) (graphId : String) :
    Refusal → Prop where
  /-- A step is refused. -/
  | step {step : Step} {fault : Fault}
      (hrefused :
        Step.RefusedAt (composer.steps supplier) (composer.opened graphId) step fault) :
      Refused composer supplier graphId ⟨step.operation, .engine fault⟩
  /-- All steps are taken, and the draft cannot be compiled. -/
  | whole {draft : Draft} {fault : Fault}
      (htaken : Step.takeAll (composer.steps supplier) (composer.opened graphId) = .ok draft)
      (hbroken : draft.compile (composer.config supplier) = .error fault) :
      Refused composer supplier graphId ⟨"compile graph", .engine fault⟩

/-- **A direct build fails with the first step that is refused**, or, when all
have been taken, because the draft cannot be compiled. -/
theorem buildDirectly_eq_error_iff {composer : Composer} {supplier : Supplier}
    {graphId : String} {refusal : Refusal} :
    composer.buildDirectly supplier graphId = .error refusal ↔
      composer.Refused supplier graphId refusal := by
  rw [buildDirectly_eq, Traversal.bind_eq_error_iff, Step.takeAll_eq_error_iff]
  constructor
  · intro h
    rcases h with ⟨step, fault, hrefused, hrefusal⟩ | ⟨draft, htaken, hcompile⟩
    · rw [hrefusal]
      exact .step hrefused
    · obtain ⟨fault, hbroken, hrefusal⟩ := Traversal.mapError_eq_error_iff.mp hcompile
      rw [← hrefusal]
      exact .whole htaken hbroken
  · intro h
    cases h with
    | @step step fault hrefused => exact Or.inl ⟨step, fault, hrefused, rfl⟩
    | @whole draft fault htaken hbroken =>
        exact Or.inr ⟨draft, htaken, Traversal.mapError_eq_error_iff.mpr ⟨fault, hbroken, rfl⟩⟩

end Composer

/-! ## The id of the graph -/

/-- No hook changes the id of the draft. -/
structure Hooks.KeepId (hooks : Hooks) : Prop where
  onKeys : ∀ draft next, hooks.onKeys draft = .ok next → next.id = draft.id
  onComplete : ∀ draft next, hooks.onComplete draft = .ok next → next.id = draft.id

/-- A call does not change the id of its draft. -/
theorem Draft.id_of_apply {draft next : Draft} {call : Draft.Call}
    (h : draft.apply call = .ok next) : next.id = draft.id := by
  obtain ⟨-, rfl⟩ := apply_eq_ok_iff.mp h
  cases call <;> rfl

/-- Every step of a member is a call. -/
theorem Member.exists_call_of_mem_steps {supplier : Supplier} {member : Member} {step : Step}
    (h : step ∈ member.steps supplier) :
    ∃ call, ∀ draft, step.change draft = draft.apply call := by
  rcases List.mem_append.mp h with hnode | hrouter
  · obtain ⟨tag, -, htag⟩ := List.mem_flatMap.mp hnode
    rcases List.mem_append.mp htag with hbody | hedge
    · obtain ⟨value, -, hvalue⟩ := Option.bind_eq_some_iff.mp (Option.mem_toList.mp hbody)
      cases value <;> cases hvalue <;> exact ⟨_, fun _ => rfl⟩
    · rcases List.mem_append.mp hedge with hstart | hnext
      · split at hstart
        · rw [List.mem_singleton.mp hstart]
          exact ⟨_, fun _ => rfl⟩
        · cases hstart
      · obtain ⟨next, -, rfl⟩ := List.mem_map.mp hnext
        exact ⟨_, fun _ => rfl⟩
  · obtain ⟨tag, -, htag⟩ := List.mem_flatMap.mp hrouter
    obtain ⟨value, -, hvalue⟩ := Option.bind_eq_some_iff.mp (Option.mem_toList.mp htag)
    cases value <;> cases hvalue <;> exact ⟨_, fun _ => rfl⟩

/-- Steps that keep the id of a draft keep it together. -/
theorem Step.id_of_takeAll {steps : List Step} {draft final : Draft}
    (hkeep : ∀ step ∈ steps, ∀ draft next, step.change draft = .ok next → next.id = draft.id)
    (h : takeAll steps draft = .ok final) : final.id = draft.id := by
  induction steps generalizing draft with
  | nil =>
      cases h
      rfl
  | cons step rest ih =>
      rw [takeAll_cons] at h
      obtain ⟨next, hstep, hrest⟩ := Traversal.bind_eq_ok_iff.mp h
      obtain ⟨hhere, hthere⟩ := List.forall_mem_cons.mp hkeep
      have hnext : next.id = draft.id := hhere draft next (Traversal.mapError_eq_ok_iff.mp hstep)
      exact (ih hthere hrest).trans hnext

/-- **The graph has the id that its draft was opened with**, if no hook changes it. -/
theorem Composer.id_of_buildDirectly {composer : Composer} {supplier : Supplier}
    {graphId : String} {graph : Graph} (hkeep : composer.hooks.KeepId)
    (h : composer.buildDirectly supplier graphId = .ok graph) : graph.id = graphId := by
  rw [buildDirectly_eq] at h
  obtain ⟨draft, htaken, hcompile⟩ := Traversal.bind_eq_ok_iff.mp h
  obtain ⟨-, rfl⟩ := Draft.compile_eq_ok_iff.mp (Traversal.mapError_eq_ok_iff.mp hcompile)
  have hsteps : ∀ step ∈ composer.steps supplier, ∀ before next,
      step.change before = .ok next → next.id = before.id := by
    intro step hstep before next hnext
    rcases List.mem_cons.mp hstep with rfl | hstep
    · exact hkeep.onKeys before next hnext
    · rcases List.mem_append.mp hstep with hmember | hlast
      · obtain ⟨member, -, hmember⟩ := List.mem_flatMap.mp hmember
        obtain ⟨call, hcall⟩ := Member.exists_call_of_mem_steps hmember
        exact Draft.id_of_apply ((hcall before).symm.trans hnext)
      · rw [List.mem_singleton.mp hlast] at hnext
        exact hkeep.onComplete before next hnext
  exact Step.id_of_takeAll hsteps htaken

end FlowGraph
