import FlowGraph.Proofs.DirectBuild
import Mathlib.Data.List.Induction

/-!
# Putting off cannot be told

A compiler scans all members before it touches a draft: whatever a member asks
of the draft is put off until the scan is over.  Without extensions nobody can
tell this from the direct build, but for one thing, that a member which cannot
be scanned is reported before any step that is refused.

* `Compiler.FailsFirst`: a member fails to scan, and all before it do not.
* `Contribution.Told`: **the one spec of a member**, what it puts off are the
  steps that it would take at once.
* `Plan.build_eq_buildDirectly`: a plan that gathers what the members declare
  is built as the direct build goes.
* `Compiler.deferring_is_unobservable`: compiling and building directly.
-/

namespace FlowGraph

/-! ## The first member that fails to scan -/

/-- Members are scanned half by half. -/
theorem scan_append (extensions : List Handler) (front back : List Member) (plan : Plan) :
    scan extensions (front ++ back) plan =
      match scan extensions front plan with
      | (.ok (), next) => scan extensions back next
      | (.error error, next) => (.error error, next) := by
  induction front generalizing plan with
  | nil => rfl
  | cons member rest ih =>
      simp only [List.cons_append, scan]
      cases Handler.ofExtensions extensions member plan with
      | mk answer next =>
          cases answer with
          | ok verdict => exact ih next
          | error error => rfl

namespace Compiler

/-- No member fails to scan. -/
def AllScan (compiler : Compiler) (graphId : String) (members : List Member) : Prop :=
  (compiler.scanMembers graphId members).1 = .ok ()

/-- A member fails to scan with an error, and all members before it do not. -/
def FailsFirst (compiler : Compiler) (graphId : String) (members : List Member)
    (error : DefinitionError) : Prop :=
  ∃ before member after, members = before ++ member :: after ∧
    compiler.AllScan graphId before ∧
    (compiler.scanMembers graphId (before ++ [member])).1 = .error error

variable {compiler : Compiler} {graphId : String} {members : List Member}

/-- A scan that fails does so whatever members come next. -/
theorem scanMembers_append_of_error {error : DefinitionError} {front : List Member}
    (h : (compiler.scanMembers graphId front).1 = .error error) (back : List Member) :
    (compiler.scanMembers graphId (front ++ back)).1 = .error error := by
  unfold scanMembers at h ⊢
  rw [scan_append]
  cases hscan : scan compiler.extensions front (compiler.emptyPlan graphId) with
  | mk answer next =>
      rw [hscan] at h
      cases answer with
      | ok done => cases h
      | error failure => exact h

/-- **A scan ends with the error of the first member that fails.** -/
theorem scanMembers_eq_error_iff {error : DefinitionError} :
    (compiler.scanMembers graphId members).1 = .error error ↔
      compiler.FailsFirst graphId members error := by
  constructor
  · intro h
    -- members are taken away at the end, as long as the scan fails without them
    induction members using List.reverseRecOn with
    | nil => cases h
    | append_singleton before member ih =>
        cases hbefore : (compiler.scanMembers graphId before).1 with
        | ok done => exact ⟨before, member, [], rfl, hbefore, h⟩
        | error earlier =>
            have hsame : earlier = error := by
              rw [scanMembers_append_of_error hbefore] at h
              exact Except.error.inj h
            rw [hsame] at hbefore
            obtain ⟨front, first, after, rfl, hfront, hfirst⟩ := ih hbefore
            exact ⟨front, first, after ++ [member], by simp, hfront, hfirst⟩
  · intro h
    obtain ⟨before, member, after, rfl, -, hmember⟩ := h
    rw [List.append_cons]
    exact scanMembers_append_of_error hmember after

/-- Either all members can be scanned, or one is the first that cannot. -/
theorem allScan_or_failsFirst (compiler : Compiler) (graphId : String) (members : List Member) :
    compiler.AllScan graphId members ∨ ∃ error, compiler.FailsFirst graphId members error := by
  cases hscan : (compiler.scanMembers graphId members).1 with
  | ok done => exact Or.inl hscan
  | error error => exact Or.inr ⟨error, scanMembers_eq_error_iff.mp hscan⟩

end Compiler

/-! ## What is put off is what would be done at once -/

/-- A contribution asks for what its member would do at once: the operations that
it puts off are steps, and its key and its compile config are the member's. -/
structure Contribution.Told (supplier : Supplier) (member : Member) (found : Contribution) :
    Prop where
  steps : found.deferred.map Operation.perform = (member.steps supplier).map Step.take
  rules : found.rules = member.keyRule?.toList
  configs : found.configs = (member.config? supplier).toList

namespace Member

variable {supplier : Supplier} {member : Member} {found : Contribution}

/-- The edges that are put off are the steps to the edges. -/
theorem map_perform_nodeEdges (id : String) (tag : NodeSpec) :
    (nodeEdges id tag).map Operation.perform = (edgeSteps id tag).map Step.take := by
  unfold nodeEdges edgeSteps
  rw [List.map_append, List.map_append, List.map_map, List.map_map]
  congr 1
  by_cases hstart : tag.isStart
  · rw [if_pos hstart, if_pos hstart]
    rfl
  · rw [if_neg hstart, if_neg hstart]
    rfl

/-- Putting off a node is the step to the node. -/
theorem nodeStep?_of_backs {value : Component} {body : Body Graph} (h : value.Backs body)
    (id : String) :
    ∃ step, nodeStep? id value = some step ∧ (Operation.ofNode id body).perform = step.take := by
  cases h with
  | subgraph graph => exact ⟨_, rfl, rfl⟩
  | action hlift => cases value <;> cases hlift <;> exact ⟨_, rfl, rfl⟩

/-- A contribution without operations comes from a member that takes no steps. -/
theorem told_without_steps (hdeferred : found.deferred = []) (hnode : member.nodeTag? = none)
    (hrouter : member.routerTag? = none) (hrules : found.rules = member.keyRule?.toList)
    (hconfigs : found.configs = (member.config? supplier).toList) :
    found.Told supplier member := by
  refine ⟨?_, hrules, hconfigs⟩
  simp [hdeferred, steps, hnode, hrouter]

/-- **What a member puts off is what it would do at once.** -/
theorem told_of_declares (h : member.declares supplier = .ok found) :
    found.Told supplier member := by
  -- only nodes and routers put anything off, and edges go with their node
  cases declared_of_declares h with
  | @key tag id hrole htag hid =>
      have hkey : member.keyTag? = some tag := keyTag?_eq_some_iff.mpr ⟨hrole, htag⟩
      refine told_without_steps rfl (by simp [nodeTag?, hrole]) (by simp [routerTag?, hrole])
        ?_ ?_
      · simp only [Contribution.rules, keyRule?, keyId?, hkey, Option.bind_some, hid,
          Option.map_some, Option.toList_some]
      · simp [Contribution.configs, config?, hrole]
  | @node tag value body hrole htag hvalue hbody =>
      have hnode : member.nodeTag? = some tag := nodeTag?_eq_some_iff.mpr ⟨hrole, htag⟩
      have hrouter : member.routerTag? = none := by simp [routerTag?, hrole]
      have hedges := map_perform_nodeEdges (member.nodeId tag) tag
      obtain ⟨step, hstep, htake⟩ := nodeStep?_of_backs hbody (member.nodeId tag)
      refine ⟨?_, ?_, ?_⟩
      · simp [steps, hnode, hrouter, hvalue, hstep, htake, hedges, Contribution.deferred]
      · simp [Contribution.rules, keyRule?, keyTag?, hrole]
      · simp [Contribution.configs, config?, hrole]
  | @router tag value choose hrole htag hvalue hchoose =>
      have hrouter : member.routerTag? = some tag := routerTag?_eq_some_iff.mpr ⟨hrole, htag⟩
      have hnode : member.nodeTag? = none := by simp [nodeTag?, hrole]
      refine ⟨?_, ?_, ?_⟩
      · simp only [steps, hnode, hrouter, hvalue, routerStep?, hchoose, Option.bind_some,
          Option.map_some, Option.toList_none, Option.toList_some, List.flatMap_nil,
          List.flatMap_singleton, List.nil_append]
        rfl
      · simp [Contribution.rules, keyRule?, keyTag?, hrole]
      · simp [Contribution.configs, config?, hrole]
  | @config config hrole hconfig =>
      refine told_without_steps rfl (by simp [nodeTag?, hrole]) (by simp [routerTag?, hrole])
        ?_ ?_
      · simp [Contribution.rules, keyRule?, keyTag?, hrole]
      · rcases hconfig with hheld | hsupplied
        · simp [Contribution.configs, config?, hrole, hheld]
        · simp [Contribution.configs, config?, hrole, hsupplied]
  | nothing hrole =>
      refine told_without_steps rfl (by simp [nodeTag?, hrole]) (by simp [routerTag?, hrole])
        ?_ ?_
      · simp [Contribution.rules, keyRule?, keyTag?, hrole]
      · simp [Contribution.configs, config?, hrole]

end Member

/-- Operations that are steps are carried out as the steps are taken. -/
theorem Plan.performAll_eq_takeAll {operations : List Operation} {steps : List Step}
    (h : operations.map Operation.perform = steps.map Step.take) (draft : Draft) :
    performAll operations draft = Step.takeAll steps draft := by
  have hperform : performAll operations draft =
      (operations.map Operation.perform).foldlM (fun draft change => change draft) draft := by
    rw [List.foldlM_map]
    rfl
  have htake : Step.takeAll steps draft =
      (steps.map Step.take).foldlM (fun draft change => change draft) draft := by
    rw [List.foldlM_map]
    rfl
  rw [hperform, htake, h]

/-- **A plan that gathers what the members declare is built as the direct build
goes.** -/
theorem Plan.build_eq_buildDirectly {plan : Plan} {composer : Composer} {supplier : Supplier}
    {graphId : String} {found : List Contribution}
    (hfound : composer.members.mapM (Member.declares supplier) = .ok found)
    (hgathers : plan.Gathers graphId found) :
    plan.build composer.hooks = composer.buildDirectly supplier graphId := by
  have htold : List.Forall₂ (fun member found => found.Told supplier member)
      composer.members found :=
    (Traversal.mapM_eq_ok_iff.mp hfound).imp fun _ _ => Member.told_of_declares
  have hopened : plan.openDraft = composer.opened graphId := by
    rw [openDraft, Composer.opened, Composer.keyTable, hgathers.graphId, hgathers.keys,
      Traversal.flatMap_eq_of_forall₂ htold fun _ _ h => h.rules,
      List.filterMap_eq_flatMap_toList]
  have hoptions : plan.options = composer.config supplier := by
    rw [hgathers.options, Composer.config,
      Traversal.flatMap_eq_of_forall₂ htold fun _ _ h => h.configs]
    simp [List.headD_eq_head?_getD, List.head?_flatMap]
  have hoperations : plan.operations.map Operation.perform =
      (composer.members.flatMap (Member.steps supplier)).map Step.take := by
    rw [hgathers.operations, List.map_flatMap, List.map_flatMap]
    exact Traversal.flatMap_eq_of_forall₂ htold fun _ _ h => h.steps
  have hperform := performAll_eq_takeAll hoperations
  unfold build finished filled keyed Composer.buildDirectly
  rw [hopened, hoptions]
  simp only [bind_assoc, hperform, Step.takeAll_flatMap]
  rfl

/-! ## Compiling and building directly -/

namespace Compiler

variable {compiler : Compiler} {composer : Composer} {marker : Marker}

/-- The graph of scanned members, with some way of building it from the plan. -/
def defineBy (compiler : Compiler) (build : Plan → Except Refusal Graph) (graphId : String)
    (members : List Member) : Except DefinitionError Graph :=
  match compiler.scanMembers graphId members with
  | (.error error, _) => .error error
  | (.ok (), plan) => (build plan).mapError plan.error

/-- A compiler builds as the plan and the hooks say. -/
theorem define_eq_defineBy (compiler : Compiler) (graphId : String) (composer : Composer) :
    compiler.define graphId composer =
      compiler.defineBy (fun plan => plan.build composer.hooks) graphId composer.members := rfl

/-- **The first member that fails to scan decides**, and building does not begin. -/
theorem defineBy_eq_of_failsFirst {graphId : String} {members : List Member}
    {error : DefinitionError} (h : compiler.FailsFirst graphId members error)
    (build : Plan → Except Refusal Graph) :
    compiler.defineBy build graphId members = .error error := by
  have hscan := scanMembers_eq_error_iff.mpr h
  unfold defineBy
  cases hanswer : compiler.scanMembers graphId members with
  | mk answer plan =>
      rw [hanswer] at hscan
      cases hscan
      rfl

/-- Without extensions a scan that does not fail walks through all members. -/
theorem exists_takeAll_of_allScan {graphId : String} {members : List Member}
    (hplain : compiler.extensions = []) (h : compiler.AllScan graphId members) :
    ∃ plan, (compiler.emptyPlan graphId).takeAll members = .ok plan := by
  rcases scan_nil_eq members (compiler.emptyPlan graphId) with
    ⟨refusal, after, -, hscan⟩ | ⟨after, hwalk, -, -⟩
  · unfold AllScan scanMembers at h
    rw [hplain, hscan] at h
    cases h
  · exact ⟨after.quiet, hwalk⟩

/-- **A compiler whose members all scan builds directly.** -/
theorem define_eq_buildDirectly {graphId : String} (hplain : compiler.extensions = [])
    (h : compiler.AllScan graphId composer.members) :
    compiler.define graphId composer =
      (composer.buildDirectly compiler.supplier graphId).mapError fun refusal =>
        { refusal with graphId } := by
  obtain ⟨plan, htake⟩ := exists_takeAll_of_allScan hplain h
  obtain ⟨found, hfound, -, -, hgathers⟩ := gathers_of_takeAll htake
  rw [define_eq_of_plain hplain, htake, ← Plan.build_eq_buildDirectly hfound hgathers]
  rfl

/-- **Putting off cannot be told**, but for what fails to scan, which comes first.
Take a compiler without extensions and a marked composer, with any hooks.

* All members scan, or one is the first that fails.
* If one fails, its error is the compiler's, whatever building would have done.
* If all scan, the compiler gives what the direct build gives.
* The direct build fails with the first step that is refused, or because the
  draft cannot be compiled; what would come next makes no difference.
* Every error names the graph by the marker's id, or else by the type name, and
  so does the graph itself, if no hook changes the id. -/
theorem deferring_is_unobservable (hplain : compiler.extensions = [])
    (hmarker : composer.marker = some marker) :
    (compiler.AllScan (composer.graphId marker) composer.members ∨
        ∃ error, compiler.FailsFirst (composer.graphId marker) composer.members error) ∧
      (∀ error, compiler.FailsFirst (composer.graphId marker) composer.members error →
        compiler.compile composer = .error (.definition error) ∧
          ∀ build, compiler.defineBy build (composer.graphId marker) composer.members =
            .error error) ∧
      (compiler.AllScan (composer.graphId marker) composer.members →
        compiler.compile composer =
          (composer.buildDirectly compiler.supplier (composer.graphId marker)).mapError
            fun refusal => .definition { refusal with graphId := composer.graphId marker }) ∧
      (∀ refusal,
        composer.buildDirectly compiler.supplier (composer.graphId marker) = .error refusal ↔
          composer.Refused compiler.supplier (composer.graphId marker) refusal) ∧
      (∀ error, compiler.compile composer = .error error →
        ∃ refusal : Refusal,
          error = .definition { refusal with graphId := composer.graphId marker }) ∧
      (composer.hooks.KeepId → ∀ graph, compiler.compile composer = .ok graph →
        graph.id = composer.graphId marker) := by
  have hcompile : compiler.compile composer =
      (compiler.define (composer.graphId marker) composer).mapError .definition := by
    unfold compile
    rw [hmarker]
  have hdirect : compiler.AllScan (composer.graphId marker) composer.members →
      compiler.compile composer =
        (composer.buildDirectly compiler.supplier (composer.graphId marker)).mapError
          fun refusal => .definition { refusal with graphId := composer.graphId marker } := by
    intro hscan
    rw [hcompile, define_eq_buildDirectly hplain hscan]
    cases composer.buildDirectly compiler.supplier (composer.graphId marker) <;> rfl
  have hfails : ∀ error,
      compiler.FailsFirst (composer.graphId marker) composer.members error →
        compiler.compile composer = .error (.definition error) := by
    intro error hfirst
    rw [hcompile, define_eq_defineBy, defineBy_eq_of_failsFirst hfirst]
    rfl
  refine ⟨allScan_or_failsFirst _ _ _, ?_, hdirect, fun refusal =>
    Composer.buildDirectly_eq_error_iff, ?_, ?_⟩
  · intro error hfirst
    exact ⟨hfails error hfirst, defineBy_eq_of_failsFirst hfirst⟩
  · intro error herror
    rw [hcompile, define_eq_of_plain hplain] at herror
    obtain ⟨definition, hdefinition, rfl⟩ := Traversal.mapError_eq_error_iff.mp herror
    obtain ⟨refusal, -, rfl⟩ := Traversal.mapError_eq_error_iff.mp hdefinition
    exact ⟨refusal, rfl⟩
  · intro hkeep graph hgraph
    rcases allScan_or_failsFirst compiler (composer.graphId marker) composer.members with
      hscan | ⟨error, hfirst⟩
    · rw [hdirect hscan] at hgraph
      exact Composer.id_of_buildDirectly hkeep (Traversal.mapError_eq_ok_iff.mp hgraph)
    · rw [hfails error hfirst] at hgraph
      cases hgraph

end Compiler

/-- Two nodes of one id, which can be scanned but not built. -/
def Composer.twins : Composer where
  typeName := "Twins"
  marker := some { id := some " " }
  members :=
    [{ Member.field "first" (.nodeAction fun _ => .ok .empty) with
       tags := [.node { id := some "twin", isStart := true }] },
     { Member.field "second" (.nodeAction fun _ => .ok .empty) with
       tags := [.node { id := some "twin", next := [endId] }] }]

/-- A key that cannot be scanned. -/
def Member.note : Member :=
  { Member.constant "note" (.text "note") with tags := [.key {}], isMutable := true }

/-- The twins are refused as the direct build refuses them, unless the note fails
to scan after them: then nobody hears of the twins, whatever the hooks do. -/
theorem Compiler.duplicate_node_is_refused_after_scan :
    ({} : Compiler).extensions = [] ∧ Composer.twins.marker = some { id := some " " } ∧
      ({} : Compiler).compile Composer.twins =
        .error (.definition ⟨⟨"add node 'twin'", .engine (.duplicateNode "twin")⟩, "Twins"⟩) ∧
      ∀ hooks, ({} : Compiler).compile
          { Composer.twins with members := Composer.twins.members ++ [.note], hooks } =
        .error (.definition
          ⟨⟨"register key from member 'note'", .keyNotImmutable "note"⟩, "Twins"⟩) := by
  have hplain : ({} : Compiler).extensions = [] := rfl
  have hmarker : Composer.twins.marker = some { id := some " " } := rfl
  refine ⟨hplain, hmarker, ?_, ?_⟩
  · obtain ⟨-, -, hdirect, -, -, -⟩ := deferring_is_unobservable hplain hmarker
    exact hdirect rfl
  · intro hooks
    have hmarker' : ({ Composer.twins with
        members := Composer.twins.members ++ [.note], hooks } : Composer).marker =
        some { id := some " " } := rfl
    obtain ⟨-, hfails, -, -, -, -⟩ := deferring_is_unobservable hplain hmarker'
    have hfirst : ({} : Compiler).FailsFirst "Twins" (Composer.twins.members ++ [.note])
        ⟨⟨"register key from member 'note'", .keyNotImmutable "note"⟩, "Twins"⟩ :=
      ⟨Composer.twins.members, .note, [], rfl, rfl, rfl⟩
    exact (hfails _ hfirst).1

end FlowGraph
