import FlowGraph.Scan

/-!
# The built-in handlers, step by step

`Handler.builtin` reads a member and then adds what it declares.  Here the four
built-in handlers are written as they work: each makes its checks one after the
other, asks for a value where it needs one, and registers one thing at a time.
A step is given the plan that the steps before it have left, and what they have
registered stays in the plan when a later step fails.

* `Planning`: steps that work on a plan.
* `Planning.resolve`, `Planning.registerKey`, `Planning.defer`,
  `Planning.registerConfig`: what a handler may do with a plan.
* `Handler.ofSteps`: **the handler of a role, step by step.**
-/

namespace FlowGraph

/-- Steps that work on a plan and may fail; the plan is handed back as it was left. -/
abbrev Planning : Type → Type := ExceptT DefinitionError (StateM Plan)

namespace Planning

/-- Fail at an operation, on behalf of the graph of the plan. -/
def refuse {α : Type} (operation : String) (cause : Cause) : Planning α := do
  throw ((← get).error ⟨operation, cause⟩)

/-- The value of a member; the supplier is asked for one if the member has none. -/
def resolve (member : Member) (candidate : Option String) : Planning (Option Component) := do
  modify fun plan => plan.noteQuestion member candidate
  return (← get).valueOf member candidate

/-- Register a key, unless it is there already. -/
def registerKey (key : String) (rule : WriteRule) (member : String) : Planning Unit := do
  if Table.contains (← get).keys key then
    refuse s!"register key '{key}'" (.duplicateKey key member)
  else
    modify fun plan => { plan with keys := Table.insert plan.keys key rule }

/-- Put off one call. -/
def defer (description : String) (call : Draft.Call) : Planning Unit :=
  modify fun plan => plan.defer ⟨description, .call call⟩

/-- Register a compile config, unless there is one already. -/
def registerConfig (operation member : String) (config : CompileConfig) : Planning Unit := do
  match (← get).config with
  | some (first, _) => refuse operation (.multipleCompileConfigs member first)
  | none => modify fun plan => { plan with config := some (member, config) }

/-! ## Keys -/

/-- The key that a member stands for: it must not change and must belong to the composer
as a whole, and then the id of the tag comes before the member's own text. -/
def chooseKey (member : Member) (tag : KeySpec) : Planning String :=
  let operation := s!"register key from member '{member.name}'"
  if member.isMutable then
    refuse operation (.keyNotImmutable member.name)
  else if !member.isGlobal then
    refuse operation (.keyNotGlobal member.name)
  else
    match Text.given tag.id, member.value with
    | some id, _ => return id
    | none, some (.text value) => return value
    | none, none =>
      if member.declared = .text then refuse operation (.missingValue member.name)
      else refuse operation (.keyNotText member.name)
    | none, some _ => refuse operation (.keyNotText member.name)

/-- Work in a key member. -/
def workKey (member : Member) : Planning Verdict := do
  match member.key? with
  | none => return .passed
  | some tag =>
    let key ← chooseKey member tag
    registerKey key tag.rule member.name
    return .intercepted

/-! ## Nodes -/

/-- What a node does, by the value that was found for it, and how the operation that
adds the node is described. -/
def chooseBody (member : Member) (id : String) (value : Option Component) :
    Planning (String × Body Graph) :=
  let operation := s!"add node '{id}'"
  match value with
  | none => refuse operation (.missingValue member.name)
  | some (.subgraph graph) => return (s!"add sub-graph node '{id}'", .subgraph graph)
  | some value =>
    match value.nodeAction? with
    | none =>
      refuse operation (.unsupportedShape member.name ⟨value.kind, Component.nodeValueShapes⟩)
    | some run => return (operation, .action run)

/-- Put off what belongs to a node: the node, its edge from the entry if it is a start
node, and then an edge to each next node that is not blank. -/
def deferNode (id : String) (tag : NodeSpec) (found : String × Body Graph) : Planning Unit := do
  defer found.1 (.node id found.2)
  if tag.isStart then
    defer s!"add edge from START to '{id}'" (.edge startId id)
  (tag.next.filter fun next => !Text.isBlank next).forM fun next =>
    defer s!"add edge from '{id}' to '{next}'" (.edge id next)

/-- Work in a node member. -/
def workNode (member : Member) : Planning Verdict := do
  match member.node? with
  | none => return .passed
  | some tag =>
    let id := member.nodeId tag
    let value ← resolve member (some id)
    let found ← chooseBody member id value
    deferNode id tag found
    return .intercepted

/-! ## Routers -/

/-- The routes of a router: the source is looked at first, then the mappings. -/
def chooseRoutes (member : Member) (tag : EdgeSpec) : Planning (Table String) :=
  if Text.isBlank tag.source then
    refuse s!"add conditional edges from member '{member.name}'" (.blankSource member.name)
  else
    match routesOf member.name tag.mappings with
    | .error cause => refuse s!"add conditional edges from '{tag.source}'" cause
    | .ok routes => return routes

/-- How a router chooses, by the value that was found for it. -/
def chooseChoice (member : Member) (tag : EdgeSpec) (value : Option Component) :
    Planning Choice :=
  let operation := s!"add conditional edges from '{tag.source}'"
  match value with
  | none => refuse operation (.missingValue member.name)
  | some value =>
    match value.liftRoute with
    | .error shape => refuse operation (.unsupportedShape member.name shape)
    | .ok choose => return choose

/-- Work in a router member. -/
def workRouter (member : Member) : Planning Verdict := do
  match member.edge? with
  | none => return .passed
  | some tag =>
    let routes ← chooseRoutes member tag
    let value ← resolve member none
    let choose ← chooseChoice member tag value
    defer s!"add conditional edges from '{tag.source}'" (.router tag.source ⟨choose, routes⟩)
    return .intercepted

/-! ## Compile configs -/

/-- The compile config that was found for a member, or that it supplies. -/
def chooseConfig (member : Member) (value : Option Component) : Planning CompileConfig :=
  match value with
  | none => refuse member.configOperation (.missingValue member.name)
  | some (.compileConfig config) => return config
  | some (.configSupplier (some config)) => return config
  | some (.configSupplier none) =>
    refuse member.configOperation (.invalidConfigSupplier member.name)
  | some value =>
    refuse member.configOperation (.invalidConfigType member.name value.kind.display)

/-- Work in a compile config; every member is taken for one. -/
def workConfig (member : Member) : Planning Verdict := do
  let value ← resolve member none
  let config ← chooseConfig member value
  registerConfig member.configOperation member.name config
  return .intercepted

/-- Work in a member in a role. -/
def work (role : Role) (member : Member) : Planning Verdict :=
  match role with
  | .key => workKey member
  | .node => workNode member
  | .conditionalEdge => workRouter member
  | .compileConfig => workConfig member
  | .unrecognized => return .passed

end Planning

/-- The handler of a role, step by step. -/
def Handler.ofSteps (role : Role) : Handler := fun member plan =>
  (Planning.work role member).run plan

end FlowGraph
