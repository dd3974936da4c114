import FlowGraph.Plan

/-!
# Scanning members

What a member declares is read off its tags, its value and, where it has none,
the value that the supplier gives it; nothing that other members declare comes
into it.  Only then this contribution is added to the plan, which may refuse a
key or a compile config that is there already.

A handler is offered a member and a plan.  It intercepts the member or passes
it on; extensions are asked first, and a member that they all pass goes to the
built-in handler of its role.

* `Role.reading`: what a member declares in a role.
* `Handler.builtin`: **reading, then adding**, and nothing on failure.
* `scan`: all members in order, up to the first that fails.
-/

namespace FlowGraph

/-- What one member adds to a plan. -/
inductive Contribution where
  | key (key : String) (rule : WriteRule)
  | operations (operations : List Operation)
  | config (config : CompileConfig)

/-- The way from a member to its contribution: settled by the member alone, or
waiting for a value that may be known by the name of a candidate. -/
inductive Reading where
  | settled (result : Except Refusal Contribution)
  | awaiting (candidate : Option String)
      (read : Option Component → Except Refusal Contribution)

/-- The destinations of labels, from labels and destinations by turns; of two
destinations of a label the later counts. -/
def routesOf (member : String) (mappings : List String) : Except Cause (Table String) :=
  if mappings.length % 2 = 0 then .ok (.ofList (pairs mappings))
  else .error (.mappingsNotPairs member mappings.length)
where
  /-- Neighbours put together, two by two. -/
  pairs : List String → List (String × String)
    | label :: target :: rest => (label, target) :: pairs rest
    | _ => []

namespace Member

/-- The key that a member declares. -/
def readKey (member : Member) (tag : KeySpec) : Except Refusal Contribution :=
  let refuse cause := .error ⟨s!"register key from member '{member.name}'", cause⟩
  if member.isMutable then refuse (.keyNotImmutable member.name)
  else if !member.isGlobal then refuse (.keyNotGlobal member.name)
  else
    match Text.given tag.id, member.value with
    | some id, _ => .ok (.key id tag.rule)
    | none, some (.text value) => .ok (.key value tag.rule)
    | none, none =>
      if member.declared = .text then refuse (.missingValue member.name)
      else refuse (.keyNotText member.name)
    | none, some _ => refuse (.keyNotText member.name)

/-- The id of the node that a member declares. -/
def nodeId (member : Member) (tag : NodeSpec) : String := (Text.given tag.id).getD member.name

/-- The edges that a node tag asks for: from the entry, then to each next node. -/
def nodeEdges (id : String) (tag : NodeSpec) : List Operation :=
  (if tag.isStart then [⟨s!"add edge from START to '{id}'", .call (.edge startId id)⟩] else [])
    ++ (tag.next.filter fun next => !Text.isBlank next).map fun next =>
      ⟨s!"add edge from '{id}' to '{next}'", .call (.edge id next)⟩

/-- The node that a member declares, from its value. -/
def readNode (member : Member) (tag : NodeSpec) (value : Option Component) :
    Except Refusal Contribution :=
  let id := member.nodeId tag
  let refuse cause := .error ⟨s!"add node '{id}'", cause⟩
  match value with
  | none => refuse (.missingValue member.name)
  | some (.subgraph graph) =>
    .ok (.operations (⟨s!"add sub-graph node '{id}'", .call (.node id (.subgraph graph))⟩
      :: nodeEdges id tag))
  | some value =>
    match value.nodeAction? with
    | none =>
      refuse (.unsupportedShape member.name ⟨value.kind, Component.nodeValueShapes⟩)
    | some run =>
      .ok (.operations (⟨s!"add node '{id}'", .call (.node id (.action run))⟩
        :: nodeEdges id tag))

/-- The router that a member declares, from its routes and its value. -/
def readRouter (member : Member) (source : String) (routes : Table String)
    (value : Option Component) : Except Refusal Contribution :=
  let operation := s!"add conditional edges from '{source}'"
  match value with
  | none => .error ⟨operation, .missingValue member.name⟩
  | some value =>
    match value.liftRoute with
    | .error shape => .error ⟨operation, .unsupportedShape member.name shape⟩
    | .ok choose =>
      .ok (.operations [⟨operation, .call (.router source ⟨choose, routes⟩)⟩])

/-- The way to the router of a member: source and mappings are looked at before
a value is asked for. -/
def edgeReading (member : Member) (tag : EdgeSpec) : Reading :=
  if Text.isBlank tag.source then
    .settled (.error
      ⟨s!"add conditional edges from member '{member.name}'", .blankSource member.name⟩)
  else
    match routesOf member.name tag.mappings with
    | .error cause => .settled (.error ⟨s!"add conditional edges from '{tag.source}'", cause⟩)
    | .ok routes => .awaiting none (member.readRouter tag.source routes)

/-- What a member was being read for when its compile config is refused. -/
def configOperation (member : Member) : String :=
  s!"read compile config from member '{member.name}'"

/-- The compile config that a member declares, from its value. -/
def readConfig (member : Member) (value : Option Component) : Except Refusal Contribution :=
  let refuse cause := .error ⟨member.configOperation, cause⟩
  match value with
  | none => refuse (.missingValue member.name)
  | some (.compileConfig config) => .ok (.config config)
  | some (.configSupplier (some config)) => .ok (.config config)
  | some (.configSupplier none) => refuse (.invalidConfigSupplier member.name)
  | some value => refuse (.invalidConfigType member.name value.kind.display)

end Member

/-- What a member declares in a role; nothing without a tag of the role, except
that every member can be read for a compile config. -/
def Role.reading (role : Role) (member : Member) : Option Reading :=
  match role with
  | .key => member.key?.map fun tag => .settled (member.readKey tag)
  | .node =>
    member.node?.map fun tag =>
      .awaiting (some (member.nodeId tag)) (member.readNode tag)
  | .conditionalEdge => member.edge?.map member.edgeReading
  | .compileConfig => some (.awaiting none member.readConfig)
  | .unrecognized => none

namespace Plan

/-- Follow a reading to the contribution. -/
def follow (plan : Plan) (member : Member) : Reading → Except Refusal Contribution
  | .settled result => result
  | .awaiting candidate read => read (plan.valueOf member candidate)

/-- Note the question that following a reading puts to the supplier. -/
def noteReading (plan : Plan) (member : Member) : Reading → Plan
  | .settled _ => plan
  | .awaiting candidate _ => plan.noteQuestion member candidate

/-- Add the contribution of a member to a plan. -/
def add (plan : Plan) (member : Member) : Contribution → Except Refusal Plan
  | .key key rule =>
    (plan.declareKey key rule member.name).mapError fun cause =>
      ⟨s!"register key '{key}'", cause⟩
  | .operations operations => .ok (plan.deferAll operations)
  | .config config =>
    (plan.declareConfig member.name config).mapError fun cause =>
      ⟨member.configOperation, cause⟩

end Plan

/-! ## Handlers -/

/-- Whether a handler keeps a member to itself. -/
inductive Verdict where
  | intercepted
  | passed
deriving DecidableEq, Repr

/-- A handler's answer, with the plan as the handler leaves it. -/
abbrev Handling := Except DefinitionError Verdict × Plan

/-- Is offered members, one at a time, with the plan so far. -/
abbrev Handler := Member → Plan → Handling

namespace Handler

/-- The built-in handler of a role: it reads the member and adds what it
declares; where that fails, the plan gains nothing.  `Handler.ofSteps` is the
same handler, one step after the other. -/
def builtin (role : Role) : Handler := fun member plan =>
  match role.reading member with
  | none => (.ok .passed, plan)
  | some reading =>
    let plan := plan.noteReading member reading
    match (plan.follow member reading).bind (plan.add member) with
    | .error refusal => (.error (plan.error refusal), plan)
    | .ok next => (.ok .intercepted, next)

/-- Offer a member to handlers in turn, until one intercepts it or fails. -/
def offer : List Handler → Handler
  | [], _, plan => (.ok .passed, plan)
  | handler :: rest, member, plan =>
    match handler member plan with
    | (.ok .passed, plan) => offer rest member plan
    | handling => handling

/-- Offer a member to the extensions, and then to the handler of its role. -/
def ofExtensions (extensions : List Handler) : Handler := fun member plan =>
  offer (extensions ++ [builtin member.role]) member plan

end Handler

/-- Scan members in order, up to the first that fails; the plan is handed back
as it was left. -/
def scan (extensions : List Handler) :
    List Member → Plan → Except DefinitionError Unit × Plan
  | [], plan => (.ok (), plan)
  | member :: rest, plan =>
    match Handler.ofExtensions extensions member plan with
    | (.ok _, plan) => scan extensions rest plan
    | (.error error, plan) => (.error error, plan)

end FlowGraph
