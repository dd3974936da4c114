import FlowGraph.Graph

/-!
# Components

A component is a value that a member of a composer may hold: an action in one
of eight shapes, a text, a graph, a compile config or a way to get one, or a
value of some other type.  Graphs run actions in their full form only; the
shapes that see less, or answer less, are lifted into it.

* `Component.kind`: the kind that a value is looked up by.
* `Component.nodeAction?`, `Component.choice?`: the full form of an action.
* `nodeAction?_full`, `choice?_full`: lifting an action in full form keeps it.
-/

namespace FlowGraph

/-- The kinds of component. -/
inductive Kind where
  | nodeAction
  | asyncNodeAction
  | nodeActionWithConfig
  | asyncNodeActionWithConfig
  | edgeAction
  | asyncEdgeAction
  | commandAction
  | asyncCommandAction
  | text
  | subgraph
  | compileConfig
  | configSupplier
  /-- Any other type, known by its name. -/
  | other (name : String)
deriving DecidableEq, Repr, Inhabited

/-- The name of a kind in messages. -/
def Kind.display : Kind → String
  | .nodeAction => "NodeAction"
  | .asyncNodeAction => "AsyncNodeAction"
  | .nodeActionWithConfig => "NodeActionWithConfig"
  | .asyncNodeActionWithConfig => "AsyncNodeActionWithConfig"
  | .edgeAction => "EdgeAction"
  | .asyncEdgeAction => "AsyncEdgeAction"
  | .commandAction => "CommandAction"
  | .asyncCommandAction => "AsyncCommandAction"
  | .text => "Text"
  | .subgraph => "CompiledGraph"
  | .compileConfig => "CompileConfig"
  | .configSupplier => "Supplier<CompileConfig>"
  | .other name => name

/-- The kinds that have a name of their own. -/
def Kind.named : List Kind :=
  [.nodeAction, .asyncNodeAction, .nodeActionWithConfig, .asyncNodeActionWithConfig,
   .edgeAction, .asyncEdgeAction, .commandAction, .asyncCommandAction, .text, .subgraph,
   .compileConfig, .configSupplier]

/-- The name that a kind is written by; that of another type is marked. -/
def Kind.name : Kind → String
  | .subgraph => "SubGraph"
  | .configSupplier => "ConfigSupplier"
  | .other name => "Other:" ++ name
  | kind => kind.display

/-- The kind that is written by a name. -/
def Kind.ofName? (name : String) : Option Kind :=
  match Kind.named.find? fun kind => kind.name == name with
  | some kind => some kind
  | none =>
    if "Other:".toList.isPrefixOf name.toList then
      some (.other (String.ofList (name.toList.drop "Other:".length)))
    else none

/-- A value that a member may hold.  The asynchronous shapes answer later, but
what they answer depends on the same things. -/
inductive Component where
  /-- A node action that sees the store only. -/
  | nodeAction (run : Store → Except Fault Update)
  | asyncNodeAction (run : Store → Except Fault Update)
  | nodeActionWithConfig (run : Action)
  /-- A node action in its full form. -/
  | asyncNodeActionWithConfig (run : Action)
  /-- A router that sees the store only and answers with a label only. -/
  | edgeAction (choose : Store → Except Fault String)
  | asyncEdgeAction (choose : Store → Except Fault String)
  | commandAction (choose : Choice)
  /-- A router in its full form. -/
  | asyncCommandAction (choose : Choice)
  | text (value : String)
  | subgraph (graph : Graph)
  | compileConfig (config : CompileConfig)
  /-- A compile config to be asked for, which may not be there. -/
  | configSupplier (supply : Option CompileConfig)
  /-- A module: named components in order. -/
  | bundle (parts : List (String × Component))
  /-- A value of a type that nothing else is known about. -/
  | foreign (typeName : String)

namespace Component

/-- The kind of a component. -/
def kind : Component → Kind
  | .nodeAction _ => .nodeAction
  | .asyncNodeAction _ => .asyncNodeAction
  | .nodeActionWithConfig _ => .nodeActionWithConfig
  | .asyncNodeActionWithConfig _ => .asyncNodeActionWithConfig
  | .edgeAction _ => .edgeAction
  | .asyncEdgeAction _ => .asyncEdgeAction
  | .commandAction _ => .commandAction
  | .asyncCommandAction _ => .asyncCommandAction
  | .text _ => .text
  | .subgraph _ => .subgraph
  | .compileConfig _ => .compileConfig
  | .configSupplier _ => .configSupplier
  | .bundle _ => .other "Module"
  | .foreign typeName => .other typeName

/-- The kinds that can be lifted to a node action. -/
def nodeShapes : List Kind :=
  [.nodeAction, .asyncNodeAction, .nodeActionWithConfig, .asyncNodeActionWithConfig]

/-- The kinds that a node member may hold. -/
def nodeValueShapes : List Kind := .subgraph :: nodeShapes

/-- The kinds that can be lifted to a routing action. -/
def routeShapes : List Kind :=
  [.edgeAction, .asyncEdgeAction, .commandAction, .asyncCommandAction]

/-- The full form of a component that is a node action. -/
def nodeAction? : Component → Option Action
  | .nodeAction run | .asyncNodeAction run => some fun store _ => run store
  | .nodeActionWithConfig run | .asyncNodeActionWithConfig run => some run
  | _ => none

/-- The full form of a component that is a routing action. -/
def choice? : Component → Option Choice
  | .edgeAction choose | .asyncEdgeAction choose =>
    some fun store _ => (choose store).map fun label => { goto := label }
  | .commandAction choose | .asyncCommandAction choose => some choose
  | _ => none

/-- A shape that cannot be lifted where it stands. -/
structure ShapeMismatch where
  /-- The kind that was found. -/
  found : Kind
  /-- The kinds that would do. -/
  accepted : List Kind
deriving DecidableEq, Repr

/-- The wording of a shape mismatch. -/
def ShapeMismatch.message (shape : ShapeMismatch) : String :=
  let accepted := Text.bracketed (shape.accepted.map Kind.display)
  s!"value of type {shape.found.display} is not supported. Must be one of {accepted}"

/-- The full form of a node action, or what its kind should have been. -/
def liftNode (value : Component) : Except ShapeMismatch Action :=
  match value.nodeAction? with
  | some run => .ok run
  | none => .error ⟨value.kind, nodeShapes⟩

/-- The full form of a routing action, or what its kind should have been. -/
def liftRoute (value : Component) : Except ShapeMismatch Choice :=
  match value.choice? with
  | some choose => .ok choose
  | none => .error ⟨value.kind, routeShapes⟩

/-- Lifting a node action in full form keeps it. -/
@[simp] theorem nodeAction?_full (run : Action) :
    nodeAction? (.asyncNodeActionWithConfig run) = some run := rfl

/-- Lifting a routing action in full form keeps it. -/
@[simp] theorem choice?_full (choose : Choice) :
    choice? (.asyncCommandAction choose) = some choose := rfl

/-! ## Showing a component -/

/-- A compile config on one line. -/
def describeConfig (config : CompileConfig) : String :=
  let ids := Text.quotedList config.interruptBefore
  s!"CompileConfig \x7b max_steps: {config.maxSteps}, interrupt_before: {ids} \x7d"

/-- A component on one line: texts, graphs and configs with what they hold, all
else by the name of its kind. -/
def describe : Component → String
  | .text value =>
    let quoted := Text.quote value
    s!"Text({quoted})"
  | .subgraph graph =>
    let quoted := Text.quote graph.id
    s!"SubGraph({quoted})"
  | .compileConfig config =>
    let shown := describeConfig config
    s!"CompileConfig({shown})"
  | value => value.kind.display

end Component

end FlowGraph
