import FlowGraph.Composer
import FlowGraph.Refusal

/-!
# Plans

While the members of a composer are scanned, a plan collects what they declare:
keys at once, everything else as operations to be carried out on the draft
later, and at most one compile config.  A member without a value of its own is
given one by the plan's supplier, if the supplier has one.

* `Plan.declareKey`, `Plan.declareConfig`, `Plan.defer`: what a plan collects.
* `Plan.build`: the draft is opened with all keys, operations are carried out
  between the two hooks, and the draft is compiled.
-/

namespace FlowGraph

/-- Stands in for missing values: asked with a member, and for some members
with a candidate for the name of the value. -/
abbrev Supplier := Member → Option String → Option Component

/-- Has no values to give. -/
def Supplier.none : Supplier := fun _ _ => Option.none

/-- What an operation does to the draft. -/
inductive Effect where
  /-- One call. -/
  | call (call : Draft.Call)
  /-- Anything else, which may fail for causes of its own. -/
  | custom (act : Draft → Except Cause Draft)

/-- A change of the draft that is put off until all members are scanned. -/
structure Operation where
  description : String
  effect : Effect

namespace Operation

/-- Carry out an operation. -/
def perform (operation : Operation) (draft : Draft) : Except Refusal Draft :=
  match operation.effect with
  | .call call => (draft.apply call).mapError fun fault => ⟨operation.description, .engine fault⟩
  | .custom act => (act draft).mapError fun cause => ⟨operation.description, cause⟩

/-- An operation on one line. -/
def describe (operation : Operation) : String :=
  let quoted := Text.quote operation.description
  s!"Operation \x7b description: {quoted} \x7d"

end Operation

/-- What happened while a plan was made. -/
inductive Plan.Event where
  /-- The supplier was asked for a value. -/
  | asked (member : String) (candidate : Option String)
  /-- An observer saw a member, and what was collected before it. -/
  | seen (member : String) (role : Role) (keys operations : Nat) (configured : Bool)
deriving DecidableEq, Repr

/-- What the members of a composer declare. -/
structure Plan where
  graphId : String
  supplier : Supplier := .none
  keys : KeyTable := .empty
  /-- The operations, first one first. -/
  operations : List Operation := []
  /-- The compile config, with the member that declared it. -/
  config : Option (String × CompileConfig) := none
  /-- What happened so far, first thing first. -/
  events : List Plan.Event := []

namespace Plan

/-- Take the key of a member, unless it is taken already. -/
def declareKey (plan : Plan) (key : String) (rule : WriteRule) (member : String) :
    Except Cause Plan :=
  if Table.contains plan.keys key then .error (.duplicateKey key member)
  else .ok { plan with keys := Table.insert plan.keys key rule }

/-- Take the compile config of a member, unless there is one already. -/
def declareConfig (plan : Plan) (member : String) (config : CompileConfig) : Except Cause Plan :=
  match plan.config with
  | some (first, _) => .error (.multipleCompileConfigs member first)
  | none => .ok { plan with config := some (member, config) }

/-- Put off an operation until all members are scanned. -/
def defer (plan : Plan) (operation : Operation) : Plan :=
  { plan with operations := plan.operations ++ [operation] }

/-- Put off a list of operations. -/
def deferAll (plan : Plan) (operations : List Operation) : Plan :=
  { plan with operations := plan.operations ++ operations }

/-- Note that something happened. -/
def note (plan : Plan) (event : Event) : Plan := { plan with events := plan.events ++ [event] }

/-- The value of a member: its own, or what the supplier has for it. -/
def valueOf (plan : Plan) (member : Member) (candidate : Option String) : Option Component :=
  member.value <|> plan.supplier member candidate

/-- Note the question that a member without a value puts to the supplier. -/
def noteQuestion (plan : Plan) (member : Member) (candidate : Option String) : Plan :=
  if member.value.isSome then plan else plan.note (.asked member.name candidate)

/-- A refusal as an error in the definition of the plan's graph. -/
def error (plan : Plan) (refusal : Refusal) : DefinitionError :=
  { refusal with graphId := plan.graphId }

/-! ## Carrying out a plan -/

/-- The draft that a plan starts from, with all keys. -/
def openDraft (plan : Plan) : Draft := { id := plan.graphId, keys := plan.keys }

/-- Carry out operations one after the other, up to the first that fails. -/
def performAll (operations : List Operation) (draft : Draft) : Except Refusal Draft :=
  operations.foldlM (fun draft operation => operation.perform draft) draft

/-- Let a hook change the draft. -/
def runHook (operation : String) (hook : Draft → Except Fault Draft) (draft : Draft) :
    Except Refusal Draft :=
  (hook draft).mapError fun fault => ⟨operation, .engine fault⟩

/-- The draft after the first hook. -/
def keyed (plan : Plan) (hooks : Hooks) : Except Refusal Draft :=
  runHook "run after-key-registration hook" hooks.onKeys plan.openDraft

/-- The draft after all operations, before the last hook. -/
def filled (plan : Plan) (hooks : Hooks) : Except Refusal Draft := do
  performAll plan.operations (← plan.keyed hooks)

/-- The draft after the last hook. -/
def finished (plan : Plan) (hooks : Hooks) : Except Refusal Draft := do
  runHook "run before-compile hook" hooks.onComplete (← plan.filled hooks)

/-- The options of the graph: the declared ones or the default. -/
def options (plan : Plan) : CompileConfig := (plan.config.map Prod.snd).getD {}

/-- The graph of a plan. -/
def build (plan : Plan) (hooks : Hooks) : Except Refusal Graph := do
  let draft ← plan.finished hooks
  (draft.compile plan.options).mapError fun fault => ⟨"compile graph", .engine fault⟩

end Plan

end FlowGraph
