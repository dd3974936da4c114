import FlowGraph.Script

/-!
# Scripts as they are written

The JSON form of scripts: an instruction is an object with one field that says
what it does, fields for the details, and perhaps a guard under `if`.

* `Script.instructions?`: the instructions of a script.
* `Script.rules?`: the rules that choose a label.
* `Script.fault?`: a fault by its short name.
-/

namespace FlowGraph.Script

/-- The text of a field, or what stands for it if the field is not a text. -/
def textOr (json : Json) (key absent : String) : String :=
  ((json.field? key).bind Json.text?).getD absent

/-- The items of a field; none if the field is not an array. -/
def itemsOf (json : Json) (key : String) : List Json :=
  match json.field? key with
  | some (.arr items) => items
  | _ => []

/-- The fault that a failing instruction names, with its message and node. -/
def fault? (json : Json) : Option Fault := do
  let name ← (← json.field? "fail").text?
  let message := textOr json "message" ""
  let node := textOr json "node" ""
  return match name with
    | "failed" => .actionFailed message
    | "node_failed" => .nodeFailed node message
    | "unknown_route" => .unknownRoute node message
    | "step_limit" => .stepLimitExceeded 7
    | "duplicate_node" => .duplicateNode message
    | "missing_entry" => .missingEntryPoint
    | "serialization" => .serialization "expected ident at line 1 column 2"
    | _ => .invalid message

/-- What a guard asks. -/
def test? (json : Json) : Option Test :=
  match json.field? "eq", json.field? "lt", json.field? "contains", json.field? "exists" with
  | some value, _, _, _ => some (.equals value)
  | _, some (.num (.integer bound)), _, _ => some (.below bound)
  | _, _, some (.str part), _ => some (.mentions part)
  | _, _, _, some (.bool expected) => some (.present expected)
  | _, _, _, _ => none

/-- The guard of an instruction or a rule: none if it has no guard. -/
def guard? (json : Json) : Option (Option Guard) :=
  match json.field? "if" with
  | none | some .null => some none
  | some guard => do return some ⟨← (← guard.field? "key").text?, ← test? guard⟩

/-- How often a text is repeated, twice if nothing is said. -/
def times? (json : Json) : Option Nat :=
  match json.field? "n" with
  | none => some 2
  | some value => (value.integerIn? 0 0xFFFFFFFFFFFFFFFF).map Int.toNat

/-- What an instruction does. -/
def deed? (json : Json) : Option Deed :=
  let keyed (name : String) (source : String → Source) : Option Deed := do
    let key ← (← json.field? name).text?
    return .write (textOr json "to" key) (source key)
  let targeted (name : String) (source : Source) : Option Deed := do
    return .write (← (← json.field? name).text?) source
  (fault? json).map .fail
    <|> targeted "set" (.constant ((json.field? "value").getD .null))
    <|> keyed "copy" .copy
    <|> (times? json).bind (fun times => keyed "repeat" fun key => .repeated key times)
    <|> keyed "inc" .successor
    <|> keyed "has" .presence
    <|> targeted "dump" .everything
    <|> targeted "thread" .thread
    <|> keyed "meta" .metadata
    <|> targeted "node_id" .nodeId

/-- The instructions under `do`. -/
def instructions? (json : Json) : Option (List Instruction) :=
  (itemsOf json "do").mapM fun entry => do
    return { guard := ← guard? entry, deed := ← deed? entry }

/-- The label that a rule gives. -/
def label? (json : Json) : Option Label :=
  match json.field? "label", json.field? "key" with
  | some (.str label), _ => some (.constant label)
  | _, some (.str key) => some (.textOf key)
  | _, _ => none

/-- The rules under `goto`. -/
def rules? (json : Json) : Option (List Rule) :=
  (itemsOf json "goto").mapM fun entry => do
    return { guard := ← guard? entry, label := ← label? entry }

end FlowGraph.Script
