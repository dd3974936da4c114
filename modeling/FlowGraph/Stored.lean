import FlowGraph.Document.Reader
import FlowGraph.Run
import FlowGraph.Settings

/-!
# Stored forms

The values that outlive a run have a form in documents.  Encoding writes every
field; decoding passes over unknown fields, takes defaults for the fields that
may be left out, and reads a record by the places of its fields as well.

* `Form.parse?`: a value from a text.
* `Form.ofJson?`: a value from a JSON value.
* `integer`, `bool`, `text`, `texts`: the forms of plain values.
* `settings`, `compileConfig`, `runConfig`, `decision`, `writeRule`, `store`:
  **the six stored forms.**
-/

namespace FlowGraph.Stored

/-- How values of a type stand in documents. -/
structure Form (α : Type) where
  encode : α → Json
  decode : Document → Option α

/-- A value from the text of a document. -/
def Form.parse? {α : Type} (form : Form α) (text : String) : Option α :=
  (Document.parse? text).bind form.decode

/-- A value from a JSON value. -/
def Form.ofJson? {α : Type} (form : Form α) (json : Json) : Option α :=
  form.decode json.toDocument

/-- Integers from `low` up to `high`. -/
def integer (low high : Int) : Form Int where
  encode value := .num (.integer value)
  decode := Document.integerIn? low high

/-- Truth values. -/
def bool : Form Bool where
  encode := .bool
  decode := Document.bool?

/-- Texts. -/
def text : Form String where
  encode := .str
  decode := Document.text?

/-- Lists of texts. -/
def texts : Form (List String) where
  encode values := .arr (values.map .str)
  decode := Document.texts?

/-- A text, or null for none. -/
def encodeText : Option String → Json
  | none => .null
  | some value => .str value

/-- Settings: two switches, both on unless they are given. -/
def settings : Form Settings where
  encode value :=
    .object [("enabled", .bool value.enabled), ("autoCompile", .bool value.autoCompile)]
  decode document := do
    let record ← document.record? ["enabled", "autoCompile"]
    let enabled ← record.optional "enabled" Document.bool? true
    let autoCompile ← record.optional "autoCompile" Document.bool? true
    return { enabled, autoCompile }

/-- Compile configs: a number of steps and a list of node ids. -/
def compileConfig : Form CompileConfig where
  encode value :=
    .object [("maxSteps", .num (.integer value.maxSteps)),
      ("interruptBefore", .arr (value.interruptBefore.map .str))]
  decode document := do
    let record ← document.record? ["maxSteps", "interruptBefore"]
    let maxSteps ← record.optional "maxSteps" Document.natural? 1000
    let interruptBefore ← record.optional "interruptBefore" Document.texts? []
    return { maxSteps, interruptBefore }

/-- Run configs: a thread and free entries.  By place the thread must be given,
by name it may be left out. -/
def runConfig : Form RunConfig where
  encode value :=
    .object [("threadId", encodeText value.threadId), ("metadata", .ofTable value.metadata)]
  decode document := do
    let record ← document.record? ["threadId", "metadata"]
    let threadId ←
      if record.positional then record.required "threadId" Document.optionalText?
      else record.optional "threadId" Document.optionalText? none
    let metadata ← record.optional "metadata" Document.table? .empty
    return { threadId, metadata }

/-- Decisions: a label that must be given, and an update. -/
def decision : Form Decision where
  encode value := .object [("goto", .str value.goto), ("update", .ofTable value.update)]
  decode document := do
    let record ← document.record? ["goto", "update"]
    let goto ← record.required "goto" Document.text?
    let update ← record.optional "update" Document.table? .empty
    return { goto, update }

/-- Write rules: a name, or an object with the name as its only key and null. -/
def writeRule : Form WriteRule where
  encode value := .str value.name
  decode
    | .str (some name) => WriteRule.ofName? name
    | .obj [(some name, .null)] => WriteRule.ofName? name
    | _ => none

/-- Stores: their data, which must be given. -/
def store : Form Store where
  encode value := .object [("data", .ofTable value)]
  decode document := do
    let record ← document.record? ["data"]
    record.required "data" Document.table?

end FlowGraph.Stored
