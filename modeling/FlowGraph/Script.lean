import FlowGraph.Component

/-!
# Actions given as data

A script is a list of instructions that builds the answer of an action.  All of
them read the store that the action was given, never the answer they build;
of two instructions that write one key the later counts.  Guards leave single
instructions out, and an instruction may fail the action at once.

* `Script.timesOver`: a text repeated, which is copies of it joined.
* `Script.run`: a script as a node action.
* `Script.choose`: rules and a script as a routing action.
-/

namespace FlowGraph.Script

/-- What is asked of the value of a key. -/
inductive Test where
  | equals (value : Json)
  /-- The value is a natural number below a bound; other values count as zero. -/
  | below (bound : Int)
  /-- The value is a text with a part; other values count as the empty text. -/
  | mentions (part : String)
  | present (expected : Bool)

/-- A test of one key. -/
structure Guard where
  key : String
  test : Test

/-- Whether a text has a part. -/
def hasPart (part : List Char) : List Char → Bool
  | [] => part.isEmpty
  | c :: rest => part.isPrefixOf (c :: rest) || hasPart part rest

/-- Whether a guard holds of a store. -/
def Guard.holds (guard : Guard) (store : Store) : Bool :=
  match guard.test with
  | .equals value => Table.get? store guard.key == some value
  | .below bound => ((store.natural? guard.key).getD 0 : Int) < bound
  | .mentions part => hasPart part.toList ((store.text? guard.key).getD "").toList
  | .present expected => Table.contains store guard.key == expected

/-- Whether there is no guard, or it holds. -/
def allows (guard : Option Guard) (store : Store) : Bool :=
  match guard with
  | none => true
  | some guard => guard.holds store

/-- Where an instruction finds the value that it writes. -/
inductive Source where
  | constant (value : Json)
  /-- The value of a key, or null. -/
  | copy (key : String)
  /-- The text of a key, several times over. -/
  | repeated (key : String) (times : Nat)
  /-- The number of a key and one more, within 64 bits. -/
  | successor (key : String)
  /-- Whether a key has a value. -/
  | presence (key : String)
  /-- The whole store. -/
  | everything
  | thread
  /-- An entry of the run's metadata, or null. -/
  | metadata (key : String)
  /-- The id of the node that runs, if the action is told. -/
  | nodeId

/-- What an instruction does. -/
inductive Deed where
  | write (target : String) (source : Source)
  | fail (fault : Fault)

/-- A deed, unless a guard leaves it out. -/
structure Instruction where
  guard : Option Guard := none
  deed : Deed

/-- Texts that are all empty join to the empty text. -/
theorem join_replicate_empty (times : Nat) : String.join (List.replicate times "") = "" := by
  unfold String.join
  induction times with
  | zero => rfl
  | succ times ih =>
      rw [List.replicate_succ, List.foldl_cons]
      exact ih

/-- A text several times over; an empty one stays empty, however often it comes. -/
def timesOver (text : String) (times : Nat) : String :=
  if text = "" then "" else String.join (List.replicate times text)

/-- Repeating is joining copies, of the empty text as of any other. -/
theorem timesOver_eq (text : String) (times : Nat) :
    timesOver text times = String.join (List.replicate times text) := by
  unfold timesOver
  split
  · next hempty => rw [hempty, join_replicate_empty]
  · rfl

/-- The value that a source gives. -/
def Source.value (source : Source) (nodeId : Option String) (store : Store)
    (config : RunConfig) : Json :=
  match source with
  | .constant value => value
  | .copy key => (Table.get? store key).getD .null
  | .repeated key times => .str (timesOver ((store.text? key).getD "") times)
  | .successor key => .num (.integer (((store.natural? key).getD 0 + 1) % 0x10000000000000000 : Nat))
  | .presence key => .bool (Table.contains store key)
  | .everything => .ofTable store
  | .thread => optional config.threadId
  | .metadata key => (config.metadata.get? key).getD .null
  | .nodeId => optional nodeId
where
  /-- A text, or null for none. -/
  optional : Option String → Json
    | none => .null
    | some value => .str value

/-- Add what one instruction writes to an answer. -/
def perform (nodeId : Option String) (store : Store) (config : RunConfig) (answer : Update)
    (instruction : Instruction) : Except Fault Update :=
  if allows instruction.guard store then
    match instruction.deed with
    | .write target source =>
      .ok (Table.insert answer target (source.value nodeId store config))
    | .fail fault => .error fault
  else .ok answer

/-- A script as a node action, told the id of its node or not. -/
def run (script : List Instruction) (nodeId : Option String) : Action := fun store config =>
  script.foldlM (perform nodeId store config) .empty

/-- Where a rule finds its label. -/
inductive Label where
  | constant (label : String)
  /-- The text of a key, or the empty label. -/
  | textOf (key : String)

/-- A label, unless a guard leaves it out. -/
structure Rule where
  guard : Option Guard := none
  label : Label

/-- The label of the first rule that applies, or the empty one. -/
def labelOf (rules : List Rule) (store : Store) : String :=
  match rules.find? fun rule => allows rule.guard store with
  | none => ""
  | some rule =>
    match rule.label with
    | .constant label => label
    | .textOf key => (store.text? key).getD ""

/-- Rules and a script as a routing action: the rules give the label and the
script the update. -/
def choose (rules : List Rule) (script : List Instruction) : Choice := fun store config =>
  (run script none store config).map fun update => { goto := labelOf rules store, update }

end FlowGraph.Script
