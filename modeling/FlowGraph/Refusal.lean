import FlowGraph.Component

/-!
# Why a definition fails

When a graph cannot be made from a composer, the error names the graph, what
was being done, and the cause.

* `Cause.message`, `Cause.name`: the wording of each cause, and a name for it.
* `DefinitionError.message`, `CompileError.message`: the wording as a whole.
-/

namespace FlowGraph

/-- Why a definition cannot be carried out. -/
inductive Cause where
  | duplicateKey (key member : String)
  | keyNotImmutable (member : String)
  | keyNotGlobal (member : String)
  | keyNotText (member : String)
  | multipleCompileConfigs (member first : String)
  | invalidConfigType (member found : String)
  | invalidConfigSupplier (member : String)
  | mappingsNotPairs (member : String) (entries : Nat)
  | blankSource (member : String)
  | missingValue (member : String)
  | unsupportedShape (member : String) (shape : Component.ShapeMismatch)
  /-- The draft refuses what the definition asks of it. -/
  | engine (fault : Fault)
  /-- An extension refuses, in its own words. -/
  | extension (reason : String)
deriving DecidableEq, Repr

/-- The name of a cause. -/
def Cause.name : Cause → String
  | .duplicateKey _ _ => "DuplicateKey"
  | .keyNotImmutable _ => "KeyNotImmutable"
  | .keyNotGlobal _ => "KeyNotGlobal"
  | .keyNotText _ => "KeyNotText"
  | .multipleCompileConfigs _ _ => "MultipleCompileConfigs"
  | .invalidConfigType _ _ => "InvalidConfigType"
  | .invalidConfigSupplier _ => "InvalidConfigSupplier"
  | .mappingsNotPairs _ _ => "MappingsNotPairs"
  | .blankSource _ => "BlankSource"
  | .missingValue _ => "MissingValue"
  | .unsupportedShape _ _ => "UnsupportedShape"
  | .engine _ => "Engine"
  | .extension _ => "Extension"

/-- The wording of a cause. -/
def Cause.message : Cause → String
  | .duplicateKey key member => s!"duplicate graph key '{key}' declared by member '{member}'"
  | .keyNotImmutable member => s!"key member '{member}' must be immutable"
  | .keyNotGlobal member => s!"key member '{member}' must be global"
  | .keyNotText member => s!"key member '{member}' must be string-typed"
  | .multipleCompileConfigs member first =>
    s!"multiple compile config declarations: '{member}' repeats '{first}'"
  | .invalidConfigType member found =>
    s!"member '{member}' must be of type CompileConfig or a config supplier, found {found}"
  | .invalidConfigSupplier member => s!"config supplier '{member}' returned no compile config"
  | .mappingsNotPairs member entries =>
    s!"mappings must be pairs in member '{member}' ({entries} entries)"
  | .blankSource member => s!"conditional edge source in member '{member}' must not be blank"
  | .missingValue member => s!"member '{member}' must be initialized"
  | .unsupportedShape member shape => s!"member '{member}': {shape.message}"
  | .engine fault => s!"graph structure error: {fault.message}"
  | .extension reason => reason

/-- A step of a definition that could not be carried out. -/
structure Refusal where
  /-- What was being done. -/
  operation : String
  cause : Cause
deriving DecidableEq, Repr

/-- A refusal, with the graph whose definition it ended. -/
structure DefinitionError extends Refusal where
  graphId : String
deriving DecidableEq, Repr

/-- The wording of a definition error. -/
def DefinitionError.message (error : DefinitionError) : String :=
  let cause := error.cause.message
  s!"Graph [{error.graphId}] definition error: failed to {error.operation}. Cause: {cause}"

/-- Why a composer does not give a graph. -/
inductive CompileError where
  /-- There is no marker. -/
  | notAComposer (typeName : String)
  | definition (error : DefinitionError)
deriving DecidableEq, Repr

/-- The wording of a compile error. -/
def CompileError.message : CompileError → String
  | .notAComposer typeName =>
    s!"{typeName} is not a graph composer: no composer marker declared"
  | .definition error => error.message

end FlowGraph
