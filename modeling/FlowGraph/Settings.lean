import FlowGraph.Json

/-!
# Settings

Two switches that decide whether listed composers are compiled without being
asked for, and the text in which the switches are saved.
-/

namespace FlowGraph

/-- Whether listed composers are compiled without being asked for. -/
structure Settings where
  enabled : Bool := true
  autoCompile : Bool := true
deriving DecidableEq, Repr, Inhabited

namespace Settings

/-- Nothing is compiled unless both switches are on. -/
def compiles (settings : Settings) : Bool := settings.enabled && settings.autoCompile

/-- The word for a switch. -/
def word (value : Bool) : String := if value then "true" else "false"

/-- The text that is saved: one line for each switch. -/
def render (settings : Settings) : String :=
  let enabled := word settings.enabled
  let autoCompile := word settings.autoCompile
  s!"\x7b\n  \"enabled\": {enabled},\n  \"autoCompile\": {autoCompile}\n\x7d"

end Settings

end FlowGraph
