import FlowGraph.Draft
import FlowGraph.Member

/-!
# Composers

A composer declares a graph: a marker that names it, members that say what is
in it, and hooks that may change the draft before and after the members have
been worked in.
-/

namespace FlowGraph

/-- What marks a composer, and the names it chooses. -/
structure Marker where
  /-- The id of the graph; without it the composer's type name. -/
  id : Option String := none
  description : Option String := none
  /-- Whether the composer is compiled without being asked for. -/
  automatic : Bool := true
  /-- The name that the graph is put on a shelf under. -/
  graphName : Option String := none
deriving DecidableEq, Repr

/-- Changes to the draft around the work of the members. -/
structure Hooks where
  /-- Made when the keys are known, before anything else is added. -/
  onKeys : Draft → Except Fault Draft := .ok
  /-- Made when everything is added, before the draft is compiled. -/
  onComplete : Draft → Except Fault Draft := .ok

/-- Declares a graph. -/
structure Composer where
  typeName : String
  /-- A composer without a marker cannot be compiled. -/
  marker : Option Marker := none
  members : List Member := []
  hooks : Hooks := {}

/-- What follows the last pair of colons of a text, or `whole` if there is none;
two pairs may share a colon. -/
def afterColons : (text whole : List Char) → List Char
  | ':' :: ':' :: rest, _ => afterColons (':' :: rest) rest
  | _ :: rest, whole => afterColons rest whole
  | [], whole => whole

/-- The name of a type without its path and its parameters. -/
def baseTypeName (full : String) : String :=
  let base := full.toList.takeWhile fun c => !(c == '<')
  String.ofList (afterColons base base)

end FlowGraph
