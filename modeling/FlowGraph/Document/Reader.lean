import FlowGraph.Document.Token

/-!
# Reading documents

Tokens are put together one at a time.  The arrays and objects that are open
stand on a stack, and what the reader waits for says which tokens may come.
A document may go as deep as it likes, but what stands inside too many arrays
and objects is only checked, not kept.

* `Reader.step`: one token.
* `Document.parse?`: **a text is a document** or it is not one.
-/

namespace FlowGraph

namespace Reader

/-- An open array or object; its parts are kept newest first. -/
inductive Frame where
  | array (items : List Document)
  | object (fields : List (Option String × Document))
  /-- An object after a key whose value is awaited. -/
  | field (fields : List (Option String × Document)) (key : Option String)

/-- What may come next. -/
inductive Awaited where
  | value
  /-- A value, or the end of an array that has just begun. -/
  | firstItem
  | key
  /-- A key, or the end of an object that has just begun. -/
  | firstKey
  | colon
  /-- A comma, or the end of what is open. -/
  | more

/-- A document that is being read, or that has been read. -/
inductive State where
  | reading (awaited : Awaited) (stack : List Frame)
  | finished (document : Document)

/-- How many arrays and objects may stand inside one another, the outermost and
the innermost counted, where values are wanted. -/
def nestingLimit : Nat := 127

/-- An array or object inside the open ones: it is kept unless it is too deep.
Of the open ones no more are counted than may be there. -/
def kept (stack : List Frame) (document : Document) : Document :=
  if (stack.take nestingLimit).length < nestingLimit then document else .deep

/-- Put a value that is complete where it belongs. -/
def place (value : Document) : List Frame → Option State
  | [] => some (.finished value)
  | .array items :: stack => some (.reading .more (.array (value :: items) :: stack))
  | .field fields key :: stack =>
    some (.reading .more (.object ((key, value) :: fields) :: stack))
  | .object _ :: _ => none

/-- Close the array on top of the stack. -/
def closeArray : List Frame → Option State
  | .array items :: stack => place (kept stack (.arr items.reverse)) stack
  | _ => none

/-- Close the object on top of the stack. -/
def closeObject : List Frame → Option State
  | .object fields :: stack => place (kept stack (.obj fields.reverse)) stack
  | _ => none

/-- A token that begins a value. -/
def begin (stack : List Frame) : Token → Option State
  | .leftBracket => some (.reading .firstItem (.array [] :: stack))
  | .leftBrace => some (.reading .firstKey (.object [] :: stack))
  | .text value => place (.str value) stack
  | .atom value => place value stack
  | _ => none

/-- A token that is a key of the object on top of the stack. -/
def beginField : List Frame → Token → Option State
  | .object fields :: stack, .text key => some (.reading .colon (.field fields key :: stack))
  | _, _ => none

/-- One token more. -/
def step : State → Token → Option State
  | .finished _, _ => none
  | .reading .value stack, token => begin stack token
  | .reading .firstItem stack, .rightBracket => closeArray stack
  | .reading .firstItem stack, token => begin stack token
  | .reading .key stack, token => beginField stack token
  | .reading .firstKey stack, .rightBrace => closeObject stack
  | .reading .firstKey stack, token => beginField stack token
  | .reading .colon stack, .colon => some (.reading .value stack)
  | .reading .colon _, _ => none
  | .reading .more stack, .rightBracket => closeArray stack
  | .reading .more stack, .rightBrace => closeObject stack
  | .reading .more (.array items :: stack), .comma =>
    some (.reading .value (.array items :: stack))
  | .reading .more (.object fields :: stack), .comma =>
    some (.reading .key (.object fields :: stack))
  | .reading .more _, _ => none

/-- The document of a list of tokens. -/
def ofTokens? (tokens : List Token) : Option Document :=
  match tokens.foldlM step (.reading .value []) with
  | some (.finished document) => some document
  | _ => none

end Reader

/-- The document that a text is, with white space around it at most. -/
def Document.parse? (text : String) : Option Document :=
  (Token.ofText? text).bind Reader.ofTokens?

end FlowGraph
