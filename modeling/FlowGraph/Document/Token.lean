import FlowGraph.Document.Literal

/-!
# Tokens of a document

A text is cut into tokens one character at a time.  Between two characters the
reader is between tokens or inside one; a number or a word ends at the first
character that cannot belong to it, which is then looked at once more.

* `Token.step`: one character.
* `Token.ofText?`: the tokens of a whole text.
-/

namespace FlowGraph

/-- A token: punctuation, a string, or another value without parts. -/
inductive Token where
  | leftBrace
  | rightBrace
  | leftBracket
  | rightBracket
  | comma
  | colon
  | text (value : Option String)
  | atom (value : Document)

namespace Token

/-- Where the reader stands; what was read of a token is kept newest first. -/
inductive Position where
  | between
  | number (read : List Char)
  | word (read : List Char)
  | text (read : List Literal.Piece)
  /-- After a backslash. -/
  | escape (read : List Literal.Piece)
  /-- Inside a `\u` escape that still lacks some digits. -/
  | unit (read : List Literal.Piece) (lacking value : Nat)

/-- The position, and the tokens so far, newest first. -/
abbrev State := Position × List Token

/-- A character that may belong to a number. -/
def isNumeric (c : Char) : Bool :=
  c.isDigit || c == '-' || c == '+' || c == '.' || c == 'e' || c == 'E'

/-- A character that starts a token or stands between two. -/
def start (tokens : List Token) (c : Char) : Option State :=
  if c == ' ' || c == '\t' || c == '\n' || c == '\r' then some (.between, tokens)
  else if c == '\x7b' then some (.between, .leftBrace :: tokens)
  else if c == '\x7d' then some (.between, .rightBrace :: tokens)
  else if c == '[' then some (.between, .leftBracket :: tokens)
  else if c == ']' then some (.between, .rightBracket :: tokens)
  else if c == ',' then some (.between, .comma :: tokens)
  else if c == ':' then some (.between, .colon :: tokens)
  else if c == '\x22' then some (.text [], tokens)
  else if c == '-' || c.isDigit then some (.number [c], tokens)
  else if c.isLower then some (.word [c], tokens)
  else none

/-- The token of a number or a word that has ended. -/
def finish (position : Position) (tokens : List Token) : Option (List Token) :=
  match position with
  | .between => some tokens
  | .number read => (Literal.number? read.reverse).map fun value => .atom value :: tokens
  | .word read => (Literal.word? read.reverse).map fun value => .atom value :: tokens
  | _ => none

/-- One character more. -/
def step (state : State) (c : Char) : Option State :=
  let (position, tokens) := state
  match position with
  | .between => start tokens c
  | .number read =>
    if isNumeric c then some (.number (c :: read), tokens)
    else (finish position tokens).bind fun tokens => start tokens c
  | .word read =>
    if c.isLower then some (.word (c :: read), tokens)
    else (finish position tokens).bind fun tokens => start tokens c
  | .text read =>
    if c == '\x22' then some (.between, .text (Literal.text? read.reverse) :: tokens)
    else if c == '\\' then some (.escape read, tokens)
    else if c.toNat < 0x20 then none
    else some (.text (.char c :: read), tokens)
  | .escape read =>
    if c == 'u' then some (.unit read 4 0, tokens)
    else (Literal.escaped? c).map fun value => (.text (.char value :: read), tokens)
  | .unit read lacking value =>
    (Literal.hexValue? c).map fun digit =>
      if lacking = 1 then (.text (.unit (value * 16 + digit) :: read), tokens)
      else (.unit read (lacking - 1) (value * 16 + digit), tokens)

/-- The tokens of a text. -/
def ofText? (text : String) : Option (List Token) := do
  let (position, tokens) ← text.toList.foldlM step (.between, [])
  (finish position tokens).map List.reverse

end Token

end FlowGraph
