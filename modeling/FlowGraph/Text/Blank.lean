/-!
# Blank text

Names of nodes, keys and sources must say something: a text that holds white
space alone counts as not given.  White space is Unicode's `White_Space`
property, a closed list of twenty-five code points kept here as ranges.

* `Text.isBlank`: a text says nothing.
* `Text.given`: a name that may be left out counts only if it says something.
-/

namespace FlowGraph.Text

/-- The code points with the `White_Space` property, as closed ranges. -/
def spaceRanges : List (Nat × Nat) :=
  [(0x09, 0x0D), (0x20, 0x20), (0x85, 0x85), (0xA0, 0xA0), (0x1680, 0x1680),
   (0x2000, 0x200A), (0x2028, 0x2029), (0x202F, 0x202F), (0x205F, 0x205F),
   (0x3000, 0x3000)]

/-- Membership of a character in a list of closed ranges of code points. -/
def inRanges (ranges : List (Nat × Nat)) (c : Char) : Bool :=
  ranges.any fun range => range.1 ≤ c.toNat && c.toNat ≤ range.2

/-- Whether a character is white space. -/
def isSpace (c : Char) : Bool := inRanges spaceRanges c

/-- Whether a text holds nothing but white space; the empty text does. -/
def isBlank (text : String) : Bool := text.toList.all isSpace

/-- An optional name counts as given only if it is not blank. -/
def given (name : Option String) : Option String :=
  name.filter fun text => !isBlank text

end FlowGraph.Text
