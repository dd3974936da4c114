import FlowGraph.Text.Blank

/-!
# Quoted text

How a text is shown inside a description: between double quotes, with the
quote, the backslash and the usual control characters escaped by a letter, and
every other character that would not print as itself written as its code point
in hexadecimal between braces.

* `Text.quote`, `Text.quotedList`: one text, and a list of texts.
-/

namespace FlowGraph.Text

/-- Code points that do not print as themselves: controls, format characters,
separators other than the space, private use, and the combining marks that
would attach to the character before them. -/
def unprintedRanges : List (Nat × Nat) :=
  [(0x00, 0x1F), (0x7F, 0xA0), (0xAD, 0xAD), (0x300, 0x36F), (0x483, 0x489),
   (0x591, 0x5BD), (0x600, 0x605), (0x610, 0x61A), (0x61C, 0x61C),
   (0x64B, 0x65F), (0x6DD, 0x6DD), (0x70F, 0x70F), (0x890, 0x891),
   (0x8E2, 0x8E2), (0x1680, 0x1680), (0x180B, 0x180F), (0x1AB0, 0x1ACE),
   (0x1DC0, 0x1DFF), (0x2000, 0x200F), (0x2028, 0x202F), (0x205F, 0x206F),
   (0x20D0, 0x20F0), (0x3000, 0x3000), (0x302A, 0x302F), (0x3099, 0x309A),
   (0xE000, 0xF8FF), (0xFE00, 0xFE0F), (0xFE20, 0xFE2F), (0xFEFF, 0xFEFF),
   (0xFFF9, 0xFFFB), (0x110BD, 0x110BD), (0x110CD, 0x110CD),
   (0x1BCA0, 0x1BCA3), (0x1D173, 0x1D17A), (0xE0001, 0xE01EF),
   (0xF0000, 0x10FFFF)]

/-- The code point of a character in lower-case hexadecimal, without padding. -/
def hexDigits (c : Char) : List Char := Nat.toDigits 16 c.toNat

/-- How one character is shown between quotes. -/
def escape (c : Char) : List Char :=
  if c = '\x22' then ['\\', '\x22']
  else if c = '\\' then ['\\', '\\']
  else if c = '\n' then ['\\', 'n']
  else if c = '\r' then ['\\', 'r']
  else if c = '\t' then ['\\', 't']
  else if c = '\x00' then ['\\', '0']
  else if inRanges unprintedRanges c then
    ['\\', 'u', '\x7b'] ++ hexDigits c ++ ['\x7d']
  else [c]

/-- A text between double quotes, character by character. -/
def quote (text : String) : String :=
  String.ofList (['\x22'] ++ text.toList.flatMap escape ++ ['\x22'])

/-- A list between square brackets, its entries parted by a comma and a space. -/
def bracketed (entries : List String) : String :=
  "[" ++ ", ".intercalate entries ++ "]"

/-- A list of quoted texts. -/
def quotedList (texts : List String) : String := bracketed (texts.map quote)

end FlowGraph.Text
