import FlowGraph.Document
import FlowGraph.Document.Double

/-!
# Numbers and strings as they are written

A number literal has a sign, an integer part without leading zeros, and perhaps
a fraction and an exponent.  Without the last two it is a whole number if it
fits into 64 bits, signed or not; every other literal is the double that it is
read as, if it is not too large, in its shortest decimal form.

The pieces of a string are characters and the 16-bit units of `\u` escapes;
the two halves of a surrogate pair must stand side by side.

* `Literal.number?`: the number of a literal.
* `Literal.text?`: the text of the pieces of a string.
-/

namespace FlowGraph.Literal

/-- The value of a decimal digit. -/
def digitValue (c : Char) : Nat := c.toNat - '0'.toNat

/-- Append digits to a value for as long as it fits into 64 bits: the value, and
the digits left over. -/
def appendDigits (value : Nat) : List Char → Nat × List Char
  | [] => (value, [])
  | c :: rest =>
    let longer := value * 10 + digitValue c
    if longer < 0x10000000000000000 then appendDigits longer rest else (value, c :: rest)

/-- The decimal fraction `mantissa * 10 ^ exponent`, in its shortest form with at
least one place. -/
def decimal (negative : Bool) (mantissa : Nat) (exponent : Int) : Number :=
  let zeros := ((Nat.toDigits 10 mantissa).reverse.takeWhile (· == '0')).length
  let shortest := mantissa / Nat.pow 10 zeros
  let exponent := exponent + zeros
  let signed (value : Nat) : Int := if negative then -(value : Int) else value
  if mantissa = 0 then .decimal 0 1
  else if 0 ≤ exponent then .decimal (signed (shortest * Nat.pow 10 exponent.toNat * 10)) 1
  else .decimal (signed shortest) (-exponent).toNat

/-- The parts of a number literal. -/
structure Parts where
  negative : Bool
  whole : List Char
  /-- The digits after the point, if there is one. -/
  fraction : Option (List Char)
  /-- The exponent, if there is one: whether it is negative, and its digits. -/
  exponent : Option (Bool × List Char)

/-- Split a sign off a literal. -/
def splitSign : List Char → Bool × List Char
  | '-' :: rest => (true, rest)
  | rest => (false, rest)

/-- Split a fraction off what follows the integer part. -/
def splitFraction : List Char → Option (List Char) × List Char
  | '.' :: rest => (some (rest.takeWhile Char.isDigit), rest.dropWhile Char.isDigit)
  | rest => (none, rest)

/-- Split an exponent off what follows the fraction. -/
def splitExponent : List Char → Option (Bool × List Char) × List Char
  | c :: rest =>
    if c == 'e' || c == 'E' then
      match rest with
      | '+' :: rest => (some (false, rest.takeWhile Char.isDigit), rest.dropWhile Char.isDigit)
      | '-' :: rest => (some (true, rest.takeWhile Char.isDigit), rest.dropWhile Char.isDigit)
      | rest => (some (false, rest.takeWhile Char.isDigit), rest.dropWhile Char.isDigit)
    else (none, c :: rest)
  | [] => (none, [])

/-- The parts of a literal that is well formed. -/
def parts? (literal : List Char) : Option Parts :=
  let (negative, unsigned) := splitSign literal
  let whole := unsigned.takeWhile Char.isDigit
  let (fraction, rest) := splitFraction (unsigned.dropWhile Char.isDigit)
  let (exponent, rest) := splitExponent rest
  let wellFormed := rest.isEmpty && !whole.isEmpty
    && (whole.length == 1 || whole.head? != some '0')
    && fraction != some [] && (exponent.map Prod.snd) != some []
  if wellFormed then some ⟨negative, whole, fraction, exponent⟩ else none

/-- The power of ten that a literal ends in.  The digits of one that does not fit
into 64 bits are cut off, which leaves it beyond every range all the same. -/
def Parts.scale (parts : Parts) : Int :=
  match parts.exponent with
  | none => 0
  | some (true, digits) => -((appendDigits 0 digits).1 : Int)
  | some (false, digits) => (appendDigits 0 digits).1

/-- The whole number that a literal without fraction and exponent stands for, if
it fits into 64 bits; zero with a sign is no whole number. -/
def Parts.integer? (parts : Parts) : Option Int :=
  match parts.fraction, parts.exponent with
  | none, none =>
    match appendDigits 0 parts.whole with
    | (value, []) =>
      if !parts.negative then some value
      else if value ≠ 0 ∧ value ≤ 0x8000000000000000 then some (-(value : Int))
      else none
    | _ => none
  | _, _ => none

/-- The double that a literal stands for, unless it is too large.  Digits that do
not fit into 64 bits count for their places only: digits of the integer part are
passed over, and the fraction ends before the first that does not fit. -/
def Parts.double? (parts : Parts) : Option Double :=
  let fraction := parts.fraction.getD []
  let (whole, passed) := appendDigits 0 parts.whole
  let (significand, dropped) := appendDigits whole fraction
  Double.ofDecimal? significand
    (parts.scale + passed.length - (fraction.length - dropped.length : Nat))

/-- The number with the given parts, unless it is too large. -/
def Parts.number? (parts : Parts) : Option Number :=
  match parts.integer? with
  | some value => some (.integer value)
  | none => parts.double?.map fun double =>
    let (mantissa, exponent) := double.shortest
    decimal parts.negative mantissa exponent

/-- A well-formed literal as a document. -/
def number? (literal : List Char) : Option Document :=
  (parts? literal).map fun parts => .num parts.number?

/-- The document of a bare word. -/
def word? (letters : List Char) : Option Document :=
  if letters = "null".toList then some .null
  else if letters = "true".toList then some (.bool true)
  else if letters = "false".toList then some (.bool false)
  else none

/-- A piece of a string: a character, or a 16-bit unit. -/
inductive Piece where
  | char (value : Char)
  | unit (value : Nat)
deriving DecidableEq, Repr

/-- The first half of a surrogate pair. -/
def isLeading (unit : Nat) : Bool := 0xD800 ≤ unit && unit < 0xDC00

/-- The second half of a surrogate pair. -/
def isTrailing (unit : Nat) : Bool := 0xDC00 ≤ unit && unit < 0xE000

/-- The characters of a list of pieces, if no half of a pair stands alone. -/
def chars? : List Piece → Option (List Char)
  | [] => some []
  | .char c :: rest => (chars? rest).map (c :: ·)
  | .unit u :: .unit v :: rest =>
    if isLeading u then
      if isTrailing v then
        (chars? rest).map
          (Char.ofNat (0x10000 + (u - 0xD800) * 0x400 + (v - 0xDC00)) :: ·)
      else none
    else if isTrailing u then none
    else (chars? (.unit v :: rest)).map (Char.ofNat u :: ·)
  | .unit u :: rest =>
    if isLeading u || isTrailing u then none else (chars? rest).map (Char.ofNat u :: ·)

/-- The text of a list of pieces, if no half of a pair stands alone. -/
def text? (pieces : List Piece) : Option String := (chars? pieces).map String.ofList

/-- The character that a letter stands for after a backslash. -/
def escaped? : Char → Option Char
  | '\x22' => some '\x22'
  | '\\' => some '\\'
  | '/' => some '/'
  | 'b' => some '\x08'
  | 'f' => some '\x0c'
  | 'n' => some '\n'
  | 'r' => some '\r'
  | 't' => some '\t'
  | _ => none

/-- The value of a hexadecimal digit. -/
def hexValue? (c : Char) : Option Nat :=
  if '0' ≤ c ∧ c ≤ '9' then some (c.toNat - '0'.toNat)
  else if 'a' ≤ c ∧ c ≤ 'f' then some (c.toNat - 'a'.toNat + 10)
  else if 'A' ≤ c ∧ c ≤ 'F' then some (c.toNat - 'A'.toNat + 10)
  else none

end FlowGraph.Literal
