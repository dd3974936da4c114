import FlowGraph.Table

/-!
# JSON values

The values that states carry.  An object holds its fields in increasing order
of keys, as a `Table` does, so equal objects are equal lists.  A number is an
integer of the two 64-bit ranges or a decimal fraction; the two never compare
equal, and neither is ever computed with.

* `Json.beq_iff`: the Boolean comparison decides equality.
* `Json.object`, `Json.field?`: an object made from a list, and a field of it.
-/

namespace FlowGraph

/-- A number: a whole one, or the fraction `mantissa / 10 ^ places`. -/
inductive Number where
  | integer (value : Int)
  | decimal (mantissa : Int) (places : Nat)
deriving DecidableEq, Repr

/-- A JSON value. -/
inductive Json where
  | null
  | bool (value : Bool)
  | num (value : Number)
  | str (value : String)
  | arr (items : List Json)
  | obj (fields : List (String × Json))
deriving Inhabited

namespace Json

/-! ## Equality -/

mutual

/-- Comparison of two values. -/
def beq : Json → Json → Bool
  | .null, .null => true
  | .bool a, .bool b => a == b
  | .num a, .num b => a == b
  | .str a, .str b => a == b
  | .arr a, .arr b => beqItems a b
  | .obj a, .obj b => beqFields a b
  | _, _ => false

/-- Comparison of two arrays, item by item. -/
def beqItems : List Json → List Json → Bool
  | [], [] => true
  | a :: as, b :: bs => beq a b && beqItems as bs
  | _, _ => false

/-- Comparison of two objects, field by field. -/
def beqFields : List (String × Json) → List (String × Json) → Bool
  | [], [] => true
  | (k, a) :: as, (l, b) :: bs => k == l && (beq a b && beqFields as bs)
  | _, _ => false

end

mutual

/-- Values compare equal iff they are equal. -/
theorem beq_iff : (a b : Json) → (beq a b = true ↔ a = b)
  | .null, b => by cases b <;> simp [beq]
  | .bool _, b => by cases b <;> simp [beq]
  | .num _, b => by cases b <;> simp [beq]
  | .str _, b => by cases b <;> simp [beq]
  | .arr a, .arr b => by simp [beq, beqItems_iff a b]
  | .arr _, .null => by simp [beq]
  | .arr _, .bool _ => by simp [beq]
  | .arr _, .num _ => by simp [beq]
  | .arr _, .str _ => by simp [beq]
  | .arr _, .obj _ => by simp [beq]
  | .obj a, .obj b => by simp [beq, beqFields_iff a b]
  | .obj _, .null => by simp [beq]
  | .obj _, .bool _ => by simp [beq]
  | .obj _, .num _ => by simp [beq]
  | .obj _, .str _ => by simp [beq]
  | .obj _, .arr _ => by simp [beq]

/-- Arrays compare equal iff they are equal. -/
theorem beqItems_iff : (a b : List Json) → (beqItems a b = true ↔ a = b)
  | [], b => by cases b <;> simp [beqItems]
  | _ :: _, [] => by simp [beqItems]
  | a :: as, b :: bs => by simp [beqItems, beq_iff a b, beqItems_iff as bs]

/-- Objects compare equal iff they are equal. -/
theorem beqFields_iff : (a b : List (String × Json)) → (beqFields a b = true ↔ a = b)
  | [], b => by cases b <;> simp [beqFields]
  | _ :: _, [] => by simp [beqFields]
  | (k, a) :: as, (l, b) :: bs => by
    simp [beqFields, beq_iff a b, beqFields_iff as bs, and_assoc]

end

instance : DecidableEq Json := fun a b => decidable_of_iff _ (beq_iff a b)

/-! ## Building and reading -/

/-- The object of a list of fields; of two fields with one key the later counts. -/
def object (fields : List (String × Json)) : Json := .obj (Table.ofList fields).fields

/-- The object that holds the entries of a table. -/
def ofTable (table : Table Json) : Json := .obj table.fields

/-- The value of a field, of an object that has it. -/
def field? (key : String) : Json → Option Json
  | .obj fields => Fields.get? key fields
  | _ => none

/-- The text of a string value. -/
def text? : Json → Option String
  | .str value => some value
  | _ => none

/-- The truth value of a Boolean value. -/
def bool? : Json → Option Bool
  | .bool value => some value
  | _ => none

/-- The number of a value that is an integer from `low` up to `high`. -/
def integerIn? (low high : Int) : Json → Option Int
  | .num (.integer value) => if low ≤ value ∧ value ≤ high then some value else none
  | _ => none

end Json

end FlowGraph
