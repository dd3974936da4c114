import FlowGraph.Json

/-!
# Documents

A document is JSON as it is written, before anything is asked of its values.
It keeps what a value cannot have: strings with half of a surrogate pair,
numbers beyond every range, arrays and objects too deep inside others, fields
given twice.  Where such a part is passed over, it does no harm; where it is
wanted as a value, it is refused.

* `Document.toJson?`: a document as a value.
* `Json.toDocument`: a value as it would be written.
* `Document.Record`: a document as a record with known fields.
-/

namespace FlowGraph

/-- JSON as it is written. -/
inductive Document where
  | null
  | bool (value : Bool)
  /-- A number, unless it is too large to be one. -/
  | num (value : Option Number)
  /-- A string, unless it holds half of a surrogate pair. -/
  | str (value : Option String)
  | arr (items : List Document)
  /-- Keys and values, in the order in which they are written. -/
  | obj (fields : List (Option String × Document))
  /-- An array or object that stands too deep inside others to be a value. -/
  | deep
deriving Inhabited

namespace Document

mutual

/-- The value of a document.  Of two fields with one key the later counts. -/
def toJson? : Document → Option Json
  | .null => some .null
  | .bool value => some (.bool value)
  | .num value => value.map .num
  | .str value => value.map .str
  | .arr items => (itemsToJson? items).map .arr
  | .obj fields => (fieldsToJson? fields).map .object
  | .deep => none

/-- The values of the items of an array. -/
def itemsToJson? : List Document → Option (List Json)
  | [] => some []
  | item :: rest =>
    match toJson? item, itemsToJson? rest with
    | some value, some values => some (value :: values)
    | _, _ => none

/-- The keys and values of an object. -/
def fieldsToJson? : List (Option String × Document) → Option (List (String × Json))
  | [] => some []
  | (key, item) :: rest =>
    match key, toJson? item, fieldsToJson? rest with
    | some key, some value, some fields => some ((key, value) :: fields)
    | _, _, _ => none

end

/-- An object as a table of values. -/
def table? : Document → Option (Table Json)
  | .obj fields => (fieldsToJson? fields).map .ofList
  | _ => none

/-- A truth value. -/
def bool? : Document → Option Bool
  | .bool value => some value
  | _ => none

/-- A text. -/
def text? : Document → Option String
  | .str value => value
  | _ => none

/-- A text, or null for none. -/
def optionalText? : Document → Option (Option String)
  | .null => some none
  | document => document.text?.map some

/-- A list of texts. -/
def texts? : Document → Option (List String)
  | .arr items => items.mapM text?
  | _ => none

/-- An integer from `low` up to `high`. -/
def integerIn? (low high : Int) : Document → Option Int
  | .num (some (.integer value)) =>
    if low ≤ value ∧ value ≤ high then some value else none
  | _ => none

/-- A natural number of 64 bits. -/
def natural? (document : Document) : Option Nat :=
  (document.integerIn? 0 0xFFFFFFFFFFFFFFFF).map Int.toNat

/-- A document as a record: the known fields that are given. -/
structure Record where
  /-- Whether the fields are given by their places and not by their names. -/
  positional : Bool
  fields : List (String × Document)

/-- Read a record with the given field names.  By name, unknown fields are
passed over and a known one may come once; by place, there may be no more
values than names. -/
def record? (names : List String) : Document → Option Record
  | .arr items =>
    if items.length ≤ names.length then some ⟨true, names.zip items⟩ else none
  | .obj fields => do
    let named ← fields.mapM fun field => field.1.map fun key => (key, field.2)
    let known := named.filter fun field => names.contains field.1
    if (known.map Prod.fst).Nodup then some ⟨false, known⟩ else none
  | _ => none

namespace Record

/-- The value of a field that must be given. -/
def required {α : Type} (record : Record) (name : String) (read : Document → Option α) :
    Option α :=
  (Fields.get? name record.fields).bind read

/-- The value of a field, or what stands for it if it is not given. -/
def optional {α : Type} (record : Record) (name : String) (read : Document → Option α)
    (absent : α) : Option α :=
  match Fields.get? name record.fields with
  | some document => read document
  | none => some absent

end Record

end Document

namespace Json

mutual

/-- A value as it would be written. -/
def toDocument : Json → Document
  | .null => .null
  | .bool value => .bool value
  | .num value => .num (some value)
  | .str value => .str (some value)
  | .arr items => .arr (itemsToDocument items)
  | .obj fields => .obj (fieldsToDocument fields)

/-- The items of an array as they would be written. -/
def itemsToDocument : List Json → List Document
  | [] => []
  | item :: rest => toDocument item :: itemsToDocument rest

/-- The fields of an object as they would be written. -/
def fieldsToDocument : List (String × Json) → List (Option String × Document)
  | [] => []
  | (key, value) :: rest => (some key, toDocument value) :: fieldsToDocument rest

end

end Json

end FlowGraph
