import FlowGraph.Json

/-!
# The shared state and its write rules

A run keeps one store, a table of JSON values.  Nodes and routers do not change
it themselves: they hand back an update, a table of new values, and every key
has a rule that says how a new value joins the one that is there.

* `Store.get?_write`: a write touches its own key only.
* `Store.get?_update`: **an update is pointwise**, key by key.
-/

namespace FlowGraph

/-- How a new value of a key joins the current one. -/
inductive WriteRule where
  /-- The new value takes the place of the current one. -/
  | replace
  /-- The new value, or each item of a new array, goes to the end of an array. -/
  | append
  /-- The fields of a new object are written over those of the current object. -/
  | merge
deriving DecidableEq, Repr, Inhabited

namespace WriteRule

/-- What a value contributes to an array: an array its items, any other value itself. -/
def itemsOf : Json → List Json
  | .arr items => items
  | value => [value]

/-- What a current value is worth as an array: nothing and null are the empty array. -/
def currentItems : Option Json → List Json
  | none => []
  | some .null => []
  | some value => itemsOf value

/-- The value of a key after an update, from its current value, if it has one. -/
def apply (rule : WriteRule) (current : Option Json) (update : Json) : Json :=
  match rule with
  | .replace => update
  | .append => .arr (currentItems current ++ itemsOf update)
  | .merge =>
    match current, update with
    | some (.obj base), .obj patch => .obj (Fields.override base patch)
    | _, _ => update

/-- The name of a rule in documents. -/
def name : WriteRule → String
  | .replace => "replace"
  | .append => "append"
  | .merge => "merge"

/-- The rule with the given name. -/
def ofName? (name : String) : Option WriteRule :=
  if name = "replace" then some .replace
  else if name = "append" then some .append
  else if name = "merge" then some .merge
  else none

/-- A rule is found under its own name. -/
@[simp] theorem ofName?_name (rule : WriteRule) : ofName? rule.name = some rule := by
  cases rule <;> decide

end WriteRule

/-- The rules of the keys that have one of their own. -/
abbrev KeyTable := Table WriteRule

/-- The rule of a key; a key without one of its own is replaced. -/
def KeyTable.rule (keys : KeyTable) (key : String) : WriteRule :=
  (keys.get? key).getD .replace

/-- All state keys and their values at one moment of a run. -/
abbrev Store := Table Json

/-- New values for some keys, as a node or a router hands them back. -/
abbrev Update := Table Json

namespace Store

/-- Write one value under the rule of its key. -/
def write (keys : KeyTable) (store : Store) (key : String) (value : Json) : Store :=
  Table.insert store key ((KeyTable.rule keys key).apply (Table.get? store key) value)

/-- Write a list of values, one after the other. -/
def writeAll (keys : KeyTable) (store : Store) (fields : List (String × Json)) : Store :=
  fields.foldl (fun store field => write keys store field.1 field.2) store

/-- Write every value of an update. -/
def update (keys : KeyTable) (store : Store) (update : Update) : Store :=
  writeAll keys store update.fields

/-- The text under a key, if its value is a string. -/
def text? (store : Store) (key : String) : Option String :=
  (Table.get? store key).bind Json.text?

/-- The number under a key, if its value is a natural number of 64 bits. -/
def natural? (store : Store) (key : String) : Option Nat :=
  ((Table.get? store key).bind (Json.integerIn? 0 0xFFFFFFFFFFFFFFFF)).map Int.toNat

/-- A write touches its own key only. -/
theorem get?_write (keys : KeyTable) (store : Store) (k : String) (value : Json)
    (key : String) :
    Table.get? (write keys store k value) key =
      if k = key then some ((KeyTable.rule keys k).apply (Table.get? store k) value)
      else Table.get? store key :=
  Table.get?_insert store k _ key

/-- Writing a list without repeated keys: each key is written once, from the
value it had at the start. -/
theorem get?_writeAll (keys : KeyTable) (store : Store) {fields : List (String × Json)}
    (hdistinct : (fields.map Prod.fst).Nodup) (key : String) :
    Table.get? (writeAll keys store fields) key =
      match Fields.get? key fields with
      | some value => some ((KeyTable.rule keys key).apply (Table.get? store key) value)
      | none => Table.get? store key := by
  induction fields generalizing store with
  | nil => rfl
  | cons field rest ih =>
      obtain ⟨k, v⟩ := field
      obtain ⟨hfresh, hrest⟩ := List.nodup_cons.mp hdistinct
      have hstep : writeAll keys store ((k, v) :: rest) =
          writeAll keys (write keys store k v) rest := rfl
      rw [hstep, ih _ hrest, Fields.get?_cons]
      by_cases heq : k = key
      · subst heq
        have habsent : Fields.get? k rest = none :=
          Fields.get?_eq_none_of_forall fun field hmem hkey =>
            hfresh (List.mem_map.mpr ⟨field, hmem, hkey⟩)
        simp [habsent, get?_write]
      · simp [heq, get?_write]

/-- **An update is pointwise.**  A key of the update gets the value of its rule;
every other key keeps what it had. -/
theorem get?_update (keys : KeyTable) (store : Store) (u : Update) (key : String) :
    Table.get? (update keys store u) key =
      match Table.get? u key with
      | some value => some ((KeyTable.rule keys key).apply (Table.get? store key) value)
      | none => Table.get? store key :=
  get?_writeAll keys store (Table.keys_nodup u) key

end Store

end FlowGraph
