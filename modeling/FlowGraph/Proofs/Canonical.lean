import FlowGraph.Document
import Mathlib.Data.List.Nodup
import Mathlib.Data.List.Perm.Basic

/-!
# Canonical values

An object of a JSON value lists its fields in increasing order of keys, and so
do the objects inside it.  Values of this kind are called canonical.  They are
the values that documents are read as, and a document that is written for one
of them is read as that value again.

* `Json.Canonical`: every object inside a value is in order.
* `toJson?_toDocument_iff`: **the canonical values are those that survive being
  written and read.**
* `table?_ofTable`: the same for tables of values.
-/

namespace FlowGraph

/-! ## Fields with distinct keys -/

/-- Where no key comes up twice, a look-up finds the field. -/
theorem Fields.get?_eq_some_iff_of_nodup {α : Type} {fields : List (String × α)}
    (hdistinct : (fields.map Prod.fst).Nodup) {key : String} {value : α} :
    get? key fields = some value ↔ (key, value) ∈ fields :=
  ⟨mem_of_get?, get?_of_mem_of_nodup hdistinct⟩

/-- Where no key comes up twice, the order does not decide what is found. -/
theorem Fields.get?_eq_of_perm {α : Type} {fields fields' : List (String × α)}
    (hperm : fields.Perm fields') (hdistinct : (fields'.map Prod.fst).Nodup) (key : String) :
    get? key fields = get? key fields' := by
  have hdistinct' : (fields.map Prod.fst).Nodup := (hperm.map Prod.fst).nodup_iff.mpr hdistinct
  refine Option.ext fun value => ?_
  rw [get?_eq_some_iff_of_nodup hdistinct, get?_eq_some_iff_of_nodup hdistinct', hperm.mem_iff]

/-- Every field of the table of a list stands in the list. -/
theorem Table.mem_of_mem_ofList {α : Type} {fields : List (String × α)} {field : String × α}
    (h : field ∈ (ofList fields).fields) : field ∈ fields := by
  obtain ⟨key, value⟩ := field
  rw [mem_fields_iff, get?_ofList] at h
  exact List.mem_reverse.mp (Fields.mem_of_get? h)

/-- The table of a list of fields with distinct keys has these fields. -/
theorem Table.fields_ofList_perm {α : Type} {fields : List (String × α)}
    (hdistinct : (fields.map Prod.fst).Nodup) : (ofList fields).fields.Perm fields := by
  have hreverse : (fields.reverse.map Prod.fst).Nodup := by
    rw [List.map_reverse]
    exact List.nodup_reverse.mpr hdistinct
  refine (List.perm_ext_iff_of_nodup (.of_map _ (ofList fields).keys_nodup)
    (.of_map _ hdistinct)).mpr ?_
  intro field
  obtain ⟨key, value⟩ := field
  rw [mem_fields_iff, get?_ofList, Fields.get?_eq_some_iff_of_nodup hreverse, List.mem_reverse]

/-- A table is the table of its fields. -/
theorem Table.ofList_fields {α : Type} (table : Table α) : ofList table.fields = table := by
  refine ext_get? fun key => ?_
  rw [get?_ofList]
  exact Fields.get?_eq_of_perm (List.reverse_perm _) table.keys_nodup key

namespace Json

/-- The items of an array become documents one by one. -/
theorem itemsToDocument_eq (items : List Json) : itemsToDocument items = items.map toDocument := by
  induction items with
  | nil => rfl
  | cons item rest ih => rw [itemsToDocument, ih, List.map_cons]

/-- The fields of an object become documents one by one, and keep their keys. -/
theorem fieldsToDocument_eq (fields : List (String × Json)) :
    fieldsToDocument fields = fields.map fun field => (some field.1, field.2.toDocument) := by
  induction fields with
  | nil => rfl
  | cons field rest ih =>
      obtain ⟨key, value⟩ := field
      rw [fieldsToDocument, ih, List.map_cons]

end Json

/-! ## Canonical values -/

/-- **A canonical value**: every object inside it lists its fields in increasing
order of keys. -/
inductive Json.Canonical : Json → Prop
  | null : Canonical .null
  | bool (value : Bool) : Canonical (.bool value)
  | num (value : Number) : Canonical (.num value)
  | str (value : String) : Canonical (.str value)
  | arr {items : List Json} (hitems : ∀ item ∈ items, Canonical item) : Canonical (.arr items)
  | obj {fields : List (String × Json)} (hsorted : Fields.Sorted fields)
      (hfields : ∀ field ∈ fields, Canonical field.2) : Canonical (.obj fields)

/-- A table of canonical values. -/
def Table.Canonical (table : Table Json) : Prop := ∀ field ∈ table.fields, field.2.Canonical

theorem Table.canonical_empty : (empty : Table Json).Canonical := by
  intro field hfield
  cases hfield

/-- A table made of canonical values is canonical. -/
theorem Table.canonical_ofList {fields : List (String × Json)}
    (h : ∀ field ∈ fields, field.2.Canonical) : (ofList fields).Canonical :=
  fun _ hfield => h _ (mem_of_mem_ofList hfield)

namespace Document

/-! ## What is read is canonical -/

mutual

/-- The value of a document is canonical. -/
theorem canonical_of_toJson? : (document : Document) → {value : Json} →
    document.toJson? = some value → value.Canonical
  | .null, _, h => by
    cases h
    exact .null
  | .bool value, _, h => by
    cases h
    exact .bool value
  | .num value, _, h => by
    obtain ⟨number, -, rfl⟩ := Option.map_eq_some_iff.mp h
    exact .num number
  | .str value, _, h => by
    obtain ⟨text, -, rfl⟩ := Option.map_eq_some_iff.mp h
    exact .str text
  | .arr items, _, h => by
    rw [toJson?] at h
    obtain ⟨values, hvalues, rfl⟩ := Option.map_eq_some_iff.mp h
    exact .arr (canonical_of_itemsToJson? items hvalues)
  | .obj fields, _, h => by
    rw [toJson?] at h
    obtain ⟨values, hvalues, rfl⟩ := Option.map_eq_some_iff.mp h
    exact .obj (Table.ofList values).sorted
      (Table.canonical_ofList (canonical_of_fieldsToJson? fields hvalues))
  | .deep, _, h => by cases h

/-- The values of the items of an array are canonical. -/
theorem canonical_of_itemsToJson? : (items : List Document) → {values : List Json} →
    itemsToJson? items = some values → ∀ value ∈ values, value.Canonical
  | [], _, h => by
    cases h
    simp
  | item :: rest, _, h => by
    rw [itemsToJson?] at h
    split at h
    · next value values hvalue hvalues =>
      cases h
      exact List.forall_mem_cons.mpr
        ⟨canonical_of_toJson? item hvalue, canonical_of_itemsToJson? rest hvalues⟩
    · cases h

/-- The values of the fields of an object are canonical. -/
theorem canonical_of_fieldsToJson? : (fields : List (Option String × Document)) →
    {values : List (String × Json)} → fieldsToJson? fields = some values →
      ∀ field ∈ values, field.2.Canonical
  | [], _, h => by
    cases h
    simp
  | (none, _) :: _, _, h => by cases h
  | (some key, item) :: rest, _, h => by
    unfold fieldsToJson? at h
    split at h
    · next value values hvalue hvalues =>
      cases h
      exact List.forall_mem_cons.mpr
        ⟨canonical_of_toJson? item hvalue, canonical_of_fieldsToJson? rest hvalues⟩
    · cases h

end

/-- A table that is read holds canonical values. -/
theorem canonical_of_table? {document : Document} {table : Table Json}
    (h : document.table? = some table) : table.Canonical := by
  cases document with
  | obj fields =>
      obtain ⟨values, hvalues, rfl⟩ := Option.map_eq_some_iff.mp h
      exact Table.canonical_ofList (canonical_of_fieldsToJson? fields hvalues)
  | _ => cases h

/-! ## What is canonical is read back -/

/-- Items that come back one by one come back together. -/
theorem itemsToJson?_itemsToDocument {items : List Json}
    (h : ∀ item ∈ items, item.toDocument.toJson? = some item) :
    itemsToJson? (Json.itemsToDocument items) = some items := by
  induction items with
  | nil => rfl
  | cons item rest ih =>
      obtain ⟨hitem, hrest⟩ := List.forall_mem_cons.mp h
      simp only [Json.itemsToDocument, itemsToJson?, hitem, ih hrest]

/-- Fields that come back one by one come back together, under their keys. -/
theorem fieldsToJson?_fieldsToDocument {fields : List (String × Json)}
    (h : ∀ field ∈ fields, field.2.toDocument.toJson? = some field.2) :
    fieldsToJson? (Json.fieldsToDocument fields) = some fields := by
  induction fields with
  | nil => rfl
  | cons field rest ih =>
      obtain ⟨hfield, hrest⟩ := List.forall_mem_cons.mp h
      obtain ⟨key, value⟩ := field
      simp only [Json.fieldsToDocument, fieldsToJson?, hfield, ih hrest]

/-- **The canonical values are those that survive being written and read.** -/
theorem toJson?_toDocument_iff {value : Json} :
    value.toDocument.toJson? = some value ↔ value.Canonical := by
  constructor
  · exact canonical_of_toJson? value.toDocument
  · intro h
    induction h with
    | null => rfl
    | bool value => rfl
    | num value => rfl
    | str value => rfl
    | arr _ ih =>
        rw [Json.toDocument, toJson?, itemsToJson?_itemsToDocument ih]
        rfl
    | @obj fields hsorted _ ih =>
        have hsame : Table.ofList fields = ⟨fields, hsorted⟩ :=
            Table.ofList_fields ⟨fields, hsorted⟩
        rw [Json.toDocument, toJson?, fieldsToJson?_fieldsToDocument ih, Option.map_some,
          Json.object, hsame]

/-- A table of canonical values is read back from its object. -/
theorem table?_ofTable {table : Table Json} (h : table.Canonical) :
    (Json.ofTable table).toDocument.table? = some table := by
  have hfields : fieldsToJson? (Json.fieldsToDocument table.fields) = some table.fields :=
    fieldsToJson?_fieldsToDocument fun field hfield => toJson?_toDocument_iff.mpr (h field hfield)
  rw [Json.ofTable, Json.toDocument, table?, hfields, Option.map_some, Table.ofList_fields]

end Document

end FlowGraph
