/-!
# Tables keyed by text

A table maps texts to values.  It is kept as a list of fields in strictly
increasing order of keys, so two tables are equal exactly when every key has
the same value in both; nothing about the order of past writes can be seen.

* `Fields.get?_insert`: one write changes one key.
* `Fields.get?_override`: writing a list of fields over another one.
* `Table.ext_get?`: **extensionality**, tables are their look-ups.
* `Table.get?_insert`, `Table.get?_ofList`: what the operations do to look-ups.
-/

namespace FlowGraph

/-! ## Lists of fields -/

namespace Fields

variable {α : Type}

/-- The value of the first field with the given key. -/
def get? (key : String) : List (String × α) → Option α
  | [] => none
  | (k, v) :: rest => if k = key then some v else get? key rest

/-- Write one field: in front of the first larger key, or in place of an equal one. -/
def insert (key : String) (value : α) : List (String × α) → List (String × α)
  | [] => [(key, value)]
  | (k, v) :: rest =>
    if key < k then (key, value) :: (k, v) :: rest
    else if key = k then (key, value) :: rest
    else (k, v) :: insert key value rest

/-- Write every field of `patch` over `base`; of two fields of `patch` with one
key the first counts, as it does for a look-up. -/
def override (base patch : List (String × α)) : List (String × α) :=
  patch.foldr (fun field fields => insert field.1 field.2 fields) base

/-- Strictly increasing order of keys, hence no key twice. -/
def Sorted (fields : List (String × α)) : Prop :=
  (fields.map Prod.fst).Pairwise (· < ·)

instance (fields : List (String × α)) : Decidable (Sorted fields) :=
  inferInstanceAs (Decidable ((fields.map Prod.fst).Pairwise (· < ·)))

/-- In the empty list nothing is found. -/
@[simp] theorem get?_nil (key : String) : get? key ([] : List (String × α)) = none := rfl

/-- A look-up in a list that starts with a field. -/
theorem get?_cons (key k : String) (v : α) (rest : List (String × α)) :
    get? key ((k, v) :: rest) = if k = key then some v else get? key rest := rfl

/-- **One write changes one key**, whatever list it goes to. -/
theorem get?_insert (key k : String) (v : α) (fields : List (String × α)) :
    get? key (insert k v fields) = if k = key then some v else get? key fields := by
  induction fields with
  | nil => rfl
  | cons field rest ih =>
      obtain ⟨k', v'⟩ := field
      simp only [insert]
      split
      · simp [get?_cons]
      · split
        · next heq =>
            subst heq
            simp only [get?_cons]
            split <;> rfl
        · next hne =>
            simp only [get?_cons, ih]
            grind

/-- Writing a list of fields over another: its own look-ups come first. -/
theorem get?_override (key : String) (base patch : List (String × α)) :
    get? key (override base patch) = (get? key patch).or (get? key base) := by
  induction patch with
  | nil => simp [override]
  | cons field rest ih =>
      obtain ⟨k, v⟩ := field
      simp only [override, List.foldr_cons] at ih ⊢
      rw [get?_insert, get?_cons]
      split
      · rfl
      · exact ih

/-- The empty list is in order. -/
theorem sorted_nil : Sorted ([] : List (String × α)) := List.Pairwise.nil

/-- A list is in order iff its first key is below the others and the rest is. -/
theorem sorted_cons {k : String} {v : α} {rest : List (String × α)} :
    Sorted ((k, v) :: rest) ↔ (∀ field ∈ rest, k < field.1) ∧ Sorted rest := by
  simp [Sorted, List.pairwise_cons, List.mem_map]

/-- A written field is the new one or an old one. -/
theorem mem_insert {field : String × α} {k : String} {v : α} {fields : List (String × α)}
    (h : field ∈ insert k v fields) : field = (k, v) ∨ field ∈ fields := by
  induction fields with
  | nil => simpa [insert] using h
  | cons head rest ih =>
      simp only [insert] at h
      split at h
      · exact List.mem_cons.mp h
      · split at h
        · rcases List.mem_cons.mp h with hnew | hold
          · exact Or.inl hnew
          · exact Or.inr (List.mem_cons_of_mem _ hold)
        · rcases List.mem_cons.mp h with hhead | hrest
          · exact Or.inr (List.mem_cons.mpr (Or.inl hhead))
          · exact (ih hrest).imp_right (List.mem_cons_of_mem _)

/-- A write keeps the order of keys. -/
theorem sorted_insert (k : String) (v : α) {fields : List (String × α)}
    (h : Sorted fields) : Sorted (insert k v fields) := by
  induction fields with
  | nil => simp [insert, Sorted]
  | cons head rest ih =>
      obtain ⟨k', v'⟩ := head
      obtain ⟨hbelow, hrest⟩ := sorted_cons.mp h
      simp only [insert]
      split
      · next hlt =>
          refine sorted_cons.mpr ⟨fun field hmem => ?_, h⟩
          rcases List.mem_cons.mp hmem with rfl | hmem
          · exact hlt
          · exact String.lt_trans hlt (hbelow field hmem)
      · split
        · next heq =>
            subst heq
            exact sorted_cons.mpr ⟨hbelow, hrest⟩
        · next hge hne =>
            refine sorted_cons.mpr ⟨fun field hmem => ?_, ih hrest⟩
            rcases mem_insert hmem with rfl | hmem
            · grind
            · exact hbelow field hmem

/-- Writing fields over a list in order leaves it in order. -/
theorem sorted_override {base : List (String × α)} (patch : List (String × α))
    (h : Sorted base) : Sorted (override base patch) := by
  induction patch with
  | nil => exact h
  | cons field rest ih => exact sorted_insert field.1 field.2 ih

/-- A key that no field has is not found. -/
theorem get?_eq_none_of_forall {key : String} {fields : List (String × α)}
    (h : ∀ field ∈ fields, field.1 ≠ key) : get? key fields = none := by
  induction fields with
  | nil => rfl
  | cons head rest ih =>
      rw [get?_cons, if_neg (h head List.mem_cons_self)]
      exact ih fun field hmem => h field (List.mem_cons_of_mem _ hmem)

/-- A key is not found iff no field has it. -/
theorem get?_eq_none_iff {key : String} {fields : List (String × α)} :
    get? key fields = none ↔ ∀ field ∈ fields, field.1 ≠ key := by
  constructor
  · intro h
    induction fields with
    | nil => simp
    | cons field rest ih =>
        rw [get?_cons] at h
        split at h
        · cases h
        · next hne => exact List.forall_mem_cons.mpr ⟨hne, ih h⟩
  · exact get?_eq_none_of_forall

/-- A look-up in two lists one after the other: the first comes first. -/
theorem get?_append (key : String) (front back : List (String × α)) :
    get? key (front ++ back) = (get? key front).or (get? key back) := by
  induction front with
  | nil => simp
  | cons field rest ih =>
      rw [List.cons_append, get?_cons, get?_cons, ih]
      split <;> rfl

/-- A key below all keys of a list is not found there. -/
theorem get?_eq_none_of_above {key : String} {fields : List (String × α)}
    (h : ∀ field ∈ fields, key < field.1) : get? key fields = none := by
  refine get?_eq_none_of_forall fun field hmem heq => ?_
  have hlt := h field hmem
  rw [heq] at hlt
  exact String.lt_irrefl key hlt

/-- A value that is found stands in a field of the list. -/
theorem mem_of_get? {key : String} {value : α} {fields : List (String × α)}
    (h : get? key fields = some value) : (key, value) ∈ fields := by
  induction fields with
  | nil => cases h
  | cons head rest ih =>
      obtain ⟨k, v⟩ := head
      rw [get?_cons] at h
      split at h
      · next heq =>
          subst heq
          cases h
          exact List.mem_cons_self
      · exact List.mem_cons_of_mem _ (ih h)

/-- Where no key comes up twice, every field is found under its key. -/
theorem get?_of_mem_of_nodup {key : String} {value : α} {fields : List (String × α)}
    (hdistinct : (fields.map Prod.fst).Nodup) (h : (key, value) ∈ fields) :
    get? key fields = some value := by
  induction fields with
  | nil => cases h
  | cons head rest ih =>
      obtain ⟨k, v⟩ := head
      obtain ⟨hfresh, hrest⟩ := List.nodup_cons.mp hdistinct
      rw [get?_cons]
      rcases List.mem_cons.mp h with heq | hmem
      · cases heq
        rw [if_pos rfl]
      · have hne : k ≠ key := by
          rintro rfl
          exact hfresh (List.mem_map.mpr ⟨_, hmem, rfl⟩)
        rw [if_neg hne]
        exact ih hrest hmem

/-- In a list in order no key comes up twice. -/
theorem Sorted.nodup {fields : List (String × α)} (h : Sorted fields) :
    (fields.map Prod.fst).Nodup := by
  refine List.Pairwise.imp ?_ h
  rintro a b hlt rfl
  exact String.lt_irrefl a hlt

/-- In a list in order every field is found under its key. -/
theorem get?_of_mem {key : String} {value : α} {fields : List (String × α)}
    (hsorted : Sorted fields) (h : (key, value) ∈ fields) : get? key fields = some value :=
  get?_of_mem_of_nodup hsorted.nodup h

/-- **Extensionality**: lists in order with the same look-ups are the same list. -/
theorem eq_of_get? {s t : List (String × α)} (hs : Sorted s) (ht : Sorted t)
    (h : ∀ key, get? key s = get? key t) : s = t := by
  induction s generalizing t with
  | nil =>
      cases t with
      | nil => rfl
      | cons head rest =>
          have hfound := h head.1
          rw [get?_cons head.1 head.1 head.2 rest, if_pos rfl] at hfound
          cases hfound
  | cons head rest ih =>
      obtain ⟨k, v⟩ := head
      cases t with
      | nil =>
          have hfound := h k
          rw [get?_cons, if_pos rfl] at hfound
          cases hfound
      | cons head' rest' =>
          obtain ⟨k', v'⟩ := head'
          obtain ⟨hbelow, hrest⟩ := sorted_cons.mp hs
          obtain ⟨hbelow', hrest'⟩ := sorted_cons.mp ht
          have hleft : (k', v') ∈ (k, v) :: rest :=
            mem_of_get? (by rw [h k', get?_cons, if_pos rfl])
          have hright : (k, v) ∈ (k', v') :: rest' :=
            mem_of_get? (by rw [← h k, get?_cons, if_pos rfl])
          -- each head is in the other list, and both are the smallest there
          have hsame : (k, v) = (k', v') := by
            rcases List.mem_cons.mp hleft with heq | hmem
            · exact heq.symm
            · rcases List.mem_cons.mp hright with heq | hmem'
              · exact heq
              · have hlt := String.lt_trans (hbelow _ hmem) (hbelow' _ hmem')
                exact absurd hlt (String.lt_irrefl k)
          cases hsame
          refine congrArg (List.cons (k, v)) (ih hrest hrest' fun key => ?_)
          have hkey := h key
          rw [get?_cons, get?_cons] at hkey
          by_cases heq : k = key
          · subst heq
            rw [get?_eq_none_of_above hbelow, get?_eq_none_of_above hbelow']
          · rwa [if_neg heq, if_neg heq] at hkey

end Fields

/-! ## Tables -/

/-- A map from texts to values, its fields in strictly increasing order of keys. -/
structure Table (α : Type) where
  /-- The fields, smallest key first. -/
  fields : List (String × α)
  /-- The keys increase strictly. -/
  sorted : Fields.Sorted fields
deriving DecidableEq

namespace Table

variable {α : Type}

/-- The table without entries. -/
def empty : Table α := ⟨[], Fields.sorted_nil⟩

instance : EmptyCollection (Table α) := ⟨empty⟩

instance : Inhabited (Table α) := ⟨empty⟩

/-- The value of a key, if it has one. -/
def get? (table : Table α) (key : String) : Option α := Fields.get? key table.fields

/-- Whether a key has a value. -/
def contains (table : Table α) (key : String) : Bool := (table.get? key).isSome

/-- The table with one key set to a value. -/
def insert (table : Table α) (key : String) (value : α) : Table α :=
  ⟨Fields.insert key value table.fields, Fields.sorted_insert key value table.sorted⟩

/-- The table of a list of fields; of two fields with one key the later counts. -/
def ofList (fields : List (String × α)) : Table α :=
  fields.foldl (fun table field => table.insert field.1 field.2) empty

/-- The keys, smallest first. -/
def keys (table : Table α) : List String := table.fields.map Prod.fst

/-- The number of keys. -/
def size (table : Table α) : Nat := table.fields.length

/-- Whether no key has a value. -/
def isEmpty (table : Table α) : Bool := table.fields.isEmpty

/-- **Extensionality**: a table is determined by its look-ups. -/
theorem ext_get? {s t : Table α} (h : ∀ key, s.get? key = t.get? key) : s = t := by
  obtain ⟨fields, hsorted⟩ := s
  obtain ⟨fields', hsorted'⟩ := t
  have hfields : fields = fields' := Fields.eq_of_get? hsorted hsorted' h
  subst hfields
  rfl

/-- The empty table has no values. -/
@[simp] theorem get?_empty (key : String) : (empty : Table α).get? key = none := rfl

/-- One write changes one key. -/
theorem get?_insert (table : Table α) (k : String) (v : α) (key : String) :
    (table.insert k v).get? key = if k = key then some v else table.get? key :=
  Fields.get?_insert key k v table.fields

/-- A field stands in the table iff its key has its value. -/
theorem mem_fields_iff (table : Table α) (key : String) (value : α) :
    (key, value) ∈ table.fields ↔ table.get? key = some value :=
  ⟨Fields.get?_of_mem table.sorted, Fields.mem_of_get?⟩

/-- Keys are listed once. -/
theorem keys_nodup (table : Table α) : table.keys.Nodup := table.sorted.nodup

/-- The last field with a key counts. -/
theorem get?_foldl_insert (fields : List (String × α)) (table : Table α) (key : String) :
    (fields.foldl (fun table field => table.insert field.1 field.2) table).get? key =
      (Fields.get? key fields.reverse).or (table.get? key) := by
  induction fields generalizing table with
  | nil => simp
  | cons field rest ih =>
      obtain ⟨k, v⟩ := field
      rw [List.foldl_cons, ih, List.reverse_cons, Fields.get?_append, Fields.get?_cons,
        get?_insert]
      cases Fields.get? key rest.reverse with
      | some value => rfl
      | none =>
          simp only [Option.none_or, Fields.get?_nil]
          split <;> rfl

/-- In the table of a list the last field with a key counts. -/
theorem get?_ofList (fields : List (String × α)) (key : String) :
    (ofList fields).get? key = Fields.get? key fields.reverse := by
  simp [ofList, get?_foldl_insert]

end Table

end FlowGraph
