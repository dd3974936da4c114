import FlowGraph.Proofs.Canonical
import FlowGraph.Stored

/-!
# What stored forms keep

Six types of values have stored forms.  Five of them are records: their fields
are written as one object, and are read from any object that has them, in any
order and among whatever other fields.  A field that is not there is at its
default, if it has one; otherwise nothing can be read.

* `Document.Shows`: an object with the fields of a record, some of them left
  out, in any order and among others.
* `Form.StoresRecords`: what is asked of the form of a record.
* `stored_forms_are_kept`: **all six forms give back what they are given.**
-/

namespace FlowGraph

/-- The value of a field that is given; one that is omitted is at its default. -/
def Stored.given {α : Type} (omitted : List String) (name : String) (value absent : α) : α :=
  if name ∈ omitted then absent else value

namespace Document

/-! ## Records among other fields -/

/-- **An object that shows a record**: it has the fields of the record, but for
the omitted ones, each once and in any order; whatever else it has has other
names. -/
def Shows (document : Document) (fields : List (String × Json)) (omitted : List String) : Prop :=
  ∃ members : List (String × Document),
    document = .obj (members.map fun member => (some member.1, member.2)) ∧
      (members.filter fun member => (fields.map Prod.fst).contains member.1).Perm
        ((fields.filter fun field => !omitted.contains field.1).map fun field =>
          (field.1, field.2.toDocument))

/-- A record that was read by name and has the given fields, but for the omitted
ones. -/
structure Record.Shows (record : Record) (fields : List (String × Json)) (omitted : List String) :
    Prop where
  named : record.positional = false
  given : ∀ name value, (name, value) ∈ fields → name ∉ omitted →
    Fields.get? name record.fields = some value.toDocument
  lacking : ∀ name ∈ omitted, Fields.get? name record.fields = none

variable {document : Document} {fields : List (String × Json)} {omitted : List String}

/-- The object that a record is written as shows all of it. -/
theorem shows_object (hdistinct : (fields.map Prod.fst).Nodup) :
    (Json.object fields).toDocument.Shows fields [] := by
  have hperm := Table.fields_ofList_perm hdistinct
  refine ⟨(Table.ofList fields).fields.map fun field => (field.1, field.2.toDocument), ?_, ?_⟩
  · rw [Json.object, Json.toDocument, Json.fieldsToDocument_eq, List.map_map]
    rfl
  · have hknown : ∀ member ∈ (Table.ofList fields).fields.map fun field =>
        (field.1, field.2.toDocument), (fields.map Prod.fst).contains member.1 = true := by
      intro member hmember
      obtain ⟨field, hfield, rfl⟩ := List.mem_map.mp hmember
      rw [List.contains_iff_mem]
      exact List.mem_map_of_mem (Table.mem_of_mem_ofList hfield)
    rw [List.filter_eq_self.mpr hknown]
    simpa using hperm.map _

/-- Members that have names are all named. -/
theorem mapM_named (members : List (String × Document)) :
    ((members.map fun member => ((some member.1, member.2) : Option String × Document)).mapM
      fun field => field.1.map fun key => (key, field.2)) = some members := by
  induction members with
  | nil => rfl
  | cons member rest ih =>
      rw [List.map_cons, List.mapM_cons, ih]
      rfl

/-- **An object that shows a record is read as that record**, by name. -/
theorem Shows.exists_record (h : document.Shows fields omitted) {names : List String}
    (hnames : fields.map Prod.fst = names) (hdistinct : names.Nodup) :
    ∃ record, document.record? names = some record ∧ record.Shows fields omitted := by
  subst hnames
  obtain ⟨members, rfl, hperm⟩ := h
  have hkept : (((fields.filter fun field => !omitted.contains field.1).map fun field =>
      (field.1, field.2.toDocument)).map Prod.fst).Nodup := by
    rw [List.map_map]
    exact (List.filter_sublist.map Prod.fst).nodup hdistinct
  have hknown := (hperm.map Prod.fst).nodup_iff.mpr hkept
  refine ⟨⟨false, members.filter fun member => (fields.map Prod.fst).contains member.1⟩, ?_,
    rfl, ?_, ?_⟩
  · simp only [record?, mapM_named, Option.bind_eq_bind, Option.bind_some, if_pos hknown]
  · intro name value hfield hname
    rw [Fields.get?_eq_of_perm hperm hkept, Fields.get?_eq_some_iff_of_nodup hkept]
    exact List.mem_map.mpr ⟨(name, value), List.mem_filter.mpr ⟨hfield, by simpa using hname⟩, rfl⟩
  · intro name hname
    rw [Fields.get?_eq_of_perm hperm hkept]
    refine Fields.get?_eq_none_of_forall ?_
    intro field hfield hsame
    obtain ⟨original, horiginal, rfl⟩ := List.mem_map.mp hfield
    have hleft := (List.mem_filter.mp horiginal).2
    rw [hsame] at hleft
    simp [hname] at hleft

namespace Record

variable {α : Type} {record : Record} {name : String} {value : Json} {read : Document → Option α}
  {result absent : α}

/-- A field that may be left out is at its default if it is. -/
theorem Shows.optional_eq (h : record.Shows fields omitted) (hfield : (name, value) ∈ fields)
    (hread : read value.toDocument = some result) :
    record.optional name read absent = some (Stored.given omitted name result absent) := by
  unfold optional Stored.given
  by_cases hname : name ∈ omitted
  · rw [h.lacking name hname, if_pos hname]
  · rw [h.given name value hfield hname, if_neg hname]
    exact hread

/-- A field that is shown is read from the document of its value. -/
theorem Shows.required_eq (h : record.Shows fields omitted) (hfield : (name, value) ∈ fields)
    (hname : name ∉ omitted) : record.required name read = read value.toDocument := by
  unfold required
  rw [h.given name value hfield hname, Option.bind_some]

/-- A field that must be given leaves nothing to read if it is not. -/
theorem Shows.required_eq_none (h : record.Shows fields omitted) (hname : name ∈ omitted) :
    record.required name read = none := by
  unfold required
  rw [h.lacking name hname, Option.bind_none]

/-- What an optional field gives is its default, or was read. -/
theorem eq_or_read_of_optional (h : record.optional name read absent = some result) :
    result = absent ∨ ∃ document, read document = some result := by
  unfold optional at h
  cases hfound : Fields.get? name record.fields with
  | none =>
      simp only [hfound, Option.some.injEq] at h
      exact Or.inl h.symm
  | some document =>
      simp only [hfound] at h
      exact Or.inr ⟨document, h⟩

/-- A required field that can be read is there to be read. -/
theorem read_of_required (h : record.required name read = some result) :
    ∃ document, read document = some result := by
  obtain ⟨document, -, hread⟩ := Option.bind_eq_some_iff.mp h
  exact ⟨document, hread⟩

end Record

end Document

namespace Stored

/-! ## Plain values -/

/-- A list of texts is given back. -/
theorem texts?_encode (values : List String) :
    (Json.arr (values.map .str)).toDocument.texts? = some values := by
  rw [Json.toDocument, Json.itemsToDocument_eq, List.map_map, Document.texts?]
  induction values with
  | nil => rfl
  | cons value rest ih =>
      rw [List.map_cons, List.mapM_cons, ih]
      rfl

/-- A number of 64 bits is given back. -/
theorem natural?_encode {value : Nat} (h : value ≤ 0xFFFFFFFFFFFFFFFF) :
    (Json.num (.integer value)).toDocument.natural? = some value := by
  have hrange : (0 : Int) ≤ value ∧ (value : Int) ≤ 0xFFFFFFFFFFFFFFFF := by omega
  rw [Json.toDocument, Document.natural?, Document.integerIn?, if_pos hrange]
  rfl

/-- A number that can be read has 64 bits. -/
theorem le_of_natural? {document : Document} {value : Nat} (h : document.natural? = some value) :
    value ≤ 0xFFFFFFFFFFFFFFFF := by
  obtain ⟨integer, hinteger, rfl⟩ := Option.map_eq_some_iff.mp h
  unfold Document.integerIn? at hinteger
  split at hinteger
  · split at hinteger
    · next hrange =>
      cases hinteger
      omega
    · cases hinteger
  · cases hinteger

/-- A text that may be missing is given back. -/
theorem optionalText?_encode (value : Option String) :
    (encodeText value).toDocument.optionalText? = some value := by
  cases value <;> rfl

/-- A table that may be left out holds canonical values, left out or not. -/
theorem canonical_of_optional {record : Document.Record} {name : String} {table : Table Json}
    (h : record.optional name Document.table? .empty = some table) : table.Canonical := by
  rcases Document.Record.eq_or_read_of_optional h with rfl | ⟨document, hread⟩
  · exact Table.canonical_empty
  · exact Document.canonical_of_table? hread

/-! ## Records -/

/-- **What is asked of the form of a record**: the values that it can give are
the valid ones; a valid value is given back; and an object that shows the record
without some of its fields gives the value with these fields at their defaults,
or nothing if one of them has no default. -/
structure Form.StoresRecords {α : Type} (form : Form α) (Valid : α → Prop)
    (fields : α → List (String × Json)) (required : List String)
    (without : List String → α → α) : Prop where
  encode : ∀ value, form.encode value = .object (fields value)
  sound : ∀ document value, form.decode document = some value → Valid value
  roundTrip : ∀ value, Valid value → form.ofJson? (form.encode value) = some value
  shown : ∀ value, Valid value → ∀ omitted document, document.Shows (fields value) omitted →
    (∀ name ∈ required, name ∉ omitted) → form.decode document = some (without omitted value)
  lacking : ∀ value omitted document, document.Shows (fields value) omitted →
    (∃ name ∈ required, name ∈ omitted) → form.decode document = none

/-- A form stores records if it reads them as records with its own fields. -/
theorem Form.storesRecords {α : Type} {form : Form α} {Valid : α → Prop}
    {fields : α → List (String × Json)} {required names : List String}
    {without : List String → α → α} {read : Document.Record → Option α}
    (hencode : ∀ value, form.encode value = .object (fields value))
    (hdecode : ∀ document, form.decode document = (Document.record? names document).bind read)
    (hnames : ∀ value, (fields value).map Prod.fst = names) (hdistinct : names.Nodup)
    (hwhole : ∀ value, without [] value = value)
    (hsound : ∀ record value, read record = some value → Valid value)
    (hshown : ∀ value omitted record, Valid value →
      Document.Record.Shows record (fields value) omitted →
        (∀ name ∈ required, name ∉ omitted) → read record = some (without omitted value))
    (hlacking : ∀ value omitted record, Document.Record.Shows record (fields value) omitted →
      (∃ name ∈ required, name ∈ omitted) → read record = none) :
    form.StoresRecords Valid fields required without := by
  have hall : ∀ value, Valid value → ∀ omitted document,
      document.Shows (fields value) omitted → (∀ name ∈ required, name ∉ omitted) →
        form.decode document = some (without omitted value) := by
    intro value hvalid omitted document hshows hgiven
    obtain ⟨record, hrecord, hrecorded⟩ := hshows.exists_record (hnames value) hdistinct
    rw [hdecode, hrecord]
    exact hshown value omitted record hvalid hrecorded hgiven
  refine ⟨hencode, ?_, ?_, hall, ?_⟩
  · intro document value hvalue
    rw [hdecode] at hvalue
    obtain ⟨record, -, hread⟩ := Option.bind_eq_some_iff.mp hvalue
    exact hsound record value hread
  · intro value hvalid
    have hobject : (Json.object (fields value)).toDocument.Shows (fields value) [] :=
      Document.shows_object (by rwa [hnames value])
    rw [ofJson?, hencode, hall value hvalid [] _ hobject (by simp), hwhole]
  · intro value omitted document hshows hmissing
    obtain ⟨record, hrecord, hrecorded⟩ := hshows.exists_record (hnames value) hdistinct
    rw [hdecode, hrecord]
    exact hlacking value omitted record hrecorded hmissing

/-- The fields of settings. -/
def settingsFields (value : Settings) : List (String × Json) :=
  [("enabled", .bool value.enabled), ("autoCompile", .bool value.autoCompile)]

/-- Settings with the omitted fields at their defaults. -/
def settingsWithout (omitted : List String) (value : Settings) : Settings where
  enabled := given omitted "enabled" value.enabled ({} : Settings).enabled
  autoCompile := given omitted "autoCompile" value.autoCompile ({} : Settings).autoCompile

/-- **The form of settings** keeps all of them. -/
theorem settings_storesRecords :
    settings.StoresRecords (fun _ => True) settingsFields [] settingsWithout := by
  refine Form.storesRecords (fun _ => rfl) (fun _ => rfl) (fun _ => rfl) (by decide)
    (fun _ => rfl) ?_ ?_ ?_
  · intro record value _
    trivial
  · intro value omitted record _ hshows _
    have henabled : record.optional "enabled" Document.bool? true = some _ :=
      hshows.optional_eq List.mem_cons_self rfl
    have hautoCompile : record.optional "autoCompile" Document.bool? true = some _ :=
      hshows.optional_eq (List.mem_cons_of_mem _ List.mem_cons_self) rfl
    simp only [henabled, hautoCompile, Option.bind_eq_bind, Option.bind_some]
    rfl
  · intro value omitted record _ hmissing
    simp at hmissing

/-- The fields of a compile config. -/
def compileConfigFields (value : CompileConfig) : List (String × Json) :=
  [("maxSteps", .num (.integer value.maxSteps)),
   ("interruptBefore", .arr (value.interruptBefore.map .str))]

/-- A compile config with the omitted fields at their defaults. -/
def compileConfigWithout (omitted : List String) (value : CompileConfig) : CompileConfig where
  maxSteps := given omitted "maxSteps" value.maxSteps ({} : CompileConfig).maxSteps
  interruptBefore :=
    given omitted "interruptBefore" value.interruptBefore ({} : CompileConfig).interruptBefore

/-- **The form of compile configs** keeps those with steps of 64 bits. -/
theorem compileConfig_storesRecords :
    compileConfig.StoresRecords (fun value => value.maxSteps ≤ 0xFFFFFFFFFFFFFFFF)
      compileConfigFields [] compileConfigWithout := by
  refine Form.storesRecords (fun _ => rfl) (fun _ => rfl) (fun _ => rfl) (by decide)
    (fun _ => rfl) ?_ ?_ ?_
  · intro record value h
    obtain ⟨maxSteps, hmaxSteps, h⟩ := Option.bind_eq_some_iff.mp h
    obtain ⟨interruptBefore, -, h⟩ := Option.bind_eq_some_iff.mp h
    cases h
    rcases Document.Record.eq_or_read_of_optional hmaxSteps with rfl | ⟨document, hread⟩
    · exact (by decide : 1000 ≤ 0xFFFFFFFFFFFFFFFF)
    · exact le_of_natural? hread
  · intro value omitted record hvalid hshows _
    have hmaxSteps : record.optional "maxSteps" Document.natural? 1000 = some _ :=
      hshows.optional_eq List.mem_cons_self (natural?_encode hvalid)
    have hinterruptBefore : record.optional "interruptBefore" Document.texts? [] = some _ :=
      hshows.optional_eq (List.mem_cons_of_mem _ List.mem_cons_self) (texts?_encode _)
    simp only [hmaxSteps, hinterruptBefore, Option.bind_eq_bind, Option.bind_some]
    rfl
  · intro value omitted record _ hmissing
    simp at hmissing

/-- The fields of a run config. -/
def runConfigFields (value : RunConfig) : List (String × Json) :=
  [("threadId", encodeText value.threadId), ("metadata", .ofTable value.metadata)]

/-- A run config with the omitted fields at their defaults. -/
def runConfigWithout (omitted : List String) (value : RunConfig) : RunConfig where
  threadId := given omitted "threadId" value.threadId ({} : RunConfig).threadId
  metadata := given omitted "metadata" value.metadata ({} : RunConfig).metadata

/-- **The form of run configs** keeps those with canonical metadata. -/
theorem runConfig_storesRecords :
    runConfig.StoresRecords (fun value => value.metadata.Canonical) runConfigFields []
      runConfigWithout := by
  refine Form.storesRecords (fun _ => rfl) (fun _ => rfl) (fun _ => rfl) (by decide)
    (fun _ => rfl) ?_ ?_ ?_
  · intro record value h
    -- the thread is read in two ways, the entries in one
    have hmetadata : record.optional "metadata" Document.table? .empty = some value.metadata := by
      split at h
      all_goals
        obtain ⟨threadId, -, h⟩ := Option.bind_eq_some_iff.mp h
        obtain ⟨metadata, hmetadata, h⟩ := Option.bind_eq_some_iff.mp h
        cases h
        exact hmetadata
    exact canonical_of_optional hmetadata
  · intro value omitted record hvalid hshows _
    have hthreadId : record.optional "threadId" Document.optionalText? none = some _ :=
      hshows.optional_eq List.mem_cons_self (optionalText?_encode _)
    have hmetadata : record.optional "metadata" Document.table? .empty = some _ :=
      hshows.optional_eq (List.mem_cons_of_mem _ List.mem_cons_self)
        (Document.table?_ofTable hvalid)
    simp only [hshows.named, hthreadId, hmetadata, Bool.false_eq_true, if_false,
      Option.bind_eq_bind, Option.bind_some]
    rfl
  · intro value omitted record _ hmissing
    simp at hmissing

/-- The fields of a decision. -/
def decisionFields (value : Decision) : List (String × Json) :=
  [("goto", .str value.goto), ("update", .ofTable value.update)]

/-- A decision with an omitted update at its default; the label has none. -/
def decisionWithout (omitted : List String) (value : Decision) : Decision where
  goto := value.goto
  update := given omitted "update" value.update ({ goto := value.goto } : Decision).update

/-- **The form of decisions** keeps those with canonical updates; the label is required. -/
theorem decision_storesRecords :
    decision.StoresRecords (fun value => value.update.Canonical) decisionFields ["goto"]
      decisionWithout := by
  refine Form.storesRecords (fun _ => rfl) (fun _ => rfl) (fun _ => rfl) (by decide)
    (fun _ => rfl) ?_ ?_ ?_
  · intro record value h
    obtain ⟨goto, -, h⟩ := Option.bind_eq_some_iff.mp h
    obtain ⟨update, hupdate, h⟩ := Option.bind_eq_some_iff.mp h
    cases h
    exact canonical_of_optional hupdate
  · intro value omitted record hvalid hshows hgiven
    have hgoto : record.required "goto" Document.text? = some value.goto :=
      hshows.required_eq List.mem_cons_self (hgiven "goto" List.mem_cons_self)
    have hupdate : record.optional "update" Document.table? .empty = some _ :=
      hshows.optional_eq (List.mem_cons_of_mem _ List.mem_cons_self)
        (Document.table?_ofTable hvalid)
    simp only [hgoto, hupdate, Option.bind_eq_bind, Option.bind_some]
    rfl
  · intro value omitted record hshows hmissing
    obtain ⟨name, hrequired, hname⟩ := hmissing
    rw [List.mem_singleton.mp hrequired] at hname
    simp only [hshows.required_eq_none hname, Option.bind_eq_bind, Option.bind_none]

/-- The fields of a store. -/
def storeFields (value : Store) : List (String × Json) := [("data", .ofTable value)]

/-- **The form of stores** keeps the canonical ones; the data are required. -/
theorem store_storesRecords :
    store.StoresRecords Table.Canonical storeFields ["data"] (fun _ value => value) := by
  refine Form.storesRecords (fun _ => rfl) (fun _ => rfl) (fun _ => rfl) (by decide)
    (fun _ => rfl) ?_ ?_ ?_
  · intro record value h
    obtain ⟨document, hread⟩ := Document.Record.read_of_required h
    exact Document.canonical_of_table? hread
  · intro value omitted record hvalid hshows hgiven
    have hdata : record.required "data" Document.table? = _ :=
      hshows.required_eq List.mem_cons_self (hgiven "data" List.mem_cons_self)
    exact hdata.trans (Document.table?_ofTable hvalid)
  · intro value omitted record hshows hmissing
    obtain ⟨name, hrequired, hname⟩ := hmissing
    rw [List.mem_singleton.mp hrequired] at hname
    exact hshows.required_eq_none hname

/-! ## All six forms -/

/-- **The stored forms give back what they are given.**  Settings, compile
configs, run configs, decisions and stores are stored as records: a value is
decoded from what it is encoded as, numbers of steps of 64 bits and canonical
values of any depth included; whatever fields with other names are added, the
result is the same; fields that are omitted are at their defaults, but without
the label of a decision or the data of a store nothing is decoded.  Write rules
are decoded from what they are encoded as. -/
theorem stored_forms_are_kept :
    settings.StoresRecords (fun _ => True) settingsFields [] settingsWithout ∧
      compileConfig.StoresRecords (fun value => value.maxSteps ≤ 0xFFFFFFFFFFFFFFFF)
        compileConfigFields [] compileConfigWithout ∧
      runConfig.StoresRecords (fun value => value.metadata.Canonical) runConfigFields []
        runConfigWithout ∧
      decision.StoresRecords (fun value => value.update.Canonical) decisionFields ["goto"]
        decisionWithout ∧
      store.StoresRecords Table.Canonical storeFields ["data"] (fun _ value => value) ∧
      ∀ rule, writeRule.ofJson? (writeRule.encode rule) = some rule := by
  refine ⟨settings_storesRecords, compileConfig_storesRecords, runConfig_storesRecords,
    decision_storesRecords, store_storesRecords, ?_⟩
  intro rule
  exact WriteRule.ofName?_name rule

/-- Fields that nobody knows may hold what is no value at all. -/
example : runConfig.decode (.obj [(some "color", .deep), (some "metadata", .obj
    [(some "tags", .arr [.null])]), (some "color", .str none)]) =
      some { metadata := .ofList [("tags", .arr [.null])] } := rfl

end Stored

end FlowGraph
