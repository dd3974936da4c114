import FlowGraph.Proofs.Canonical
import FlowGraph.Proofs.Independence
import FlowGraph.Proofs.StoreGrowth

/-!
# Updates

The entries of an update are written one after the other, and nothing is said
about which comes first.  Nothing can be: an entry reads and writes its own key
only, and no two entries have one key.  So at every moment of the loop a key
holds what it held before or what it will hold at the end.

* `get?_writeAll_visited`: **what the loop has done at any moment.**
* `writeAll_eq_update`: whatever the order, the store at the end is the same.
* `update_is_pointwise_and_order_free`: the laws of updates.
-/

namespace FlowGraph

/-- A key that is not among the keys is not found. -/
theorem Fields.get?_eq_none_of_notMem {α : Type} {fields : List (String × α)} {key : String}
    (h : key ∉ fields.map Prod.fst) : get? key fields = none :=
  get?_eq_none_of_forall fun _ hfield hsame => h (hsame ▸ List.mem_map_of_mem hfield)

namespace Store

variable {keys : KeyTable} {store : Store} {u : Update}

/-- **Every entry is written once and for all.**  When some entries of an update
have been visited, in any order, their keys hold what they hold after the whole
update, and the other keys what they held before. -/
theorem get?_writeAll_visited {visited rest : List (String × Json)}
    (h : (visited ++ rest).Perm u.fields) (key : String) :
    Table.get? (writeAll keys store visited) key =
      if key ∈ visited.map Prod.fst then Table.get? (update keys store u) key
      else Table.get? store key := by
  have hdistinct : ((visited ++ rest).map Prod.fst).Nodup :=
    (h.map Prod.fst).nodup_iff.mpr (Table.keys_nodup u)
  rw [List.map_append] at hdistinct
  have hvisited : (visited.map Prod.fst).Nodup := (List.nodup_append.mp hdistinct).1
  rw [get?_writeAll keys store hvisited]
  by_cases hkey : key ∈ visited.map Prod.fst
  · obtain ⟨⟨key, value⟩, hentry, rfl⟩ := List.mem_map.mp hkey
    have hu : Table.get? u key = some value :=
      (Table.mem_fields_iff u key value).mp (h.mem_iff.mp (List.mem_append_left rest hentry))
    rw [if_pos hkey, get?_update, hu, Fields.get?_of_mem_of_nodup hvisited hentry]
  · rw [if_neg hkey, Fields.get?_eq_none_of_notMem hkey]

/-- **The order of the entries does not decide.** -/
theorem writeAll_eq_update {visit : List (String × Json)} (h : visit.Perm u.fields) :
    writeAll keys store visit = update keys store u := by
  have hall : (visit ++ []).Perm u.fields := by rwa [List.append_nil]
  refine Table.ext_get? fun key => ?_
  rw [get?_writeAll_visited hall]
  by_cases hkey : key ∈ visit.map Prod.fst
  · rw [if_pos hkey]
  · have hnone : Table.get? u key = none :=
      Fields.get?_eq_none_of_notMem fun hmem => hkey ((h.map Prod.fst).mem_iff.mpr hmem)
    rw [if_neg hkey, get?_update, hnone]

/-- **An update is pointwise and free of order.**  In whatever order its entries
are visited, the store at the end is the same: a key of the update holds what
its rule, or replacing if it has none, makes of the old value, if there is one,
and the new one; every other key holds what it held.  Updates without a common
key can change places.  And what an update makes of the empty store, used as an
update of the empty store once more, gives itself, under all rules. -/
theorem update_is_pointwise_and_order_free (keys : KeyTable) (store : Store) (u : Update) :
    (∀ visit : List (String × Json), visit.Perm u.fields →
        writeAll keys store visit = update keys store u) ∧
      (∀ key, Table.get? (update keys store u) key =
        match Table.get? u key with
        | some value =>
          some (((Table.get? keys key).getD .replace).apply (Table.get? store key) value)
        | none => Table.get? store key) ∧
      (∀ (keys' : KeyTable) (v : Update), Table.Apart u v →
        update keys' (update keys store u) v = update keys (update keys' store v) u) ∧
      update keys .empty (update keys .empty u) = update keys .empty u := by
  refine ⟨fun _ => writeAll_eq_update, get?_update keys store u, ?_, enter_enter keys u⟩
  intro keys' v hapart
  exact update_comm hapart keys keys' store

/-- A page of a diary: lines are added, the weather is filled in, the rest is written anew. -/
def diaryKeys : KeyTable := .ofList [("lines", .append), ("weather", .merge)]

/-- The page in the morning. -/
def morning : Store :=
  .ofList [("lines", .str "got up"), ("weather", .obj [("sky", .str "grey")]), ("mood", .null)]

/-- What the day brings. -/
def day : Update :=
  .ofList [("lines", .arr [.str "rowed", .str "slept"]), ("weather", .obj [("wind", .bool true)]),
    ("mood", .str "calm")]

/-- What is noted beside it. -/
def margin : Update := .ofList [("page", .num (.integer 7))]

/-- The page in the evening. -/
def evening : Store :=
  .ofList [("lines", .arr [.str "got up", .str "rowed", .str "slept"]),
    ("weather", .obj [("sky", .str "grey"), ("wind", .bool true)]), ("mood", .str "calm")]

/-- The day can be written down from its end, and the margin before it or after it. -/
theorem reversed_update_comes_to_the_same :
    day.fields.reverse.Perm day.fields ∧ Table.Apart day margin ∧
      writeAll diaryKeys morning day.fields.reverse = evening ∧
      update .empty (update diaryKeys morning day) margin =
        update diaryKeys (update .empty morning margin) day ∧
      update diaryKeys .empty (update diaryKeys .empty day) = update diaryKeys .empty day := by
  have hreverse : day.fields.reverse.Perm day.fields := List.reverse_perm _
  have hapart : Table.Apart day margin := by
    intro key
    by_cases hkey : key = "page"
    · left
      rw [hkey]
      rfl
    · right
      refine Fields.get?_eq_none_of_notMem fun hmem => hkey ?_
      exact List.mem_singleton.mp hmem
  obtain ⟨hvisit, -, hcomm, hagain⟩ := update_is_pointwise_and_order_free diaryKeys morning day
  have hevening : update diaryKeys morning day = evening := by decide
  exact ⟨hreverse, hapart, (hvisit _ hreverse).trans hevening, hcomm .empty margin hapart, hagain⟩

end Store

end FlowGraph
