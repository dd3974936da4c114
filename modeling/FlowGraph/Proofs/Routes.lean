import FlowGraph.Scan
import Mathlib.Logic.Basic

/-!
# Where labels lead

A router's routes are written as one list, labels and destinations by turns.
`EdgeSpec.Leads` reads a label's destination off that list: it stands after the
label's last mention.

* `EdgeSpec.get?_routes_iff`: **the table of routes says the same.**
* `EdgeSpec.isEmpty_routes_eq_false_iff`: when there are routes at all.
-/

namespace FlowGraph

/-- Of two fields with one key the later counts, if they are read backwards. -/
theorem Fields.get?_reverse_eq_some_iff {α : Type} {key : String} {value : α}
    {fields : List (String × α)} :
    Fields.get? key fields.reverse = some value ↔
      ∃ i : Nat, fields[i]? = some (key, value) ∧
        ∀ j : Nat, i < j → ∀ other, fields[j]? ≠ some (key, other) := by
  induction fields with
  | nil => simp
  | cons field rest ih =>
      rw [List.reverse_cons, Fields.get?_append]
      cases hrest : Fields.get? key rest.reverse with
      | some found =>
          rw [hrest] at ih
          constructor
          · intro h
            obtain ⟨i, hi, hlast⟩ := ih.mp h
            refine ⟨i + 1, hi, ?_⟩
            intro j hj other
            obtain ⟨j, rfl⟩ : ∃ k, j = k + 1 := ⟨j - 1, by omega⟩
            exact hlast j (by omega) other
          · intro h
            obtain ⟨i, hi, hlast⟩ := h
            cases i with
            | succ i => exact ih.mpr ⟨i, hi, fun j hj => hlast (j + 1) (by omega)⟩
            | zero =>
                obtain ⟨i, hi⟩ := List.getElem?_of_mem (List.mem_reverse.mp (Fields.mem_of_get? hrest))
                exact absurd hi (hlast (i + 1) (by omega) found)
      | none =>
          have hfree := Fields.get?_eq_none_iff.mp hrest
          have hother : ∀ (j : Nat) other, rest[j]? ≠ some (key, other) := by
            intro j other hj
            exact hfree _ (List.mem_reverse.mpr (List.mem_of_getElem? hj)) rfl
          constructor
          · intro h
            refine ⟨0, ?_, ?_⟩
            · have hmem := Fields.mem_of_get? (h : Fields.get? key [field] = some value)
              rw [List.mem_singleton.mp hmem]
              rfl
            · intro j hj other
              obtain ⟨j, rfl⟩ : ∃ k, j = k + 1 := ⟨j - 1, by omega⟩
              exact hother j other
          · intro h
            obtain ⟨i, hi, -⟩ := h
            cases i with
            | succ i => exact absurd hi (hother i value)
            | zero =>
                cases hi
                exact if_pos rfl

/-! ## Where labels lead -/

/-- A label leads to the destination after its last mention. -/
def EdgeSpec.Leads (tag : EdgeSpec) (label target : String) : Prop :=
  ∃ i, tag.mappings[2 * i]? = some label ∧ tag.mappings[2 * i + 1]? = some target ∧
    ∀ j, i < j → tag.mappings[2 * j]? ≠ some label

/-- Neighbours are put together without a shift. -/
theorem getElem?_pairs (mappings : List String) (i : Nat) (label target : String) :
    (routesOf.pairs mappings)[i]? = some (label, target) ↔
      mappings[2 * i]? = some label ∧ mappings[2 * i + 1]? = some target := by
  induction mappings using routesOf.pairs.induct generalizing i with
  | case1 first second rest ih =>
      rw [routesOf.pairs]
      cases i with
      | zero => simp
      | succ i =>
          have hdouble : 2 * (i + 1) = 2 * i + 1 + 1 := by omega
          rw [hdouble]
          exact ih i
  | case2 mappings hshort =>
      have hpairs : routesOf.pairs mappings = [] := by
        unfold routesOf.pairs
        split
        · next first second rest => exact absurd rfl (hshort first second rest)
        · rfl
      have hlength : mappings.length ≤ 1 := by
        match mappings, hshort with
        | [], _ => exact Nat.zero_le 1
        | [_], _ => exact Nat.le_refl 1
        | first :: second :: rest, hshort => exact absurd rfl (hshort first second rest)
      rw [hpairs, List.getElem?_nil, List.getElem?_eq_none (by omega : mappings.length ≤ 2 * i + 1)]
      simp

/-- **The routes of a router are where its labels lead.** -/
theorem EdgeSpec.get?_routes_iff {tag : EdgeSpec} (heven : tag.mappings.length % 2 = 0)
    (label target : String) :
    (Table.ofList (routesOf.pairs tag.mappings)).get? label = some target ↔
      tag.Leads label target := by
  rw [Table.get?_ofList, Fields.get?_reverse_eq_some_iff]
  refine exists_congr fun i => ?_
  rw [getElem?_pairs, and_assoc]
  refine and_congr_right' (and_congr_right' ?_)
  refine forall₂_congr fun j _ => ?_
  simp only [ne_eq, getElem?_pairs]
  constructor
  · intro h hlabel
    have hj : 2 * j + 1 < tag.mappings.length := by
      have := (List.getElem?_eq_some_iff.mp hlabel).1
      omega
    exact h _ ⟨hlabel, List.getElem?_eq_getElem hj⟩
  · intro h other hpair
    exact h hpair.1

/-- A list of fields makes an empty table only if it is empty. -/
theorem Table.isEmpty_ofList {α : Type} (fields : List (String × α)) :
    (Table.ofList fields).isEmpty = fields.isEmpty := by
  cases hlast : fields.reverse with
  | nil =>
      rw [List.reverse_eq_nil_iff.mp hlast]
      rfl
  | cons field rest =>
      have hfound : (Table.ofList fields).get? field.1 = some field.2 := by
        rw [Table.get?_ofList, hlast, Fields.get?_cons, if_pos rfl]
      have hmem := (Table.mem_fields_iff _ field.1 field.2).mpr hfound
      have hfields : fields ≠ [] := by
        intro hnil
        rw [hnil] at hlast
        cases hlast
      have htable : (Table.ofList fields).fields ≠ [] := List.ne_nil_of_mem hmem
      rw [Table.isEmpty, List.isEmpty_eq_false_iff.mpr htable, List.isEmpty_eq_false_iff.mpr hfields]

/-- A router has routes iff labels are given. -/
theorem EdgeSpec.isEmpty_routes_eq_false_iff {tag : EdgeSpec}
    (heven : tag.mappings.length % 2 = 0) :
    (Table.ofList (routesOf.pairs tag.mappings)).isEmpty = false ↔ tag.mappings ≠ [] := by
  rw [Table.isEmpty_ofList]
  cases hmappings : tag.mappings with
  | nil => simp [routesOf.pairs]
  | cons label rest =>
      cases rest with
      | nil => simp [hmappings] at heven
      | cons target rest => simp [routesOf.pairs]

end FlowGraph
