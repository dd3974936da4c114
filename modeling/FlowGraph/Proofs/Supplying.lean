import FlowGraph.Proofs.ShelfHistory

/-!
# What a shelf supplies

A shelf stands in for the missing value of a member in three ways: by the name
of a candidate, by the name of the member, and at last by the kind alone.  In
every way it looks at values of the declared kind and at nothing else, so a
value of another kind never comes out, never stands in the way of the next way,
and cannot be told from no value at all.

* `named?_eq`, `supply_congr`: **the values of the kind decide.**
* `supply_eq_iff`: which of the three ways gives the answer.
* `ofKind_receiveAll`: deposits of other kinds leave the values of a kind alone.
* `supply_is_sound_and_stable`: all of this for a shelf with any history.
-/

namespace FlowGraph

namespace Shelf

/-- A value of a kind stands under a name. -/
def Holds (shelf : Shelf) (name : String) (kind : Kind) (value : Component) : Prop :=
  shelf.get? name = some value ∧ value.kind = kind

/-- A value of a kind stands under the name of a candidate, which is not blank. -/
def HoldsCandidate (shelf : Shelf) (candidate : Option String) (kind : Kind)
    (value : Component) : Prop :=
  ∃ name, candidate = some name ∧ Text.isBlank name = false ∧ shelf.Holds name kind value

/-- **The ways to an answer**, each taken only if the ones before it lead nowhere. -/
inductive Answers (shelf : Shelf) (member : Member) (candidate : Option String) :
    Option Component → Prop
  /-- The candidate's name has a value of the kind. -/
  | byCandidate {value : Component}
      (hvalue : shelf.HoldsCandidate candidate member.declared value) :
      Answers shelf member candidate (some value)
  /-- The member's name has one. -/
  | byName {value : Component}
      (hcandidate : ∀ other, ¬ shelf.HoldsCandidate candidate member.declared other)
      (hvalue : shelf.Holds member.name member.declared value) :
      Answers shelf member candidate (some value)
  /-- Exactly one name has one. -/
  | byKind {name : String} {value : Component}
      (hcandidate : ∀ other, ¬ shelf.HoldsCandidate candidate member.declared other)
      (hname : ∀ other, ¬ shelf.Holds member.name member.declared other)
      (honly : shelf.namesOfKind member.declared = [name])
      (hvalue : shelf.Holds name member.declared value) :
      Answers shelf member candidate (some value)
  /-- There is no answer. -/
  | unanswered
      (hcandidate : ∀ other, ¬ shelf.HoldsCandidate candidate member.declared other)
      (hname : ∀ other, ¬ shelf.Holds member.name member.declared other)
      (hseveral : (shelf.namesOfKind member.declared).length ≠ 1) :
      Answers shelf member candidate none

variable {shelf shelf' : Shelf} {member : Member} {candidate : Option String} {kind : Kind}

/-! ## The values of a kind decide -/

/-- The entries of a kind are the entries whose values have it. -/
theorem mem_ofKind_iff {name : String} {value : Component} :
    (name, value) ∈ shelf.ofKind kind ↔ (name, value) ∈ shelf.entries ∧ value.kind = kind := by
  rw [ofKind, List.mem_filter, beq_iff_eq]

/-- Where names are listed once, the values of a kind are listed under their names. -/
theorem holds_iff_mem (h : shelf.names.Nodup) {name : String} {value : Component} :
    shelf.Holds name kind value ↔ (name, value) ∈ shelf.ofKind kind := by
  rw [mem_ofKind_iff, Holds]
  constructor
  · intro hheld
    exact ⟨Fields.mem_of_get? hheld.1, hheld.2⟩
  · intro hmem
    exact ⟨Fields.get?_of_mem_of_nodup h hmem.1, hmem.2⟩

/-- A name gives the value of a kind that stands under it. -/
theorem named?_eq_some_iff (h : shelf.names.Nodup) {name : String} {value : Component} :
    shelf.named? name kind = some value ↔ shelf.Holds name kind value := by
  have hkind : shelf.hasKind name kind = true ↔ ∃ other, shelf.Holds name kind other := by
    simp [hasKind, holds_iff_mem h, mem_ofKind_iff]
  rw [named?]
  by_cases hheld : shelf.hasKind name kind = true
  · rw [if_pos hheld]
    obtain ⟨other, hother, hsame⟩ := hkind.mp hheld
    constructor
    · intro hvalue
      cases hother.symm.trans hvalue
      exact ⟨hvalue, hsame⟩
    · exact And.left
  · rw [if_neg hheld]
    constructor
    · intro hvalue
      cases hvalue
    · intro hvalue
      exact absurd (hkind.mpr ⟨value, hvalue⟩) hheld

/-- A name gives nothing iff no value of the kind stands under it. -/
theorem named?_eq_none_iff (h : shelf.names.Nodup) {name : String} :
    shelf.named? name kind = none ↔ ∀ value, ¬ shelf.Holds name kind value := by
  rw [Option.eq_none_iff_forall_ne_some]
  exact forall_congr' fun value => not_congr (named?_eq_some_iff h)

/-- A look-up by name and kind is a look-up among the values of the kind. -/
theorem named?_eq (h : shelf.names.Nodup) (name : String) (kind : Kind) :
    shelf.named? name kind = Fields.get? name (shelf.ofKind kind) := by
  have hdistinct : ((shelf.ofKind kind).map Prod.fst).Nodup :=
    h.sublist (List.filter_sublist.map Prod.fst)
  refine Option.ext fun value => ?_
  rw [named?_eq_some_iff h, holds_iff_mem h]
  exact ⟨Fields.get?_of_mem_of_nodup hdistinct, Fields.mem_of_get?⟩

/-- **The values of the declared kind decide.**  Shelves that list the same ones
supply the same, whatever else is on them. -/
theorem supply_congr (h : shelf.names.Nodup) (h' : shelf'.names.Nodup)
    (hsame : shelf'.ofKind member.declared = shelf.ofKind member.declared) :
    shelf'.supply member candidate = shelf.supply member candidate := by
  have hnamed : ∀ name, shelf'.named? name member.declared = shelf.named? name member.declared := by
    intro name
    rw [named?_eq h, named?_eq h', hsame]
  have honly : shelf'.only member.declared = shelf.only member.declared := by
    rw [only, only, hsame]
  simp only [supply, hnamed, honly]

/-! ## The answer -/

/-- A candidate gives the value that stands under its name, if it says one. -/
theorem given_bind_eq_some_iff (h : shelf.names.Nodup) {value : Component} :
    ((Text.given candidate).bind fun name => shelf.named? name kind) = some value ↔
      shelf.HoldsCandidate candidate kind value := by
  simp only [Option.bind_eq_some_iff, named?_eq_some_iff h, HoldsCandidate, Text.given,
    Option.filter_eq_some_iff, Bool.not_eq_true', and_assoc]

/-- A value is the only one of its kind iff exactly one name has the kind. -/
theorem only_eq_one_iff_holds (h : shelf.names.Nodup) {value : Component} :
    shelf.only kind = .one value ↔
      ∃ name, shelf.namesOfKind kind = [name] ∧ shelf.Holds name kind value := by
  rw [only_eq_one_iff h]
  refine exists_congr fun name => and_congr_right fun honly => ?_
  have hname : name ∈ shelf.namesOfKind kind := honly ▸ List.mem_singleton_self name
  have hkind := (List.mem_filter.mp hname).2
  constructor
  · intro hvalue
    rw [hvalue, Option.any_some, beq_iff_eq] at hkind
    exact ⟨hvalue, hkind⟩
  · exact And.left

/-- Every answer is reached in one of the ways. -/
theorem answers_supply (h : shelf.names.Nodup) (member : Member) (candidate : Option String) :
    shelf.Answers member candidate (shelf.supply member candidate) := by
  unfold supply
  cases hcandidate : (Text.given candidate).bind fun name =>
      shelf.named? name member.declared with
  | some value => exact .byCandidate ((given_bind_eq_some_iff h).mp hcandidate)
  | none =>
      have hnoCandidate : ∀ other, ¬ shelf.HoldsCandidate candidate member.declared other := by
        intro other hother
        rw [(given_bind_eq_some_iff h).mpr hother] at hcandidate
        cases hcandidate
      cases hname : shelf.named? member.name member.declared with
      | some value => exact .byName hnoCandidate ((named?_eq_some_iff h).mp hname)
      | none =>
          have hnoName := (named?_eq_none_iff h).mp hname
          cases honly : shelf.only member.declared with
          | one value =>
              obtain ⟨name, hsingle, hvalue⟩ := (only_eq_one_iff_holds h).mp honly
              exact .byKind hnoCandidate hnoName hsingle hvalue
          | several choice =>
              obtain ⟨rfl, hlength⟩ := (only_eq_several_iff h).mp honly
              exact .unanswered hnoCandidate hnoName (by omega)
          | none =>
              have hnames := (only_eq_none_iff h).mp honly
              exact .unanswered hnoCandidate hnoName (by simp [hnames])

/-- A name has one value. -/
theorem Holds.unique {name : String} {value value' : Component}
    (h : shelf.Holds name kind value) (h' : shelf.Holds name kind value') : value = value' :=
  Option.some.inj (h.1.symm.trans h'.1)

/-- One value at most stands under the name of a candidate. -/
theorem HoldsCandidate.unique {value value' : Component}
    (h : shelf.HoldsCandidate candidate kind value)
    (h' : shelf.HoldsCandidate candidate kind value') : value = value' := by
  obtain ⟨name, hname, -, hvalue⟩ := h
  obtain ⟨name', hname', -, hvalue'⟩ := h'
  cases hname.symm.trans hname'
  exact hvalue.unique hvalue'

/-- The ways lead to one answer. -/
theorem Answers.unique {answer answer' : Option Component}
    (h : shelf.Answers member candidate answer) (h' : shelf.Answers member candidate answer') :
    answer = answer' := by
  -- an earlier way rules out the later ones
  cases h with
  | byCandidate hvalue =>
      cases h' with
      | byCandidate hvalue' => rw [hvalue.unique hvalue']
      | byName hcandidate' => exact absurd hvalue (hcandidate' _)
      | byKind hcandidate' => exact absurd hvalue (hcandidate' _)
      | unanswered hcandidate' => exact absurd hvalue (hcandidate' _)
  | byName hcandidate hvalue =>
      cases h' with
      | byCandidate hvalue' => exact absurd hvalue' (hcandidate _)
      | byName _ hvalue' => rw [hvalue.unique hvalue']
      | byKind _ hname' => exact absurd hvalue (hname' _)
      | unanswered _ hname' => exact absurd hvalue (hname' _)
  | byKind hcandidate hname honly hvalue =>
      cases h' with
      | byCandidate hvalue' => exact absurd hvalue' (hcandidate _)
      | byName _ hvalue' => exact absurd hvalue' (hname _)
      | byKind _ _ honly' hvalue' =>
          cases honly.symm.trans honly'
          rw [hvalue.unique hvalue']
      | unanswered _ _ hseveral' => simp [honly] at hseveral'
  | unanswered hcandidate hname hseveral =>
      cases h' with
      | byCandidate hvalue' => exact absurd hvalue' (hcandidate _)
      | byName _ hvalue' => exact absurd hvalue' (hname _)
      | byKind _ _ honly' => simp [honly'] at hseveral
      | unanswered => rfl

/-- **What a shelf supplies** is what the first way leads to that leads anywhere. -/
theorem supply_eq_iff (h : shelf.names.Nodup) {answer : Option Component} :
    shelf.supply member candidate = answer ↔ shelf.Answers member candidate answer := by
  constructor
  · rintro rfl
    exact answers_supply h member candidate
  · exact (answers_supply h member candidate).unique

/-- Whatever the way, the answer stands on the shelf and has the declared kind. -/
theorem Answers.sound {value : Component} (h : shelf.Answers member candidate (some value)) :
    ∃ name, shelf.Holds name member.declared value := by
  cases h with
  | byCandidate hvalue =>
      obtain ⟨name, -, -, hheld⟩ := hvalue
      exact ⟨name, hheld⟩
  | byName _ hvalue => exact ⟨member.name, hvalue⟩
  | byKind _ _ _ hvalue => exact ⟨_, hvalue⟩

/-! ## Deposits of other kinds -/

/-- A value of another kind, put in the place of no value of the kind, is not
among the values of the kind. -/
theorem filter_place {name : String} {value : Component} {entries : List (String × Component)}
    (hvalue : value.kind ≠ kind)
    (hentries : ∀ entry ∈ entries, entry.1 = name → entry.2.kind ≠ kind) :
    (place name value entries).filter (fun entry => entry.2.kind == kind) =
      entries.filter fun entry => entry.2.kind == kind := by
  induction entries with
  | nil => simp [place, hvalue]
  | cons entry rest ih =>
      obtain ⟨hentry, hrest⟩ := List.forall_mem_cons.mp hentries
      rw [place]
      by_cases hname : entry.1 = name
      · simp [hname, hvalue, hentry hname]
      · rw [if_neg hname, List.filter_cons, List.filter_cons, ih hrest]

/-- A deposit of another kind leaves the entries of a kind, unless it takes the name of one. -/
theorem ofKind_receive (h : shelf.names.Nodup) {deposit : Deposit}
    (hname : deposit.name ∉ shelf.namesOfKind kind) (hkind : deposit.content.kind ≠ kind) :
    (shelf.receive deposit).ofKind kind = shelf.ofKind kind := by
  have hentries : ∀ entry ∈ shelf.entries, entry.1 = deposit.name → entry.2.kind ≠ kind := by
    intro entry hentry hsame hheld
    refine hname ?_
    rw [← map_fst_ofKind h, ← hsame]
    exact List.mem_map.mpr ⟨entry, mem_ofKind_iff.mpr ⟨hentry, hheld⟩, rfl⟩
  cases deposit <;> exact filter_place hkind hentries

/-- **Deposits of other kinds leave the values of a kind alone**, unless they
take the place of one. -/
theorem ofKind_receiveAll (h : shelf.Consistent) {deposits : List Deposit}
    (hother : ∀ deposit ∈ deposits,
      deposit.name ∉ shelf.namesOfKind kind ∧ deposit.content.kind ≠ kind) :
    (shelf.receiveAll deposits).ofKind kind = shelf.ofKind kind := by
  induction deposits generalizing shelf with
  | nil => rfl
  | cons deposit rest ih =>
      obtain ⟨⟨hname, hkind⟩, hrest⟩ := List.forall_mem_cons.mp hother
      have hnext := h.receive deposit
      have hsame := ofKind_receive h.namesOnce hname hkind
      have hnames : (shelf.receive deposit).namesOfKind kind = shelf.namesOfKind kind := by
        rw [← map_fst_ofKind h.namesOnce, ← map_fst_ofKind hnext.namesOnce, hsame]
      rw [← hnames] at hrest
      exact (ih hnext hrest).trans hsame

/-- **A shelf supplies soundly, in order and stably.**  Whatever was deposited on
an empty shelf, a member is given the value under the candidate's name, if the
candidate is not blank and the value has the declared kind; or else the value
under the member's own name, if that has the kind; or else the value under the
only name that has the kind; or else nothing.  So what is given stands on the
shelf and has the declared kind.  And whatever values of other kinds are put
under new names, no answer changes. -/
theorem supply_is_sound_and_stable (deposits : List Deposit) (member : Member)
    (candidate : Option String) :
    let shelf := receiveAll {} deposits
    (∀ answer, shelf.supply member candidate = answer ↔
        shelf.Answers member candidate answer) ∧
      (∀ value, shelf.supply member candidate = some value →
        ∃ name ∈ shelf.names, shelf.get? name = some value ∧ value.kind = member.declared) ∧
      ∀ later : List Deposit,
        (∀ deposit ∈ later,
          deposit.name ∉ shelf.names ∧ deposit.content.kind ≠ member.declared) →
        (shelf.receiveAll later).supply member candidate = shelf.supply member candidate := by
  intro shelf
  have hconsistent : shelf.Consistent := consistent_empty.receiveAll deposits
  refine ⟨fun _ => supply_eq_iff hconsistent.namesOnce, ?_, ?_⟩
  · intro value hvalue
    obtain ⟨name, hheld⟩ := ((supply_eq_iff hconsistent.namesOnce).mp hvalue).sound
    exact ⟨name, List.mem_map.mpr ⟨_, Fields.mem_of_get? hheld.1, rfl⟩, hheld⟩
  · intro later hother
    refine supply_congr hconsistent.namesOnce (hconsistent.receiveAll later).namesOnce
      (ofKind_receiveAll hconsistent ?_)
    intro deposit hdeposit
    obtain ⟨hnew, hkind⟩ := hother deposit hdeposit
    exact ⟨fun hname => hnew (List.mem_filter.mp hname).1, hkind⟩

/-- A history in which the text under a name is replaced by something else. -/
def pantry : List Deposit :=
  [.plain "salt" (.text "sea salt"), .plain "herb" (.text "thyme"), .plain "salt" (.foreign "u32")]

/-- A member that is called like the replaced text is given the only text that is
left, and still is after two numbers have come under a new name. -/
theorem only_text_is_supplied_and_stays :
    let later : List Deposit := [.plain "oil" (.foreign "u32"), .plain "oil" (.foreign "u64")]
    (∀ deposit ∈ later, deposit.name ∉ (receiveAll {} pantry).names ∧
        deposit.content.kind ≠ .text) ∧
      ((receiveAll {} pantry).receiveAll later).supply (.unset "salt" .text) (some " ") =
        some (.text "thyme") := by
  intro later
  have hother : ∀ deposit ∈ later, deposit.name ∉ (receiveAll {} pantry).names ∧
      deposit.content.kind ≠ .text := by
    simp [later, pantry, receiveAll, receive, put, place, names, Deposit.name, Deposit.content,
      Component.kind]
  obtain ⟨-, -, hstable⟩ := supply_is_sound_and_stable pantry (.unset "salt" .text) (some " ")
  exact ⟨hother, (hstable later hother).trans rfl⟩

end Shelf

end FlowGraph
