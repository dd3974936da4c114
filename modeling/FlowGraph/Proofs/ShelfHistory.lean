import FlowGraph.Shelf
import FlowGraph.Proofs.Traversal
import Mathlib.Data.List.Induction
import Mathlib.Data.List.Nodup

/-!
# What a shelf remembers

A shelf is filled by deposits, of values under names and of graphs that were
compiled from composers.  A deposit takes the place of what was under its name,
and it can end what is remembered of a composer in two ways: by taking the name
of its graph, or by bringing another graph of the composer.

What a shelf answers is read here off the list of deposits that filled it.

* `get?_receiveAll`: **the last deposit under a name counts.**
* `compiledFrom?_receiveAll`: a composer's last graph is found until its name is
  taken.
* `Consistent.receiveAll`: names and composers are listed once, and what is
  remembered of a composer is a graph on the shelf.
* `shelf_answers_by_history`: all answers of a shelf together.
-/

namespace FlowGraph

namespace Shelf

/-- One call that fills a shelf. -/
inductive Deposit where
  /-- A value, put under a name. -/
  | plain (name : String) (value : Component)
  /-- A graph, put under a name as the one compiled from a composer. -/
  | compiled (name : String) (graph : Graph) (composer : String)

/-- The name that a deposit is put under. -/
def Deposit.name : Deposit → String
  | .plain name _ => name
  | .compiled name _ _ => name

/-- What is put there. -/
def Deposit.content : Deposit → Component
  | .plain _ value => value
  | .compiled _ graph _ => .subgraph graph

/-- The composer whose graph is put there, if one is named. -/
def Deposit.composer? : Deposit → Option String
  | .plain _ _ => Option.none
  | .compiled _ _ composer => some composer

/-- The shelf after a deposit. -/
def receive (shelf : Shelf) : Deposit → Shelf
  | .plain name value => shelf.put name value
  | .compiled name graph composer => shelf.putCompiled name graph composer

/-- The shelf after a list of deposits. -/
def receiveAll (shelf : Shelf) (deposits : List Deposit) : Shelf := deposits.foldl receive shelf

/-- The names of a kind, in the order in which they came up first. -/
def namesOfKind (shelf : Shelf) (kind : Kind) : List String :=
  shelf.names.filter fun name => (shelf.get? name).any fun value => value.kind == kind

/-- **The tables of a shelf agree.** -/
structure Consistent (shelf : Shelf) : Prop where
  /-- No name is listed twice. -/
  namesOnce : shelf.names.Nodup
  /-- No composer is remembered twice. -/
  composersOnce : (shelf.origins.map Prod.fst).Nodup
  /-- No name is remembered for two composers. -/
  originsOnce : (shelf.origins.map Prod.snd).Nodup
  /-- What is remembered of a composer is a graph on the shelf. -/
  held : ∀ origin ∈ shelf.origins, ∃ graph, shelf.get? origin.2 = some (.subgraph graph)

variable {shelf : Shelf}

/-! ## One deposit -/

/-- A deposit changes what stands under its name. -/
theorem get?_receive (shelf : Shelf) (deposit : Deposit) (key : String) :
    (shelf.receive deposit).get? key =
      if deposit.name = key then some deposit.content else shelf.get? key := by
  cases deposit <;> exact get?_put shelf _ _ key

/-- A name that is new comes last, and any other stays where it is. -/
theorem map_fst_place (name : String) (value : Component) (entries : List (String × Component)) :
    (place name value entries).map Prod.fst =
      if name ∈ entries.map Prod.fst then entries.map Prod.fst
      else entries.map Prod.fst ++ [name] := by
  induction entries with
  | nil => rfl
  | cons entry rest ih =>
      rw [place]
      by_cases hname : entry.1 = name
      · simp [hname]
      · rw [if_neg hname, List.map_cons, ih, List.map_cons]
        by_cases hrest : name ∈ rest.map Prod.fst
        · simp [hrest]
        · simp [hrest, Ne.symm hname]

/-- A new name goes to the end, and a name that is there keeps its place. -/
theorem names_receive (shelf : Shelf) (deposit : Deposit) :
    (shelf.receive deposit).names =
      if deposit.name ∈ shelf.names then shelf.names else shelf.names ++ [deposit.name] := by
  cases deposit <;> exact map_fst_place _ _ shelf.entries

/-- What is remembered after a deposit: what has neither its name nor its
composer, and then its own composer. -/
theorem origins_receive (shelf : Shelf) (deposit : Deposit) :
    (shelf.receive deposit).origins =
      (shelf.origins.filter fun origin =>
          !(origin.2 == deposit.name) && !(deposit.composer? == some origin.1)) ++
        deposit.composer?.toList.map fun composer => (composer, deposit.name) := by
  cases deposit with
  | plain name value => simp [receive, put, Deposit.name, Deposit.composer?]
  | compiled name graph composer =>
      have hfilter : ∀ origin : String × String,
          (!(origin.1 == composer) && !(origin.2 == name)) =
            (!(origin.2 == name) && !(some composer == some origin.1)) := by
        intro origin
        have hcomm : (origin.1 == composer) = (composer == origin.1) := BEq.comm
        rw [Bool.and_comm, Option.some_beq_some, hcomm]
      simp only [receive, putCompiled, put, Deposit.name, Deposit.composer?, List.filter_filter,
        hfilter, Option.toList_some, List.map_cons, List.map_nil]

/-- **A graph is forgotten when its name is taken or its composer gives another one**, and else it
is remembered. -/
theorem mem_origins_receive_iff {deposit : Deposit} {origin : String × String} :
    origin ∈ (shelf.receive deposit).origins ↔
      (origin ∈ shelf.origins ∧ origin.2 ≠ deposit.name ∧ deposit.composer? ≠ some origin.1) ∨
        (deposit.composer? = some origin.1 ∧ origin.2 = deposit.name) := by
  rw [origins_receive, List.mem_append, List.mem_filter]
  refine or_congr (by simp) ?_
  obtain ⟨composer, name⟩ := origin
  simp [eq_comm]

/-- What is listed once of the origins stays listed once, if what a deposit adds
is new there. -/
private theorem nodup_map_origins_receive {f : String × String → String}
    (h : (shelf.origins.map f).Nodup) (deposit : Deposit)
    (hnew : ∀ origin : String × String, origin.2 ≠ deposit.name →
      deposit.composer? ≠ some origin.1 → ∀ composer, deposit.composer? = some composer →
        f origin ≠ f (composer, deposit.name)) :
    ((shelf.receive deposit).origins.map f).Nodup := by
  rw [origins_receive, List.map_append, List.nodup_append']
  refine ⟨h.sublist (List.filter_sublist.map f), ?_, ?_⟩
  · cases deposit <;> simp [Deposit.composer?]
  · intro value hold hadded
    obtain ⟨origin, horigin, rfl⟩ := List.mem_map.mp hold
    obtain ⟨added, hadded, heq⟩ := List.mem_map.mp hadded
    obtain ⟨composer, hcomposer, rfl⟩ := List.mem_map.mp hadded
    have hkept := (List.mem_filter.mp horigin).2
    rw [Bool.and_eq_true, Bool.not_eq_true', Bool.not_eq_true', beq_eq_false_iff_ne,
      beq_eq_false_iff_ne] at hkept
    exact hnew origin hkept.1 hkept.2 composer (Option.mem_toList.mp hcomposer) heq.symm

/-- **A deposit keeps the tables of a shelf in agreement.** -/
theorem Consistent.receive (h : shelf.Consistent) (deposit : Deposit) :
    (shelf.receive deposit).Consistent where
  namesOnce := by
    rw [names_receive]
    split
    · exact h.namesOnce
    · next hnew =>
        rw [← List.concat_eq_append, List.nodup_concat]
        exact ⟨hnew, h.namesOnce⟩
  composersOnce := by
    refine nodup_map_origins_receive h.composersOnce deposit ?_
    intro origin _ hother composer hcomposer heq
    exact hother (heq ▸ hcomposer)
  originsOnce := by
    refine nodup_map_origins_receive h.originsOnce deposit ?_
    intro origin hname _ composer _ heq
    exact hname heq
  held := by
    intro origin horigin
    rw [get?_receive]
    rcases mem_origins_receive_iff.mp horigin with ⟨hold, hname, -⟩ | ⟨hcomposer, hname⟩
    · rw [if_neg (Ne.symm hname)]
      exact h.held origin hold
    · rw [if_pos hname.symm]
      cases deposit with
      | plain name value => cases hcomposer
      | compiled name graph composer => exact ⟨graph, rfl⟩

/-! ## What is known of a composer -/

/-- A graph is the last one of a composer, and its name has not been taken. -/
structure Remembers (shelf : Shelf) (composer name : String) (graph : Graph) : Prop where
  origin : (shelf.origins.filter fun origin => origin.1 == composer) = [(composer, name)]
  held : shelf.get? name = some (.subgraph graph)

/-- Nothing is remembered of a composer. -/
def Forgets (shelf : Shelf) (composer : String) : Prop :=
  (shelf.origins.filter fun origin => origin.1 == composer) = []

/-- What stands under a key is found among the fields of that key. -/
private theorem get?_filter_key (key : String) (fields : List (String × String)) :
    Fields.get? key (fields.filter fun field => field.1 == key) = Fields.get? key fields := by
  induction fields with
  | nil => rfl
  | cons field rest ih =>
      by_cases hkey : field.1 = key
      · rw [List.filter_cons_of_pos (by simpa using hkey), Fields.get?_cons, Fields.get?_cons,
          if_pos hkey, if_pos hkey]
      · rw [List.filter_cons_of_neg (by simpa using hkey), Fields.get?_cons, if_neg hkey, ih]

/-- A graph that is remembered of a composer is found. -/
theorem Remembers.compiledFrom? {composer name : String} {graph : Graph}
    (h : shelf.Remembers composer name graph) : shelf.compiledFrom? composer = some graph := by
  have horigin : Fields.get? composer shelf.origins = some name := by
    rw [← get?_filter_key, h.origin, Fields.get?_cons, if_pos rfl]
  simp [Shelf.compiledFrom?, horigin, graph?, h.held]

/-- If nothing is remembered of a composer, nothing is found. -/
theorem Forgets.compiledFrom? {composer : String} (h : shelf.Forgets composer) :
    shelf.compiledFrom? composer = Option.none := by
  have horigin : Fields.get? composer shelf.origins = Option.none := by
    rw [← get?_filter_key, h, Fields.get?_nil]
  simp [Shelf.compiledFrom?, horigin]

/-- A compiled graph is remembered, whatever was remembered before. -/
theorem remembers_putCompiled (shelf : Shelf) (name : String) (graph : Graph) (composer : String) :
    (shelf.putCompiled name graph composer).Remembers composer name graph where
  origin := by
    simp [putCompiled, List.filter_append, List.filter_filter]
  held := by
    have hput := get?_put shelf name (.subgraph graph) name
    rwa [if_pos rfl] at hput

/-- A deposit of no graph of a composer changes what is remembered of it only by
taking the name. -/
theorem filter_origins_receive {deposit : Deposit} {composer : String}
    (hother : deposit.composer? ≠ some composer) :
    ((shelf.receive deposit).origins.filter fun origin => origin.1 == composer) =
      (shelf.origins.filter fun origin => origin.1 == composer).filter fun origin =>
        !(origin.2 == deposit.name) := by
  have hadded : ((deposit.composer?.toList.map fun added => (added, deposit.name)).filter
      fun origin => origin.1 == composer) = [] := by
    cases deposit with
    | plain name value => rfl
    | compiled name graph added =>
        have hne : added ≠ composer := fun heq => hother (congrArg some heq)
        simp [Deposit.composer?, hne]
  rw [origins_receive, List.filter_append, hadded, List.append_nil, List.filter_filter,
    List.filter_filter]
  refine List.filter_congr fun origin _ => ?_
  by_cases hcomposer : origin.1 = composer
  · have hkept : (deposit.composer? == some origin.1) = false := by
      rw [hcomposer, beq_eq_false_iff_ne]
      exact hother
    rw [hkept, Bool.not_false, Bool.and_true, beq_iff_eq.mpr hcomposer, Bool.true_and,
      Bool.and_true]
  · rw [beq_eq_false_iff_ne.mpr hcomposer, Bool.false_and, Bool.and_false]

/-- A deposit under another name, of another composer or of none, leaves what is remembered. -/
theorem Remembers.receive {composer name : String} {graph : Graph} {deposit : Deposit}
    (h : shelf.Remembers composer name graph) (hother : deposit.composer? ≠ some composer)
    (hname : deposit.name ≠ name) : (shelf.receive deposit).Remembers composer name graph where
  origin := by
    rw [filter_origins_receive hother, h.origin]
    simp [Ne.symm hname]
  held := by
    rw [get?_receive, if_neg hname]
    exact h.held

/-- A deposit that takes the name of a graph makes its composer forgotten. -/
theorem Remembers.forgets {composer name : String} {graph : Graph} {deposit : Deposit}
    (h : shelf.Remembers composer name graph) (hother : deposit.composer? ≠ some composer)
    (hname : deposit.name = name) : (shelf.receive deposit).Forgets composer := by
  rw [Forgets, filter_origins_receive hother, h.origin]
  simp [hname]

/-- What is forgotten stays so until the composer gives a graph again. -/
theorem Forgets.receive {composer : String} {deposit : Deposit} (h : shelf.Forgets composer)
    (hother : deposit.composer? ≠ some composer) : (shelf.receive deposit).Forgets composer := by
  rw [Forgets, filter_origins_receive hother, h, List.filter_nil]

/-! ## Kinds -/

/-- Where names are listed once, the entries of a kind carry the names of the kind. -/
theorem map_fst_ofKind (h : shelf.names.Nodup) (kind : Kind) :
    (shelf.ofKind kind).map Prod.fst = shelf.namesOfKind kind := by
  rw [namesOfKind, names, List.filter_map, ofKind]
  refine congrArg (List.map Prod.fst) (List.filter_congr fun entry hentry => ?_)
  have hfound : shelf.get? entry.1 = some entry.2 := Fields.get?_of_mem_of_nodup h hentry
  rw [Function.comp_apply, hfound, Option.any_some]

/-- Nothing is chosen where no name has the kind. -/
theorem only_eq_none_iff (h : shelf.names.Nodup) {kind : Kind} :
    shelf.only kind = .none ↔ shelf.namesOfKind kind = [] := by
  rw [← map_fst_ofKind h kind, List.map_eq_nil_iff, only]
  rcases shelf.ofKind kind with _ | ⟨⟨name, value⟩, _ | ⟨second, rest⟩⟩ <;> simp

/-- A value is chosen where it is the only one of the kind. -/
theorem only_eq_one_iff (h : shelf.names.Nodup) {kind : Kind} {value : Component} :
    shelf.only kind = .one value ↔
      ∃ name, shelf.namesOfKind kind = [name] ∧ shelf.get? name = some value := by
  rw [← map_fst_ofKind h kind, only]
  rcases hkind : shelf.ofKind kind with _ | ⟨entry, _ | ⟨second, rest⟩⟩
  · simp
  · have hmem : entry ∈ shelf.ofKind kind := hkind ▸ List.mem_cons_self
    have hfound : shelf.get? entry.1 = some entry.2 :=
      Fields.get?_of_mem_of_nodup h (List.mem_of_mem_filter hmem)
    simp [hfound]
  · simp

/-- Otherwise all names of the kind are given for a choice. -/
theorem only_eq_several_iff (h : shelf.names.Nodup) {kind : Kind} {choice : List String} :
    shelf.only kind = .several choice ↔ choice = shelf.namesOfKind kind ∧ 2 ≤ choice.length := by
  rw [← map_fst_ofKind h kind, only]
  rcases shelf.ofKind kind with _ | ⟨entry, _ | ⟨second, rest⟩⟩
  · simp +contextual
  · simp +contextual
  · rw [Selection.several.injEq]
    constructor
    · rintro rfl
      exact ⟨rfl, by simp⟩
    · rintro ⟨rfl, -⟩
      rfl

/-! ## Lists of deposits -/

/-- Deposits are made one list after the other. -/
theorem receiveAll_append (shelf : Shelf) (early late : List Deposit) :
    shelf.receiveAll (early ++ late) = (shelf.receiveAll early).receiveAll late :=
  List.foldl_append

/-- The last deposit is made to the shelf that the others have filled. -/
theorem receiveAll_concat (shelf : Shelf) (deposits : List Deposit) (deposit : Deposit) :
    shelf.receiveAll (deposits ++ [deposit]) = (shelf.receiveAll deposits).receive deposit :=
  shelf.receiveAll_append deposits [deposit]

/-- A graph that is compiled on the way. -/
theorem receiveAll_compiled (shelf : Shelf) (early : List Deposit) (name : String) (graph : Graph)
    (composer : String) (late : List Deposit) :
    shelf.receiveAll (early ++ .compiled name graph composer :: late) =
      ((shelf.receiveAll early).putCompiled name graph composer).receiveAll late :=
  shelf.receiveAll_append early _

/-- **The last deposit under a name counts**, and without one what was there before. -/
theorem get?_receiveAll (shelf : Shelf) (deposits : List Deposit) (key : String) :
    (shelf.receiveAll deposits).get? key =
      ((deposits.reverse.find? fun deposit => deposit.name == key).map Deposit.content).or
        (shelf.get? key) := by
  induction deposits using List.reverseRecOn with
  | nil => rfl
  | append_singleton deposits deposit ih =>
      rw [receiveAll_concat, get?_receive, ih, List.reverse_concat, List.find?_cons]
      by_cases hname : deposit.name = key
      · simp [hname]
      · rw [if_neg hname, beq_eq_false_iff_ne.mpr hname]

/-- A name that is not deposited under keeps what it has. -/
theorem get?_receiveAll_of_notMem {deposits : List Deposit} {key : String}
    (h : key ∉ deposits.map Deposit.name) : (shelf.receiveAll deposits).get? key = shelf.get? key := by
  have hnone : (deposits.reverse.find? fun deposit => deposit.name == key) = Option.none := by
    rw [List.find?_eq_none]
    intro deposit hdeposit hname
    exact h (List.mem_map.mpr ⟨deposit, List.mem_reverse.mp hdeposit, by simpa using hname⟩)
  rw [get?_receiveAll, hnone]
  rfl

/-- A composer stays forgotten through deposits that are not its own. -/
theorem Forgets.receiveAll {composer : String} {deposits : List Deposit}
    (h : shelf.Forgets composer) (hother : ∀ deposit ∈ deposits, deposit.composer? ≠ some composer) :
    (shelf.receiveAll deposits).Forgets composer := by
  induction deposits generalizing shelf with
  | nil => exact h
  | cons deposit rest ih =>
      obtain ⟨hhead, hrest⟩ := List.forall_mem_cons.mp hother
      exact ih (h.receive hhead) hrest

/-- What is remembered of a composer lasts until its name is taken. -/
theorem Remembers.compiledFrom?_receiveAll {composer name : String} {graph : Graph}
    (h : shelf.Remembers composer name graph) {deposits : List Deposit}
    (hother : ∀ deposit ∈ deposits, deposit.composer? ≠ some composer) :
    (shelf.receiveAll deposits).compiledFrom? composer =
      if name ∈ deposits.map Deposit.name then Option.none else some graph := by
  induction deposits generalizing shelf with
  | nil => exact h.compiledFrom?
  | cons deposit rest ih =>
      obtain ⟨hhead, hrest⟩ := List.forall_mem_cons.mp hother
      change ((shelf.receive deposit).receiveAll rest).compiledFrom? composer = _
      by_cases hname : deposit.name = name
      · have hforgotten := (h.forgets hhead hname).receiveAll hrest
        rw [hforgotten.compiledFrom?, List.map_cons, if_pos (by simp [hname])]
      · rw [ih (h.receive hhead hname) hrest, List.map_cons]
        simp [Ne.symm hname]

/-- **A composer's last graph is found until its name is taken.** -/
theorem compiledFrom?_receiveAll (shelf : Shelf) (name : String) (graph : Graph) {composer : String}
    {deposits : List Deposit}
    (hother : ∀ deposit ∈ deposits, deposit.composer? ≠ some composer) :
    ((shelf.putCompiled name graph composer).receiveAll deposits).compiledFrom? composer =
      if name ∈ deposits.map Deposit.name then Option.none else some graph :=
  (shelf.remembers_putCompiled name graph composer).compiledFrom?_receiveAll hother

/-- The tables of a shelf agree through all deposits. -/
theorem Consistent.receiveAll (h : shelf.Consistent) (deposits : List Deposit) :
    (shelf.receiveAll deposits).Consistent := by
  induction deposits generalizing shelf with
  | nil => exact h
  | cons deposit rest ih => exact ih (h.receive deposit)

/-! ## A shelf that was empty -/

/-- The tables of the empty shelf agree. -/
theorem consistent_empty : ({} : Shelf).Consistent := by
  constructor <;> simp [names]

/-- **Names are listed in the order in which they came up first.** -/
theorem names_receiveAll_empty (deposits : List Deposit) :
    (receiveAll {} deposits).names = (deposits.map Deposit.name).eraseDups := by
  induction deposits using List.reverseRecOn with
  | nil => rfl
  | append_singleton deposits deposit ih =>
      rw [receiveAll_concat, names_receive, ih, List.map_append, List.eraseDups_append,
        List.map_singleton]
      by_cases hname : deposit.name ∈ deposits.map Deposit.name
      · have hremoved : [deposit.name].removeAll (deposits.map Deposit.name) = [] :=
          List.filter_cons_of_neg (by simpa using hname)
        rw [if_pos (List.mem_eraseDups.mpr hname), hremoved, List.eraseDups_nil, List.append_nil]
      · have hkept : [deposit.name].removeAll (deposits.map Deposit.name) = [deposit.name] :=
          List.filter_cons_of_pos (by simpa using hname)
        rw [if_neg (mt List.mem_eraseDups.mp hname), hkept]
        rfl

/-- **What is found of a composer**: the last graph that was deposited for it, if
nothing was deposited under the name of this graph since. -/
theorem compiledFrom?_receiveAll_empty_iff {deposits : List Deposit} {composer : String}
    {graph : Graph} :
    (receiveAll {} deposits).compiledFrom? composer = some graph ↔
      ∃ before name after, deposits = before ++ .compiled name graph composer :: after ∧
        (∀ deposit ∈ after, deposit.composer? ≠ some composer) ∧
        ∀ deposit ∈ after, deposit.name ≠ name := by
  constructor
  · intro h
    -- the last deposit of the composer is the one that counts
    by_cases hany : ∃ deposit ∈ deposits, deposit.composer? = some composer
    · obtain ⟨before, last, after, rfl, hlast, hother⟩ := Traversal.exists_last hany
      cases last with
      | plain name value => cases hlast
      | compiled name last owner =>
          cases hlast
          rw [receiveAll_compiled, compiledFrom?_receiveAll _ _ _ hother] at h
          split at h
          · cases h
          · next hname =>
              cases h
              refine ⟨before, name, after, rfl, hother, ?_⟩
              intro deposit hdeposit heq
              exact hname (List.mem_map.mpr ⟨deposit, hdeposit, heq⟩)
    · have hempty : ({} : Shelf).Forgets composer := rfl
      have hforgotten := hempty.receiveAll fun deposit hdeposit heq => hany ⟨deposit, hdeposit, heq⟩
      rw [hforgotten.compiledFrom?] at h
      cases h
  · intro h
    obtain ⟨before, name, after, rfl, hother, hname⟩ := h
    have hkept : name ∉ after.map Deposit.name := by
      intro hmem
      obtain ⟨deposit, hdeposit, heq⟩ := List.mem_map.mp hmem
      exact hname deposit hdeposit heq
    rw [receiveAll_compiled, compiledFrom?_receiveAll _ _ _ hother, if_neg hkept]

/-- **A shelf answers by its history.**  Whatever was deposited on an empty shelf,
its names are those of the deposits, each once and in the order in which they
came up first; a name has what was deposited under it last; a value is the choice
of a kind iff exactly one name has the kind, and otherwise all names of the kind
are given; and the graph of a composer is the last one deposited for it, if
nothing was deposited under its name since.  At all times the tables agree. -/
theorem shelf_answers_by_history (deposits : List Deposit) :
    let shelf := receiveAll {} deposits
    shelf.names = (deposits.map Deposit.name).eraseDups ∧
      (∀ name, shelf.get? name =
        (deposits.reverse.find? fun deposit => deposit.name == name).map Deposit.content) ∧
      (∀ kind value, shelf.only kind = .one value ↔
        ∃ name, shelf.namesOfKind kind = [name] ∧ shelf.get? name = some value) ∧
      (∀ kind, shelf.only kind = .none ↔ shelf.namesOfKind kind = []) ∧
      (∀ kind choice, shelf.only kind = .several choice ↔
        choice = shelf.namesOfKind kind ∧ 2 ≤ choice.length) ∧
      (∀ composer graph, shelf.compiledFrom? composer = some graph ↔
        ∃ before name after, deposits = before ++ .compiled name graph composer :: after ∧
          (∀ deposit ∈ after, deposit.composer? ≠ some composer) ∧
          ∀ deposit ∈ after, deposit.name ≠ name) ∧
      shelf.Consistent := by
  intro shelf
  have hconsistent : shelf.Consistent := consistent_empty.receiveAll deposits
  refine ⟨names_receiveAll_empty deposits, ?_, fun _ _ => only_eq_one_iff hconsistent.namesOnce,
    fun _ => only_eq_none_iff hconsistent.namesOnce,
    fun _ _ => only_eq_several_iff hconsistent.namesOnce,
    fun _ _ => compiledFrom?_receiveAll_empty_iff, hconsistent⟩
  intro name
  rw [get?_receiveAll]
  exact Option.or_none

end Shelf

end FlowGraph
