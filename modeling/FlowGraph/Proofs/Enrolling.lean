import FlowGraph.Enrollment
import FlowGraph.Proofs.ShelfHistory

/-!
# Enrolling one after the other

Every listed composer is compiled against the shelf as the listings before it
left it, so no listing can be read on its own.  What an enrollment does to the
shelf is a list of deposits, though, and it is made listing by listing.

* `Enroller.Fills`: the deposits on the way through a list without a failure.
* `enrollEach_eq_ok_iff`, `enrollEach_eq_error_iff`: **an enrollment makes these
  deposits**, and a failure leaves those that were made before it.
* `Fills.enrolled`: what a listing comes to in the end.
* `enrolling_keeps_what_came_before`: all of this for an enroller and its settings.
-/

namespace FlowGraph

namespace Listing

/-- Whether the composer is passed over. -/
def optsOut (listing : Listing) : Bool :=
  listing.composer.marker.any fun marker => !marker.automatic

/-- The name for the graph, if the composer is compiled without being asked for. -/
def target? (listing : Listing) : Option String :=
  (listing.composer.marker.filter Marker.automatic).map fun marker =>
    marker.graphNameFor listing.name

end Listing

namespace Enroller

open FlowGraph.Shelf (Deposit)

variable {enroller : Enroller} {shelf : Shelf} {listing : Listing} {listings : List Listing}
  {deposits : List Deposit} {error : CompileError}

/-- A listing ends an enrollment that comes to it with the given shelf. -/
inductive Stops (enroller : Enroller) (shelf : Shelf) (listing : Listing) : CompileError → Prop where
  /-- There is no marker. -/
  | unmarked (hmarker : listing.composer.marker = none) :
      Stops enroller shelf listing (.notAComposer listing.composer.typeName)
  /-- The composer opted in, and it does not compile against the shelf. -/
  | broken {name : String} {error : CompileError} (htarget : listing.target? = some name)
      (hcompile : (enroller.compilerFor shelf).compile listing.composer = .error error) :
      Stops enroller shelf listing error

/-- **The deposits of an enrollment** that comes to the end of its list. -/
inductive Fills (enroller : Enroller) : Shelf → List Listing → List Deposit → Prop where
  | done (shelf : Shelf) : Fills enroller shelf [] []
  | pass {shelf : Shelf} {listing : Listing} {rest : List Listing} {deposits : List Deposit}
      (hout : listing.optsOut = true) (hrest : Fills enroller shelf rest deposits) :
      Fills enroller shelf (listing :: rest) deposits
  | take {shelf : Shelf} {listing : Listing} {rest : List Listing} {deposits : List Deposit}
      {name : String} {graph : Graph} (htarget : listing.target? = some name)
      (hcompile : (enroller.compilerFor shelf).compile listing.composer = .ok graph)
      (hrest : Fills enroller (shelf.putCompiled name graph listing.composer.typeName) rest deposits) :
      Fills enroller shelf (listing :: rest)
        (.compiled name graph listing.composer.typeName :: deposits)

/-! ## One listing -/

/-- A listing is passed over, or it is the end, or its graph is put on the shelf. -/
theorem listing_cases (enroller : Enroller) (shelf : Shelf) (listing : Listing) :
    listing.optsOut = true ∨ (∃ error, enroller.Stops shelf listing error) ∨
      ∃ name graph, listing.target? = some name ∧
        (enroller.compilerFor shelf).compile listing.composer = .ok graph := by
  cases hmarker : listing.composer.marker with
  | none => exact .inr (.inl ⟨_, .unmarked hmarker⟩)
  | some marker =>
      by_cases hautomatic : marker.automatic = true
      · have htarget : listing.target? = some (marker.graphNameFor listing.name) := by
          simp [Listing.target?, hmarker, hautomatic]
        cases hcompile : (enroller.compilerFor shelf).compile listing.composer with
        | error error => exact .inr (.inl ⟨error, .broken htarget hcompile⟩)
        | ok graph => exact .inr (.inr ⟨_, graph, htarget, rfl⟩)
      · exact .inl (by simp [Listing.optsOut, hmarker, hautomatic])

/-- A listing with a target has a marker that wants to be compiled, and is named by it. -/
theorem marker_of_target? {name : String} (h : listing.target? = some name) :
    ∃ marker, listing.composer.marker = some marker ∧ marker.automatic = true ∧
      marker.graphNameFor listing.name = name := by
  obtain ⟨marker, hmarker, hname⟩ := Option.map_eq_some_iff.mp h
  obtain ⟨hmarker, hautomatic⟩ := Option.filter_eq_some_iff.mp hmarker
  exact ⟨marker, hmarker, hautomatic, hname⟩

/-- A listing opts out by its marker. -/
theorem optsOut_iff :
    listing.optsOut = true ↔
      ∃ marker, listing.composer.marker = some marker ∧ marker.automatic = false := by
  simp [Listing.optsOut, Option.any_eq_true]

/-- A listing that opts out has no target. -/
theorem target?_of_optsOut (h : listing.optsOut = true) : listing.target? = none := by
  obtain ⟨marker, hmarker, hautomatic⟩ := optsOut_iff.mp h
  simp [Listing.target?, hmarker, hautomatic]

/-- A listing that opts out is passed over. -/
theorem enrollEach_pass (hout : listing.optsOut = true) (rest : List Listing) :
    enroller.enrollEach (listing :: rest) shelf = enroller.enrollEach rest shelf := by
  obtain ⟨marker, hmarker, hautomatic⟩ := optsOut_iff.mp hout
  simp [enrollEach, hmarker, hautomatic]

/-- A listing that cannot be enrolled stops the others behind it, and leaves the shelf. -/
theorem enrollEach_stop (hstops : enroller.Stops shelf listing error) (rest : List Listing) :
    enroller.enrollEach (listing :: rest) shelf = (.error error, shelf) := by
  cases hstops with
  | unmarked hmarker => simp [enrollEach, hmarker]
  | broken htarget hcompile =>
      obtain ⟨marker, hmarker, hautomatic, -⟩ := marker_of_target? htarget
      simp [enrollEach, accept, hmarker, hautomatic, hcompile]

/-- A listing that compiles is put on the shelf before the next one is looked at. -/
theorem enrollEach_take {name : String} {graph : Graph} (htarget : listing.target? = some name)
    (hcompile : (enroller.compilerFor shelf).compile listing.composer = .ok graph)
    (rest : List Listing) :
    enroller.enrollEach (listing :: rest) shelf =
      let result := enroller.enrollEach rest
        (shelf.putCompiled name graph listing.composer.typeName)
      (result.1.map (name :: ·), result.2) := by
  obtain ⟨marker, hmarker, hautomatic, rfl⟩ := marker_of_target? htarget
  simp [enrollEach, accept, hmarker, hautomatic, hcompile]

/-- Composers that opted out change nothing. -/
theorem enrollEach_filter (enroller : Enroller) (listings : List Listing) (shelf : Shelf) :
    enroller.enrollEach (listings.filter fun listing => !listing.optsOut) shelf =
      enroller.enrollEach listings shelf := by
  induction listings generalizing shelf with
  | nil => rfl
  | cons listing rest ih =>
      by_cases hout : listing.optsOut = true
      · rw [List.filter_cons_of_neg (by simp [hout]), enrollEach_pass hout, ih]
      · rw [List.filter_cons_of_pos (by simp [hout])]
        rcases enroller.listing_cases shelf listing with
          hpassed | ⟨error, hstops⟩ | ⟨name, graph, htarget, hcompile⟩
        · exact absurd hpassed hout
        · rw [enrollEach_stop hstops, enrollEach_stop hstops]
        · rw [enrollEach_take htarget hcompile, enrollEach_take htarget hcompile, ih]

/-! ## A list of listings -/

/-- What comes after an enrollment without a failure starts where it ended. -/
theorem Fills.enrollEach_append (h : enroller.Fills shelf listings deposits)
    (after : List Listing) :
    enroller.enrollEach (listings ++ after) shelf =
      let result := enroller.enrollEach after (shelf.receiveAll deposits)
      (result.1.map (deposits.map Deposit.name ++ ·), result.2) := by
  induction h with
  | done shelf =>
      change _ = ((enroller.enrollEach after shelf).1.map id, (enroller.enrollEach after shelf).2)
      rw [Except.map_id]
      rfl
  | pass hout hrest ih => rw [List.cons_append, enrollEach_pass hout, ih]
  | take htarget hcompile hrest ih =>
      rw [List.cons_append, enrollEach_take htarget hcompile, ih]
      refine Prod.ext ?_ rfl
      exact Traversal.map_map _ _ _

/-- **An enrollment without a failure makes its deposits.** -/
theorem Fills.enrollEach (h : enroller.Fills shelf listings deposits) :
    enroller.enrollEach listings shelf =
      (.ok (deposits.map Deposit.name), shelf.receiveAll deposits) := by
  have happend := h.enrollEach_append []
  rw [List.append_nil] at happend
  rw [happend]
  simp [Enroller.enrollEach, Except.map]

/-- An enrollment comes to the end of its list, or a listing stops it. -/
theorem fills_or_stops (enroller : Enroller) (listings : List Listing) (shelf : Shelf) :
    (∃ deposits, enroller.Fills shelf listings deposits) ∨
      ∃ before listing after deposits error, listings = before ++ listing :: after ∧
        enroller.Fills shelf before deposits ∧
        enroller.Stops (shelf.receiveAll deposits) listing error := by
  -- on the listings, for any shelf: the rest is enrolled on what the head leaves
  induction listings generalizing shelf with
  | nil => exact .inl ⟨[], .done shelf⟩
  | cons head rest ih =>
      rcases enroller.listing_cases shelf head with
        hout | ⟨error, hstops⟩ | ⟨name, graph, htarget, hcompile⟩
      · rcases ih shelf with ⟨deposits, hfills⟩ |
          ⟨before, listing, after, deposits, error, rfl, hfills, hstops⟩
        · exact .inl ⟨deposits, .pass hout hfills⟩
        · exact .inr ⟨head :: before, listing, after, deposits, error, rfl, .pass hout hfills, hstops⟩
      · exact .inr ⟨[], head, rest, [], error, rfl, .done shelf, hstops⟩
      · rcases ih (shelf.putCompiled name graph head.composer.typeName) with ⟨deposits, hfills⟩ |
          ⟨before, listing, after, deposits, error, rfl, hfills, hstops⟩
        · exact .inl ⟨_, .take htarget hcompile hfills⟩
        · exact .inr ⟨head :: before, listing, after, _, error, rfl, .take htarget hcompile hfills,
            hstops⟩

/-- A failure leaves what was deposited before it. -/
theorem Fills.enrollEach_stop (h : enroller.Fills shelf listings deposits)
    (hstops : enroller.Stops (shelf.receiveAll deposits) listing error) (after : List Listing) :
    enroller.enrollEach (listings ++ listing :: after) shelf =
      (.error error, shelf.receiveAll deposits) := by
  rw [h.enrollEach_append, Enroller.enrollEach_stop hstops]
  rfl

/-- **Enrolling succeeds iff the listings fill the shelf one after the other.** -/
theorem enrollEach_eq_ok_iff {names : List String} {left : Shelf} :
    enroller.enrollEach listings shelf = (.ok names, left) ↔
      ∃ deposits, enroller.Fills shelf listings deposits ∧ deposits.map Deposit.name = names ∧
        shelf.receiveAll deposits = left := by
  constructor
  · intro h
    rcases enroller.fills_or_stops listings shelf with ⟨deposits, hfills⟩ |
      ⟨before, listing, after, deposits, error, rfl, hfills, hstops⟩
    · cases hfills.enrollEach.symm.trans h
      exact ⟨deposits, hfills, rfl, rfl⟩
    · cases (hfills.enrollEach_stop hstops after).symm.trans h
  · rintro ⟨deposits, hfills, rfl, rfl⟩
    exact hfills.enrollEach

/-- **An enrollment fails iff a listing stops it**, after an enrollment of the
listings before it; what these put on the shelf stays. -/
theorem enrollEach_eq_error_iff {left : Shelf} :
    enroller.enrollEach listings shelf = (.error error, left) ↔
      ∃ before listing after names, listings = before ++ listing :: after ∧
        enroller.enrollEach before shelf = (.ok names, left) ∧
        enroller.Stops left listing error := by
  constructor
  · intro h
    rcases enroller.fills_or_stops listings shelf with ⟨deposits, hfills⟩ |
      ⟨before, listing, after, deposits, error, rfl, hfills, hstops⟩
    · cases hfills.enrollEach.symm.trans h
    · cases (hfills.enrollEach_stop hstops after).symm.trans h
      exact ⟨before, listing, after, _, rfl, hfills.enrollEach, hstops⟩
  · rintro ⟨before, listing, after, names, rfl, hbefore, hstops⟩
    obtain ⟨deposits, hfills, -, rfl⟩ := enrollEach_eq_ok_iff.mp hbefore
    exact hfills.enrollEach_stop hstops after

/-! ## What the deposits are -/

/-- The graphs get the names that the listings ask for. -/
theorem Fills.names (h : enroller.Fills shelf listings deposits) :
    deposits.map Deposit.name = listings.filterMap Listing.target? := by
  induction h with
  | done => rfl
  | pass hout hrest ih => rw [List.filterMap_cons_none (target?_of_optsOut hout), ih]
  | take htarget hcompile hrest ih =>
      rw [List.filterMap_cons_some htarget, List.map_cons, ih]
      rfl

/-- Every deposit is of a listed composer that opted in. -/
theorem Fills.composer? (h : enroller.Fills shelf listings deposits) :
    ∀ deposit ∈ deposits, ∃ listing ∈ listings, listing.target? ≠ none ∧
      deposit.composer? = some listing.composer.typeName := by
  induction h with
  | done => simp
  | @pass _ listing _ _ hout hrest ih =>
      intro deposit hdeposit
      obtain ⟨source, hsource, hknown⟩ := ih deposit hdeposit
      exact ⟨source, List.mem_cons_of_mem _ hsource, hknown⟩
  | @take _ listing _ _ name _ htarget hcompile hrest ih =>
      refine List.forall_mem_cons.mpr ⟨⟨listing, List.mem_cons_self, ?_, rfl⟩, ?_⟩
      · simp [htarget]
      · intro deposit hdeposit
        obtain ⟨source, hsource, hknown⟩ := ih deposit hdeposit
        exact ⟨source, List.mem_cons_of_mem _ hsource, hknown⟩

/-- The deposits of a listing that opted in: those made before it, its graph as
compiled against the shelf they left, and those made after it. -/
theorem Fills.split {before after : List Listing} {name : String}
    (h : enroller.Fills shelf (before ++ listing :: after) deposits)
    (htarget : listing.target? = some name) :
    ∃ early graph late,
      deposits = early ++ .compiled name graph listing.composer.typeName :: late ∧
      enroller.Fills shelf before early ∧
      (enroller.compilerFor (shelf.receiveAll early)).compile listing.composer = .ok graph ∧
      enroller.Fills ((shelf.receiveAll early).putCompiled name graph listing.composer.typeName)
        after late := by
  induction before generalizing shelf deposits with
  | nil =>
      cases h with
      | pass hout hrest =>
          cases (target?_of_optsOut hout).symm.trans htarget
      | take hname hcompile hrest =>
          cases hname.symm.trans htarget
          exact ⟨[], _, _, rfl, .done shelf, hcompile, hrest⟩
  | cons head before ih =>
      cases h with
      | pass hout hrest =>
          obtain ⟨early, graph, late, rfl, hearly, hcompiled, hlate⟩ := ih hrest
          exact ⟨early, graph, late, rfl, .pass hout hearly, hcompiled, hlate⟩
      | take hname hcompile hrest =>
          obtain ⟨early, graph, late, rfl, hearly, hcompiled, hlate⟩ := ih hrest
          exact ⟨_ :: early, graph, late, rfl, .take hname hcompile hearly, hcompiled, hlate⟩

/-- **What a listing that opted in comes to** in the end: its name has its graph, if
no later listing took the name, and its composer has its graph, if no later
listing took the name or brought another graph of the composer. -/
theorem Fills.enrolled {before after : List Listing} {name : String}
    (h : enroller.Fills shelf (before ++ listing :: after) deposits)
    (htarget : listing.target? = some name) :
    ∃ graph,
      (enroller.compilerFor (enroller.enrollEach before shelf).2).compile listing.composer =
        .ok graph ∧
      (name ∉ after.filterMap Listing.target? →
        (shelf.receiveAll deposits).get? name = some (.subgraph graph)) ∧
      ((∀ later ∈ after, later.target? ≠ none →
          later.composer.typeName ≠ listing.composer.typeName) →
        (shelf.receiveAll deposits).compiledFrom? listing.composer.typeName =
          if name ∈ after.filterMap Listing.target? then none else some graph) := by
  obtain ⟨early, graph, late, rfl, hearly, hcompile, hlate⟩ := h.split htarget
  rw [Shelf.receiveAll_compiled, ← hlate.names]
  refine ⟨graph, ?_, ?_, ?_⟩
  · rw [hearly.enrollEach]
    exact hcompile
  · intro hname
    rw [Shelf.get?_receiveAll_of_notMem hname]
    exact (Shelf.remembers_putCompiled _ name graph _).held
  · intro hlast
    refine Shelf.compiledFrom?_receiveAll _ name graph ?_
    intro deposit hdeposit heq
    obtain ⟨later, hlater, hin, hcomposer⟩ := hlate.composer? deposit hdeposit
    exact hlast later hlater hin (Option.some.inj (hcomposer.symm.trans heq))

/-! ## An enroller and its settings -/

/-- **An enrollment goes in turn, stops at the first failure and keeps what came
before it.**  If the settings do not allow it, nothing happens.  Otherwise the
listings that opted out might as well be missing.  There is an error iff a listing
has no marker, or opted in and does not compile against the shelf that an
enrollment of the listings before it leaves, and then this shelf is what is left.
Without an error the names are those that the listings ask for, in order; what is
under other names stays; and every listing that opted in has been compiled against
the shelf as it was left by the listings before it, its graph is under its name if
no later listing took it, and the last graph of a composer is found as such unless
a later listing took its name. -/
theorem enrolling_keeps_what_came_before (enroller : Enroller) (listings : List Listing)
    (shelf : Shelf) :
    (enroller.settings.compiles = false → enroller.enrollAll listings shelf = (.ok [], shelf)) ∧
    (enroller.settings.compiles = true →
      enroller.enrollAll (listings.filter fun listing => !listing.optsOut) shelf =
        enroller.enrollAll listings shelf ∧
      (∀ error left, enroller.enrollAll listings shelf = (.error error, left) ↔
        ∃ before listing after names, listings = before ++ listing :: after ∧
          enroller.enrollAll before shelf = (.ok names, left) ∧
          enroller.Stops left listing error) ∧
      ∀ names left, enroller.enrollAll listings shelf = (.ok names, left) →
        names = listings.filterMap Listing.target? ∧
        (∀ key, key ∉ names → left.get? key = shelf.get? key) ∧
        ∀ before listing after name, listings = before ++ listing :: after →
          listing.target? = some name →
          ∃ graph,
            (enroller.compilerFor (enroller.enrollAll before shelf).2).compile listing.composer =
              .ok graph ∧
            (name ∉ after.filterMap Listing.target? →
              left.get? name = some (.subgraph graph)) ∧
            ((∀ later ∈ after, later.target? ≠ none →
                later.composer.typeName ≠ listing.composer.typeName) →
              left.compiledFrom? listing.composer.typeName =
                if name ∈ after.filterMap Listing.target? then none else some graph)) := by
  constructor
  · intro hsettings
    rw [enrollAll, hsettings, if_neg Bool.false_ne_true]
  · intro hsettings
    have hall : ∀ listings, enroller.enrollAll listings shelf = enroller.enrollEach listings shelf :=
      fun _ => if_pos hsettings
    simp only [hall]
    refine ⟨enrollEach_filter enroller listings shelf, fun _ _ => enrollEach_eq_error_iff, ?_⟩
    intro names left h
    obtain ⟨deposits, hfills, rfl, rfl⟩ := enrollEach_eq_ok_iff.mp h
    refine ⟨hfills.names, fun key hkey => Shelf.get?_receiveAll_of_notMem hkey, ?_⟩
    rintro before listing after name rfl htarget
    exact hfills.enrolled htarget

/-- Two listings, of which the second needs the graph of the first. -/
def procession : List Listing :=
  [{ name := "heraldGraphComposer"
     composer :=
       { typeName := "Herald"
         marker := some {}
         members :=
           [{ Member.field "hail" (.nodeAction fun _ => .ok .empty) with
              tags := [.node { isStart := true }] }] } },
   { name := "envoy"
     composer :=
       { typeName := "Envoy"
         marker := some { graphName := "embassy" }
         members :=
           [{ Member.unset "heraldGraph" .subgraph with
              tags := [.node { isStart := true }] }] } }]

/-- An enroller whose compiler looks for missing values on the shelf. -/
def court : Enroller where
  compilerFor := fun shelf => { supplier := shelf.supply }

theorem composers_are_enrolled_in_turn :
    court.settings.compiles = true ∧
      ({ court with settings := { autoCompile := false } } : Enroller).enrollAll procession {} =
        (.ok [], {}) ∧
      ∃ left herald envoy,
        court.enrollAll procession {} = (.ok ["heraldGraph", "embassy"], left) ∧
        left.get? "heraldGraph" = some (.subgraph herald) ∧
        left.compiledFrom? "Herald" = some herald ∧
        left.get? "embassy" = some (.subgraph envoy) ∧
        left.compiledFrom? "Envoy" = some envoy := by
  obtain ⟨hnothing, -⟩ := enrolling_keeps_what_came_before
    { court with settings := { autoCompile := false } } procession {}
  obtain ⟨-, hall⟩ := enrolling_keeps_what_came_before court procession {}
  obtain ⟨-, -, hok⟩ := hall rfl
  obtain ⟨left, hleft⟩ : ∃ left,
      court.enrollAll procession {} = (.ok ["heraldGraph", "embassy"], left) := ⟨_, rfl⟩
  obtain ⟨-, -, heach⟩ := hok _ left hleft
  obtain ⟨herald, -, hherald, hfirst⟩ :=
    heach [] procession[0] [procession[1]] "heraldGraph" rfl rfl
  obtain ⟨envoy, -, henvoy, hsecond⟩ := heach [procession[0]] procession[1] [] "embassy" rfl rfl
  refine ⟨rfl, hnothing rfl, left, herald, envoy, hleft, hherald (by decide), ?_,
    henvoy (by decide), hsecond (by simp)⟩
  exact hfirst (by decide)

end Enroller

end FlowGraph
