import FlowGraph.Proofs.Enrolling

/-!
# Names that graphs get by default

A graph that is given no name is named after its listing: without the ending
`Composer`, or with `Compiled` added where there is no such ending, or nothing
but it.  Each of the two rules keeps names apart, but together they do not: what
one of them leaves of a name can be what the other one makes of another.

* `defaultName_ofEnding`, `defaultName_ofWhole`: the two rules.
* `defaultName_eq_iff`: **which names two listings share.**
* `Enroller.default_names_clash_in_pairs`: what this means for an enrollment.
-/

namespace FlowGraph

/-- A text has an ending iff something can be put in front of the ending. -/
theorem withoutEnding?_eq_some_iff {ending text base : List Char} :
    withoutEnding? ending text = some base ↔ text = base ++ ending := by
  unfold withoutEnding?
  by_cases h : ending.isSuffixOf text = true
  · obtain ⟨front, rfl⟩ := List.isSuffixOf_iff_suffix.mp h
    simp [h]
  · have hnone : ∀ base, text ≠ base ++ ending := by
      rintro base rfl
      exact h (List.isSuffixOf_iff_suffix.mpr (List.suffix_append base ending))
    simp [h, hnone]

namespace Listing

/-- The name that the graph of a listing gets if it is given none. -/
def defaultName (listed : String) : String := ({} : Marker).graphNameFor listed

/-- A name is kept whole: it does not end in `Composer`, or is nothing more. -/
def KeptWhole (listed : String) : Prop := ∀ base, listed = base ++ "Composer" → base = ""

/-- What is added to one name is what is left of another. -/
def Clash (listed other : String) : Prop :=
  KeptWhole listed ∧ other = listed ++ "CompiledComposer"

variable {listed other : String}

/-- The default name takes an ending off, if something is left, and else adds one. -/
theorem defaultName_eq (listed : String) :
    defaultName listed =
      match withoutEnding? "Composer".toList listed.toList with
      | some (c :: rest) => String.ofList (c :: rest)
      | _ => listed ++ "Compiled" := rfl

/-- A marker that gives no name leaves the default. -/
theorem graphNameFor_eq_defaultName {marker : Marker} (h : Text.given marker.graphName = none) :
    marker.graphNameFor listed = defaultName listed := by
  rw [Marker.graphNameFor, h]
  rfl

/-- A name with the ending loses it. -/
theorem defaultName_ofEnding {base : String} (h : base ≠ "") :
    defaultName (base ++ "Composer") = base := by
  have hending : withoutEnding? "Composer".toList (base ++ "Composer").toList = some base.toList :=
    withoutEnding?_eq_some_iff.mpr String.toList_append
  cases hbase : base.toList with
  | nil => exact absurd (String.toList_eq_nil_iff.mp hbase) h
  | cons c rest =>
      rw [hbase] at hending
      simp only [defaultName_eq, hending]
      rw [← hbase, String.ofList_toList]

/-- A name that is kept whole gets another ending. -/
theorem defaultName_ofWhole (h : KeptWhole listed) : defaultName listed = listed ++ "Compiled" := by
  have hending : ∀ c rest, withoutEnding? "Composer".toList listed.toList ≠ some (c :: rest) := by
    intro c rest hsome
    have hlisted : listed = String.ofList (c :: rest) ++ "Composer" := by
      rw [← String.toList_inj, String.toList_append, String.toList_ofList]
      exact withoutEnding?_eq_some_iff.mp hsome
    have hempty := h _ hlisted
    rw [← String.toList_inj, String.toList_ofList] at hempty
    cases hempty
  rw [defaultName_eq]
  split
  · next c rest hsome => exact absurd hsome (hending c rest)
  · rfl

/-- A name that is not kept whole is one with the ending. -/
theorem exists_base_of_not_keptWhole (h : ¬ KeptWhole listed) :
    ∃ base, base ≠ "" ∧ listed = base ++ "Composer" := by
  simp only [KeptWhole, not_forall] at h
  obtain ⟨base, hlisted, hbase⟩ := h
  exact ⟨base, hbase, hlisted⟩

/-- What has `CompiledComposer` added has the ending, and loses it. -/
theorem Clash.defaultName_eq (h : Clash listed other) : defaultName other = defaultName listed := by
  obtain ⟨hwhole, rfl⟩ := h
  have hsplit : listed ++ "CompiledComposer" = (listed ++ "Compiled") ++ "Composer" := by
    rw [String.append_assoc]
    rfl
  have hbase : listed ++ "Compiled" ≠ "" := by simp
  rw [hsplit, defaultName_ofEnding hbase, defaultName_ofWhole hwhole]

/-- What is left of a name that has the ending is what is added to a name that is kept
whole only if the two clash. -/
theorem clash_of_defaultName_eq {base : String} (hwhole : KeptWhole listed)
    (h : listed ++ "Compiled" = base) : Clash listed (base ++ "Composer") := by
  refine ⟨hwhole, ?_⟩
  rw [← h, String.append_assoc]
  rfl

/-- **Two listings give one name only if they are one, or clash.** -/
theorem defaultName_eq_iff :
    defaultName listed = defaultName other ↔
      listed = other ∨ Clash listed other ∨ Clash other listed := by
  constructor
  · intro h
    by_cases hlisted : KeptWhole listed
    · rw [defaultName_ofWhole hlisted] at h
      by_cases hother : KeptWhole other
      · rw [defaultName_ofWhole hother, String.append_left_inj] at h
        exact Or.inl h
      · obtain ⟨base, hbase, rfl⟩ := exists_base_of_not_keptWhole hother
        rw [defaultName_ofEnding hbase] at h
        exact Or.inr (Or.inl (clash_of_defaultName_eq hlisted h))
    · obtain ⟨base, hbase, rfl⟩ := exists_base_of_not_keptWhole hlisted
      rw [defaultName_ofEnding hbase] at h
      by_cases hother : KeptWhole other
      · rw [defaultName_ofWhole hother] at h
        exact Or.inr (Or.inr (clash_of_defaultName_eq hother h.symm))
      · obtain ⟨base', hbase', rfl⟩ := exists_base_of_not_keptWhole hother
        rw [defaultName_ofEnding hbase'] at h
        exact Or.inl (congrArg (· ++ "Composer") h)
  · rintro (rfl | hclash | hclash)
    · rfl
    · exact hclash.defaultName_eq.symm
    · exact hclash.defaultName_eq

/-- A name does not clash with itself. -/
theorem Clash.ne (h : Clash listed other) : listed ≠ other := by
  obtain ⟨-, rfl⟩ := h
  intro hsame
  have hlength := congrArg String.length hsame
  simp at hlength

/-- Distinct names give distinct names unless two of them clash. -/
theorem nodup_map_defaultName_iff {names : List String} (hdistinct : names.Nodup) :
    (names.map defaultName).Nodup ↔ ∀ name ∈ names, ∀ other ∈ names, ¬ Clash name other := by
  rw [List.nodup_map_iff_inj_on hdistinct]
  constructor
  · intro h name hname other hother hclash
    exact hclash.ne (h name hname other hother hclash.defaultName_eq.symm)
  · intro h name hname other hother hsame
    rcases defaultName_eq_iff.mp hsame with heq | hclash | hclash
    · exact heq
    · exact absurd hclash (h name hname other hother)
    · exact absurd hclash (h other hother name hname)

/-- A listing opts in, and leaves the name of its graph open. -/
def ByDefault (listing : Listing) : Prop :=
  ∃ marker, listing.composer.marker = some marker ∧ marker.automatic = true ∧
    Text.given marker.graphName = none

/-- A listing without a name of its own choice gets the default one. -/
theorem ByDefault.target? {listing : Listing} (h : listing.ByDefault) :
    listing.target? = some (defaultName listing.name) := by
  obtain ⟨marker, hmarker, hautomatic, hname⟩ := h
  simp [Listing.target?, hmarker, hautomatic, graphNameFor_eq_defaultName hname]

/-- Listings without names of their own choice get the default ones. -/
theorem filterMap_target? {listings : List Listing} (h : ∀ listing ∈ listings, listing.ByDefault) :
    listings.filterMap Listing.target? = (listings.map Listing.name).map defaultName := by
  rw [List.filterMap_congr fun listing hlisting => (h listing hlisting).target?,
    List.filterMap_eq_map', List.map_map]
  rfl

end Listing

namespace Enroller

open FlowGraph.Listing (defaultName Clash)

/-- **Default names clash in pairs.**  Let all listings opt in under distinct names and
leave the names of their graphs open, and let an enrollment come to the end of them.

* The graphs get the default names.  Two of these are the same iff one listing is named
  as the other with `CompiledComposer` added, and the other's name is kept whole.
* So the names are distinct iff no two listings are such a pair.
* Every listing was compiled against the shelf as the listings before it left it, and
  its graph is under its name, unless the other half of such a pair comes later. -/
theorem default_names_clash_in_pairs {enroller : Enroller} {listings : List Listing}
    {names : List String} {shelf left : Shelf} (hsettings : enroller.settings.compiles = true)
    (hdistinct : (listings.map Listing.name).Nodup)
    (hdefault : ∀ listing ∈ listings, listing.ByDefault)
    (h : enroller.enrollAll listings shelf = (.ok names, left)) :
    names = (listings.map Listing.name).map defaultName ∧
      (∀ listing ∈ listings, ∀ other ∈ listings,
        defaultName listing.name = defaultName other.name ↔ listing.name = other.name ∨
          Clash listing.name other.name ∨ Clash other.name listing.name) ∧
      (names.Nodup ↔
        ∀ listing ∈ listings, ∀ other ∈ listings, ¬ Clash listing.name other.name) ∧
      ∀ before listing after, listings = before ++ listing :: after →
        ∃ graph,
          (enroller.compilerFor (enroller.enrollAll before shelf).2).compile listing.composer =
            .ok graph ∧
          ((∀ later ∈ after, ¬ Clash listing.name later.name ∧ ¬ Clash later.name listing.name) →
            left.get? (defaultName listing.name) = some (.subgraph graph)) := by
  have hall : ∀ listings, enroller.enrollAll listings shelf = enroller.enrollEach listings shelf :=
    fun _ => if_pos hsettings
  simp only [hall] at h ⊢
  obtain ⟨deposits, hfills, hnames, rfl⟩ := enrollEach_eq_ok_iff.mp h
  rw [hfills.names, Listing.filterMap_target? hdefault] at hnames
  refine ⟨hnames.symm, fun _ _ _ _ => Listing.defaultName_eq_iff, ?_, ?_⟩
  · rw [← hnames, Listing.nodup_map_defaultName_iff hdistinct]
    simp only [List.forall_mem_map]
  · rintro before listing after rfl
    have htarget := (hdefault listing (by simp)).target?
    obtain ⟨graph, hcompile, hheld, -⟩ := hfills.enrolled htarget
    refine ⟨graph, hcompile, ?_⟩
    intro hlast
    refine hheld ?_
    have hlater : ∀ later ∈ after, later.ByDefault :=
      fun later hlater => hdefault later (by simp [hlater])
    rw [Listing.filterMap_target? hlater, List.map_map]
    intro hmem
    obtain ⟨later, hmem, hsame⟩ := List.mem_map.mp hmem
    rcases Listing.defaultName_eq_iff.mp hsame.symm with heq | hclash | hclash
    · rw [List.map_append, List.map_cons, List.nodup_append, List.nodup_cons] at hdistinct
      exact hdistinct.2.1.1 (heq ▸ List.mem_map_of_mem hmem)
    · exact (hlast later hmem).1 hclash
    · exact (hlast later hmem).2 hclash

/-- A composer with one node, listed under a name. -/
def soloist (name : String) : Listing where
  name := name
  composer :=
    { typeName := name
      marker := some {}
      members :=
        [{ Member.field name (.nodeAction fun _ => .ok .empty) with
           tags := [.node { isStart := true }] }] }

theorem soloist_byDefault (name : String) : (soloist name).ByDefault := ⟨{}, rfl, rfl, rfl⟩

/-- Three listings, of which the first and the last clash. -/
def trio : List Listing := [soloist "solo", soloist "duoComposer", soloist "soloCompiledComposer"]

theorem trio_byDefault : ∀ listing ∈ trio, listing.ByDefault := by
  intro listing hlisting
  simp only [trio, List.mem_cons, List.not_mem_nil, or_false] at hlisting
  rcases hlisting with rfl | rfl | rfl <;> exact soloist_byDefault _

/-- The last of the trio takes the name of the first, which is left without its graph;
the second keeps its own. -/
theorem third_default_name_takes_the_first :
    court.settings.compiles = true ∧ (trio.map Listing.name).Nodup ∧
      (∀ listing ∈ trio, listing.ByDefault) ∧
      ∃ left duo last, court.enrollAll trio {} = (.ok ["soloCompiled", "duo", "soloCompiled"], left) ∧
        left.get? "duo" = some (.subgraph duo) ∧ duo.nodeIds = ["duoComposer"] ∧
        left.get? "soloCompiled" = some (.subgraph last) ∧
        last.nodeIds = ["soloCompiledComposer"] := by
  obtain ⟨left, hleft⟩ : ∃ left,
      court.enrollAll trio {} = (.ok ["soloCompiled", "duo", "soloCompiled"], left) := ⟨_, rfl⟩
  have hsettings : court.settings.compiles = true := rfl
  have hdistinct : (trio.map Listing.name).Nodup := by decide
  obtain ⟨-, -, -, heach⟩ :=
    default_names_clash_in_pairs hsettings hdistinct trio_byDefault hleft
  obtain ⟨duo, hduo, hkeeps⟩ := heach [trio[0]] trio[1] [trio[2]] rfl
  obtain ⟨last, hlast, htakes⟩ := heach [trio[0], trio[1]] trio[2] [] rfl
  have hduoNodes := Except.ok.inj (congrArg (Except.map Graph.nodeIds) hduo)
  have hlastNodes := Except.ok.inj (congrArg (Except.map Graph.nodeIds) hlast)
  have hapart : ∀ later ∈ [trio[2]], ¬ Clash trio[1].name later.name ∧
      ¬ Clash later.name trio[1].name := by
    intro later hlater
    cases List.mem_singleton.mp hlater
    exact ⟨fun hclash => absurd hclash.2 (by decide), fun hclash => absurd hclash.2 (by decide)⟩
  exact ⟨hsettings, hdistinct, trio_byDefault, left, duo, last, hleft, hkeeps hapart,
    hduoNodes.symm, htakes (by simp), hlastNodes.symm⟩

/-- Hence graphs may lose their names to each other. -/
theorem not_every_default_name_is_distinct :
    ¬ ∀ (enroller : Enroller) (listings : List Listing) (shelf left : Shelf) (names : List String),
      enroller.settings.compiles = true → (listings.map Listing.name).Nodup →
      (∀ listing ∈ listings, listing.ByDefault) →
      enroller.enrollAll listings shelf = (.ok names, left) → names.Nodup := by
  intro h
  obtain ⟨left, hleft⟩ : ∃ left,
      court.enrollAll trio {} = (.ok ["soloCompiled", "duo", "soloCompiled"], left) := ⟨_, rfl⟩
  exact absurd (h court trio {} left _ rfl (by decide) trio_byDefault hleft) (by decide)

end Enroller

end FlowGraph
