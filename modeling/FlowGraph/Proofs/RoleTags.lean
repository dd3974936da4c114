import FlowGraph.Proofs.Offering
import FlowGraph.Shelf

/-!
# The tag that counts

A member may carry any number of tags in any order.  The role that takes
precedence is found in one pass over them, and the tag that says what the member
is in this role in another.  Together they single out one tag, the first of its
highest role; all others, and the members that have no role, may be left away.

* `Member.leadTag?`: the first tag of the highest role that some tag stands for.
* `Member.leadTag?_eq_firstTag?`: **both passes meet at this tag.**
* `Member.declares_trimmed`: a member declares what it would with this tag alone.
* `Shelf.supply_registry`: a shelf is one of the registries that values come from.
* `Compiler.lead_tags_decide`: **trimming does not show in what is compiled.**
-/

namespace FlowGraph

/-- The roles that tags can stand for, the highest first. -/
def Role.ranked : List Role := [.key, .node, .conditionalEdge, .compileConfig]

namespace Member

/-- The tag that counts: the first one of the highest role that some tag stands for. -/
def leadTag? (member : Member) : Option Tag := Role.ranked.findSome? member.firstTag?

/-- A member with the tag that counts and no other. -/
def trimmed (member : Member) : Member := { member with tags := member.leadTag?.toList }

/-- Each member of a list is trimmed, and some that have no role may be left out. -/
inductive Trims : List Member → List Member → Prop
  | nil : Trims [] []
  | keep (member : Member) {members kept : List Member} (rest : Trims members kept) :
      Trims (member :: members) (member.trimmed :: kept)
  | drop {member : Member} {members kept : List Member} (hrole : member.role = .unrecognized)
      (rest : Trims members kept) : Trims (member :: members) kept

variable {member : Member}

/-! ## One tag for the role -/

/-- No tag stands for a role above the member's. -/
theorem firstTag?_of_rank_lt {role : Role} (h : role.rank < member.role.rank) :
    member.firstTag? role = none := by
  rw [firstTag?_eq_none_iff]
  intro hcarries
  obtain ⟨tag, hmem, rfl⟩ := hcarries
  exact absurd (member.role_le tag hmem) (Nat.not_le.mpr h)

/-- Some tag stands for the role of a member, if the member has one. -/
theorem exists_firstTag? (h : member.role ≠ .unrecognized) :
    ∃ tag, member.firstTag? member.role = some tag := by
  refine Option.ne_none_iff_exists'.mp ?_
  rw [ne_eq, firstTag?_eq_none_iff, not_not]
  exact member.role_mem.resolve_right h

/-- **The tag that counts is the first of the member's role.** -/
theorem leadTag?_eq_firstTag? (h : member.role ≠ .unrecognized) :
    member.leadTag? = member.firstTag? member.role := by
  obtain ⟨tag, hfirst⟩ := exists_firstTag? h
  have habove : ∀ role : Role, role.rank < member.role.rank → member.firstTag? role = none :=
    fun _ => firstTag?_of_rank_lt
  rw [leadTag?, Role.ranked]
  cases hrole : member.role with
  | unrecognized => exact absurd hrole h
  | key => simp_all [Role.rank]
  | node => simp_all [Role.rank]
  | conditionalEdge => simp_all [Role.rank]
  | compileConfig => simp_all [Role.rank]

/-- A member without a role has no tag that counts. -/
theorem leadTag?_of_unrecognized (h : member.role = .unrecognized) : member.leadTag? = none := by
  rw [leadTag?, List.findSome?_eq_none_iff]
  intro role hrole
  refine firstTag?_of_rank_lt ?_
  rw [h]
  revert role
  decide

/-- A trimmed member has the role that it had. -/
theorem role_trimmed (member : Member) : member.trimmed.role = member.role := by
  by_cases h : member.role = .unrecognized
  · have htags : member.trimmed.tags = [] := by
      rw [trimmed, leadTag?_of_unrecognized h]
      rfl
    rw [h, role, htags]
    rfl
  · obtain ⟨tag, hfirst⟩ := exists_firstTag? h
    have htags : member.trimmed.tags = [tag] := by
      rw [trimmed, leadTag?_eq_firstTag? h, hfirst]
      rfl
    exact role_eq_of_carries (by simp [htags])
      ⟨tag, by simp [htags], (of_firstTag? hfirst).2⟩

/-! ## What a member declares with one tag -/

/-- A member is read in its role by the tag that counts. -/
theorem reading_trimmed (member : Member) :
    member.role.reading member.trimmed = member.role.reading member := by
  by_cases h : member.role = .unrecognized
  · rw [h]
    rfl
  · rw [trimmed, leadTag?_eq_firstTag? h]
    exact member.role.reading_firstTag? member

end Member

/-! ## Suppliers that do not look at tags -/

/-- A store of values, known by its answers alone. -/
structure Registry where
  contains : String → Bool
  /-- Whether the value under a name has a kind. -/
  hasKind : String → Kind → Bool
  get? : String → Option Component
  /-- The value of a kind, if there is just one. -/
  only : Kind → Shelf.Selection

namespace Registry

/-- The value under a name, if it is there and has the kind that is looked for. -/
def named? (registry : Registry) (name : String) (kind : Kind) : Option Component :=
  if registry.contains name && registry.hasKind name kind then registry.get? name else none

/-- **A registry as a supplier**: by the candidate's name, by the member's name, or as
the only value of the declared kind. -/
def supply (registry : Registry) : Supplier := fun member candidate =>
  ((Text.given candidate).bind fun name => registry.named? name member.declared)
    <|> registry.named? member.name member.declared
    <|> match registry.only member.declared with
      | .one value => some value
      | _ => none

end Registry

namespace Shelf

/-- A shelf is a registry. -/
def registry (shelf : Shelf) : Registry := ⟨shelf.contains, shelf.hasKind, shelf.get?, shelf.only⟩

/-- A name whose value has a kind is taken. -/
theorem contains_of_hasKind {shelf : Shelf} {name : String} {kind : Kind}
    (h : shelf.hasKind name kind = true) : shelf.contains name = true := by
  obtain ⟨entry, hentry, hname⟩ := List.any_eq_true.mp h
  rw [contains, Option.isSome_iff_ne_none, get?, ne_eq, Fields.get?_eq_none_iff]
  intro habsent
  simp only [Bool.and_eq_true, beq_iff_eq] at hname
  exact habsent entry hentry hname.1

/-- **A shelf supplies what it supplies as a registry.** -/
theorem supply_registry (shelf : Shelf) : shelf.registry.supply = shelf.supply := by
  have hnamed : ∀ name kind, shelf.registry.named? name kind = shelf.named? name kind := by
    intro name kind
    rw [Registry.named?, named?, registry]
    by_cases h : shelf.hasKind name kind = true
    · simp [h, contains_of_hasKind h]
    · simp [h]
  funext member candidate
  simp only [Registry.supply, hnamed]
  rfl

end Shelf

/-- The answers of a supplier do not hang on the tags of members. -/
def Supplier.IgnoresTags (supplier : Supplier) : Prop :=
  ∀ (member : Member) (tags : List Tag) (candidate : Option String),
    supplier { member with tags } candidate = supplier member candidate

/-- Who has nothing to give does not look at tags. -/
theorem Supplier.ignoresTags_none : Supplier.none.IgnoresTags := fun _ _ _ => rfl

/-- A registry is asked by the name and the kind of a member. -/
theorem Registry.ignoresTags_supply (registry : Registry) : Supplier.IgnoresTags registry.supply :=
  fun _ _ _ => rfl

/-! ## What is compiled -/

namespace Member

variable {supplier : Supplier} {member : Member}

/-- **A member declares what it would with one tag.** -/
theorem declares_trimmed (h : supplier.IgnoresTags) (member : Member) :
    member.trimmed.declares supplier = member.declares supplier := by
  have hvalue : ∀ candidate,
      (member.trimmed.value <|> supplier member.trimmed candidate) =
        (member.value <|> supplier member candidate) :=
    fun candidate => congrArg (member.value <|> ·) (h member _ candidate)
  rw [declares, declares, role_trimmed, reading_trimmed]
  cases member.role.reading member with
  | none => rfl
  | some reading =>
      cases reading with
      | settled result => rfl
      | awaiting candidate read => exact congrArg read (hvalue candidate)

/-- A member without a role declares nothing. -/
theorem declares_of_unrecognized (h : member.role = .unrecognized) :
    member.declares supplier = .ok (.operations []) := by
  simp only [declares, h, Role.reading]

end Member

namespace Plan

variable {plan : Plan} {member : Member}

/-- A plan does not look at tags when something is added to it. -/
theorem add_trimmed (plan : Plan) (member : Member) (found : Contribution) :
    plan.add member.trimmed found = plan.add member found := by
  cases found <;> rfl

/-- A plan takes a trimmed member as it takes the member. -/
theorem take_trimmed (h : plan.supplier.IgnoresTags) (member : Member) :
    plan.take member.trimmed = plan.take member := by
  have hadd : plan.add member.trimmed = plan.add member := funext (plan.add_trimmed member)
  rw [take, take, member.declares_trimmed h, hadd]

/-- A member without a role adds nothing. -/
theorem take_of_unrecognized (h : member.role = .unrecognized) : plan.take member = .ok plan := by
  rw [take, Member.declares_of_unrecognized h]
  simp [bind, Except.bind, add, deferAll]

/-- **Trimmed members are taken as the members are.** -/
theorem takeAll_of_trims {members kept : List Member} (h : plan.supplier.IgnoresTags)
    (htrims : Member.Trims members kept) : plan.takeAll kept = plan.takeAll members := by
  -- on the trimming, for any plan that still has the same supplier
  induction htrims generalizing plan with
  | nil => rfl
  | keep member _ ih =>
      rw [takeAll_cons, takeAll_cons, take_trimmed h]
      cases htake : plan.take member with
      | error refusal => rfl
      | ok next =>
          have hnext : next.supplier.IgnoresTags := by rwa [supplier_of_take htake]
          exact ih hnext
  | drop hrole _ ih =>
      rw [ih h]
      conv_rhs => rw [takeAll_cons, take_of_unrecognized hrole]
      rfl

end Plan

/-- **The first tag of the highest role decides.**  A compiler without extensions that
has no values to give, or gives those of a registry, makes the same of a composer,
whatever its hooks, if each member keeps only the tag that counts, and if members
without a role are left out. -/
theorem Compiler.lead_tags_decide {compiler : Compiler} {composer : Composer}
    {members : List Member} (hplain : compiler.extensions = [])
    (hsupplier : compiler.supplier = .none ∨ ∃ registry : Registry, compiler.supplier = registry.supply)
    (htrims : Member.Trims composer.members members) :
    compiler.compile { composer with members } = compiler.compile composer := by
  have hignores : compiler.supplier.IgnoresTags := by
    rcases hsupplier with hnone | ⟨registry, hregistry⟩
    · exact hnone ▸ Supplier.ignoresTags_none
    · exact hregistry ▸ registry.ignoresTags_supply
  have hwalk : ∀ graphId, (compiler.emptyPlan graphId).takeAll members =
      (compiler.emptyPlan graphId).takeAll composer.members :=
    fun graphId => Plan.takeAll_of_trims hignores htrims
  have hdefine : ∀ graphId, compiler.define graphId { composer with members } =
      compiler.define graphId composer := by
    intro graphId
    rw [define_eq_of_plain hplain, define_eq_of_plain hplain, hwalk]
  simp only [compile, Composer.graphId, hdefine]

/-- A node without a value of its own, tagged twice as a node and as what it is not. -/
def Member.porter : Member :=
  { Member.unset "porter" .nodeAction with
    tags := [.custom { name := "uniform" }, .compileConfig,
      .node { isStart := true, next := [endId] }, .edge { source := "porter" },
      .node { id := some "clerk" }] }

/-- Has a porter, and a text that stands for nothing. -/
def Composer.lobby : Composer where
  typeName := "Lobby"
  marker := some {}
  members :=
    [.porter, { Member.constant "sign" (.text "closed") with tags := [.custom { name := "paint" }] }]

/-- The porter, supplied from a shelf, is the node that the first of its node tags
makes it, and the sign may be taken down. -/
theorem Compiler.further_tags_can_be_trimmed :
    let compiler : Compiler :=
      { supplier := (Shelf.put {} "porter" (.nodeAction fun _ => .ok .empty)).supply }
    let only : Member := { Member.porter with tags := [.node { isStart := true, next := [endId] }] }
    Member.Trims Composer.lobby.members [only] ∧
      compiler.compile { Composer.lobby with members := [only] } =
        compiler.compile Composer.lobby ∧
      ∃ graph, compiler.compile Composer.lobby = .ok graph ∧ graph.nodeIds = ["porter"] := by
  intro compiler only
  have htrims : Member.Trims Composer.lobby.members [only] := .keep .porter (.drop rfl .nil)
  have hshelf := (Shelf.put {} "porter" (.nodeAction fun _ => .ok .empty)).supply_registry
  exact ⟨htrims, lead_tags_decide rfl (Or.inr ⟨_, hshelf.symm⟩) htrims, _, rfl, rfl⟩

end FlowGraph
