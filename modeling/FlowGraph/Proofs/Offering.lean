import FlowGraph.Proofs.PlainScan

/-!
# Members offered to built-in handlers

The built-in handlers may stand among the extensions too, and are then offered
members of every role.  Those of keys, nodes and conditional edges look for
their tag first and pass a member that has none.  The handler of compile configs
looks for no tag: whatever it is offered it reads for a compile config, so it
takes what is meant for other handlers, and refuses what nobody would read.

* `Role.reading_firstTag?`, `Role.isSome_reading_iff`: which handlers read which
  members, and by which tag.
* `Handler.offer_builtins`: **the first handler that reads a member decides.**
* `Compiler.compile_builtins_congr`: chains that read the members for the same
  roles compile alike.
* `Handler.harmless_iff_reads_no_config`: what a built-in handler passes over, and
  which chains change nothing.
-/

namespace FlowGraph

namespace Member

/-- Some tag of a member stands for a role. -/
def Carries (member : Member) (role : Role) : Prop := ∃ tag ∈ member.tags, tag.role = role

/-- The first tag of a member that stands for a role. -/
def firstTag? (member : Member) (role : Role) : Option Tag :=
  member.tags.find? fun tag => tag.role == role

/-! ## Which handlers read which members -/

/-- There is no first tag of a role iff no tag stands for it. -/
theorem firstTag?_eq_none_iff {member : Member} {role : Role} :
    member.firstTag? role = none ↔ ¬ member.Carries role := by
  simp [firstTag?, Carries]

/-- The first tag of a role is a tag of the member and stands for the role. -/
theorem of_firstTag? {member : Member} {role : Role} {tag : Tag}
    (h : member.firstTag? role = some tag) : tag ∈ member.tags ∧ tag.role = role :=
  ⟨List.mem_of_find?_eq_some h, by simpa using List.find?_some h⟩

/-- What is looked up by role in a list of tags stands in the first tag of the role. -/
theorem findSome?_find? {α : Type} {role : Role} {spec? : Tag → Option α}
    (hspec : ∀ tag, (spec? tag).isSome = (tag.role == role)) (tags : List Tag) :
    (tags.find? fun tag => tag.role == role).toList.findSome? spec? = tags.findSome? spec? := by
  induction tags with
  | nil => rfl
  | cons tag rest ih =>
      rw [List.find?_cons, List.findSome?_cons, ← hspec tag]
      cases hfound : spec? tag with
      | none => exact ih
      | some spec => simp [hfound]

end Member

/-- **The first tag of a role is all that its handler looks at.** -/
theorem Role.reading_firstTag? (role : Role) (member : Member) :
    role.reading { member with tags := (member.firstTag? role).toList } = role.reading member := by
  cases role with
  | key =>
      have hsame : ({ member with tags := (member.firstTag? .key).toList } : Member).key? =
          member.key? :=
        Member.findSome?_find? (fun tag => by cases tag <;> rfl) member.tags
      simp only [reading, hsame]
      rfl
  | node =>
      have hsame : ({ member with tags := (member.firstTag? .node).toList } : Member).node? =
          member.node? :=
        Member.findSome?_find? (fun tag => by cases tag <;> rfl) member.tags
      simp only [reading, hsame]
      rfl
  | conditionalEdge =>
      have hsame : ({ member with tags := (member.firstTag? .conditionalEdge).toList } :
          Member).edge? = member.edge? :=
        Member.findSome?_find? (fun tag => by cases tag <;> rfl) member.tags
      simp only [reading, hsame]
      rfl
  | compileConfig => rfl
  | unrecognized => rfl

/-- **Three of the four handlers go by the tags.**  The handler of compile configs
reads every member. -/
theorem Role.isSome_reading_iff (role : Role) (member : Member) :
    (role.reading member).isSome = true ↔
      role = .compileConfig ∨ role ≠ .unrecognized ∧ member.Carries role := by
  rw [← role.reading_firstTag? member]
  cases hfirst : member.firstTag? role with
  | none =>
      have hbare := Member.firstTag?_eq_none_iff.mp hfirst
      cases role <;> simp [reading, Member.key?, Member.node?, Member.edge?, hbare]
  | some tag =>
      obtain ⟨hmem, hrole⟩ := Member.of_firstTag? hfirst
      have hcarries : member.Carries role := ⟨tag, hmem, hrole⟩
      subst hrole
      cases tag <;> simp_all [Tag.role, reading, Member.key?, Member.node?, Member.edge?]

/-- A member with a role is read for it. -/
theorem Member.exists_reading (member : Member) (h : member.role ≠ .unrecognized) :
    ∃ reading, member.role.reading member = some reading :=
  Option.isSome_iff_exists.mp
    ((member.role.isSome_reading_iff member).mpr (Or.inr ⟨h, member.role_mem.resolve_right h⟩))

/-- A member with one tag at most has the role of any tag that it carries. -/
theorem Member.role_eq_of_carries {member : Member} {role : Role} (hsingle : member.tags.length ≤ 1)
    (h : member.Carries role) : member.role = role := by
  obtain ⟨tag, hmem, hrole⟩ := h
  obtain ⟨other, htags⟩ : ∃ other, member.tags = [other] :=
    List.length_eq_one_iff.mp (Nat.le_antisymm hsingle (List.length_pos_of_mem hmem))
  rw [htags] at hmem
  cases List.mem_singleton.mp hmem
  rw [Member.role, htags, ← hrole]
  cases tag <;> rfl

namespace Handler

variable {member : Member} {plan : Plan} {role : Role}

/-- A built-in handler that cannot read a member passes it, and leaves the plan as it is. -/
theorem builtin_of_unread (h : role.reading member = none) :
    builtin role member plan = (.ok .passed, plan) := by
  simp only [builtin, h]

/-- A built-in handler that reads a member does not pass it. -/
theorem builtin_ne_passed (h : (role.reading member).isSome = true) :
    (builtin role member plan).1 ≠ .ok .passed := by
  obtain ⟨reading, hreading⟩ := Option.isSome_iff_exists.mp h
  simp only [builtin, hreading]
  split <;> simp

/-! ## Members offered in turn -/

/-- A member that is passed on goes to the other handlers, with the plan as it was left. -/
theorem offer_cons_of_passed {handler : Handler} {rest : List Handler} {next : Plan}
    (h : handler member plan = (.ok .passed, next)) :
    offer (handler :: rest) member plan = offer rest member next := by
  simp only [offer, h]

/-- A member that is not passed on goes no further. -/
theorem offer_cons_of_ne_passed {handler : Handler} {rest : List Handler}
    (h : (handler member plan).1 ≠ .ok .passed) :
    offer (handler :: rest) member plan = handler member plan := by
  rw [offer]
  split
  · next hpassed => simp [hpassed] at h
  · rfl

/-- The last handler has the last word. -/
theorem offer_singleton (handler : Handler) (member : Member) (plan : Plan) :
    offer [handler] member plan = handler member plan := by
  rcases hanswer : handler member plan with ⟨answer, next⟩
  by_cases h : answer = .ok .passed
  · rw [h] at hanswer ⊢
    exact offer_cons_of_passed hanswer
  · rw [← hanswer]
    exact offer_cons_of_ne_passed (by rwa [hanswer])

/-- **The first built-in handler that reads a member decides**; if none does, the
handlers behind them are asked, with the plan as it was. -/
theorem offer_builtins (roles : List Role) (rest : List Handler) (member : Member) (plan : Plan) :
    offer (roles.map builtin ++ rest) member plan =
      match roles.find? fun role => (role.reading member).isSome with
      | some role => builtin role member plan
      | none => offer rest member plan := by
  induction roles with
  | nil => rfl
  | cons role roles ih =>
      rw [List.map_cons, List.cons_append, List.find?_cons]
      cases hreads : (role.reading member).isSome with
      | true => exact offer_cons_of_ne_passed (builtin_ne_passed hreads)
      | false =>
          have hunread : role.reading member = none := by simpa using hreads
          rw [offer_cons_of_passed (builtin_of_unread hunread)]
          exact ih

end Handler

/-! ## Chains of built-in handlers -/

/-- The role that a member is read for where handlers of some roles are asked first:
that of the first one that reads it, or else its own. -/
def Member.readAs (roles : List Role) (member : Member) : Role :=
  (roles.find? fun role => (role.reading member).isSome).getD member.role

/-- **Built-in handlers as extensions** take a member for the first role that reads it. -/
theorem Handler.ofExtensions_builtins (roles : List Role) (member : Member) (plan : Plan) :
    ofExtensions (roles.map builtin) member plan = builtin (member.readAs roles) member plan := by
  rw [ofExtensions, offer_builtins, Member.readAs]
  cases roles.find? fun role => (role.reading member).isSome with
  | none => exact offer_singleton _ member plan
  | some role => rfl

/-- Extensions that treat every member alike scan alike. -/
theorem scan_congr {extensions extensions' : List Handler} {members : List Member}
    (h : ∀ member ∈ members, ∀ plan,
      Handler.ofExtensions extensions member plan = Handler.ofExtensions extensions' member plan)
    (plan : Plan) : scan extensions members plan = scan extensions' members plan := by
  induction members generalizing plan with
  | nil => rfl
  | cons member rest ih =>
      obtain ⟨hhead, hrest⟩ := List.forall_mem_cons.mp h
      simp only [scan, hhead]
      split
      · exact ih hrest _
      · rfl

namespace Compiler

/-- **Chains that read the members for the same roles compile alike.** -/
theorem compile_builtins_congr {roles roles' : List Role} {supplier : Supplier}
    {composer : Composer}
    (h : ∀ member ∈ composer.members, member.readAs roles = member.readAs roles') :
    compile ⟨supplier, roles.map Handler.builtin⟩ composer =
      compile ⟨supplier, roles'.map Handler.builtin⟩ composer := by
  have hscan : ∀ graphId,
      scanMembers ⟨supplier, roles.map Handler.builtin⟩ graphId composer.members =
        scanMembers ⟨supplier, roles'.map Handler.builtin⟩ graphId composer.members := by
    intro graphId
    refine scan_congr ?_ _
    intro member hmember plan
    rw [Handler.ofExtensions_builtins, Handler.ofExtensions_builtins, h member hmember]
  simp only [compile, define, hscan]

end Compiler

/-- Without the handler of compile configs a chain reads a member of one tag at most
for its own role. -/
theorem Member.readAs_of_single_tag {roles : List Role} {member : Member}
    (hroles : .compileConfig ∉ roles) (hsingle : member.tags.length ≤ 1) :
    member.readAs roles = member.role := by
  rw [readAs]
  cases hfirst : roles.find? fun role => (role.reading member).isSome with
  | none => rfl
  | some role =>
      rcases (role.isSome_reading_iff member).mp (by simpa using List.find?_some hfirst) with
        hconfig | ⟨-, hcarries⟩
      · exact absurd (hconfig ▸ List.mem_of_find?_eq_some hfirst) hroles
      · exact (role_eq_of_carries hsingle hcarries).symm

/-- A chain with that handler reads a member without tags for a compile config. -/
theorem Member.readAs_of_untagged {roles : List Role} {member : Member}
    (hroles : .compileConfig ∈ roles) (htags : member.tags = []) :
    member.readAs roles = .compileConfig := by
  have hreads : ∀ role : Role, (role.reading member).isSome = true ↔ role = .compileConfig := by
    intro role
    simp [Role.isSome_reading_iff, Carries, htags]
  have hfound : (roles.find? fun role => (role.reading member).isSome).isSome = true :=
    List.find?_isSome.mpr ⟨.compileConfig, hroles, (hreads .compileConfig).mpr rfl⟩
  obtain ⟨role, hfirst⟩ := Option.isSome_iff_exists.mp hfound
  have hrole : role = .compileConfig := (hreads role).mp (by simpa using List.find?_some hfirst)
  rw [readAs, hfirst, hrole]
  rfl

/-- A text that nobody is meant to read. -/
def Member.memo : Member := .constant "memo" (.text "milk")

/-- Has nothing but the memo. -/
def Composer.fridge : Composer := { typeName := "Fridge", marker := some {}, members := [.memo] }

/-- Every chain with the handler of compile configs fails on the memo, and no chain
fails for want of an entry. -/
theorem Compiler.compile_fridge_ne {roles : List Role} (h : .compileConfig ∈ roles) :
    compile ⟨.none, roles.map Handler.builtin⟩ .fridge ≠ compile ⟨.none, []⟩ .fridge := by
  have hchain : compile ⟨.none, roles.map Handler.builtin⟩ .fridge =
      compile ⟨.none, [.compileConfig].map Handler.builtin⟩ .fridge := by
    refine compile_builtins_congr ?_
    intro member hmember
    cases List.mem_singleton.mp hmember
    rw [Member.readAs_of_untagged h rfl]
    rfl
  have hmemo : compile ⟨.none, [.compileConfig].map Handler.builtin⟩ .fridge =
      .error (.definition ⟨⟨"read compile config from member 'memo'",
        .invalidConfigType "memo" "Text"⟩, "Fridge"⟩) := rfl
  have hplain : compile ⟨.none, []⟩ .fridge =
      .error (.definition ⟨⟨"compile graph", .engine .missingEntryPoint⟩, "Fridge"⟩) := rfl
  rw [hchain, hmemo, hplain]
  simp

/-- **Only the handler of compile configs does harm.**  A built-in handler passes over
a member without its tag, and leaves the plan as it is, iff it is not the handler of
compile configs.  A chain of built-in handlers gives what no chain gives, for all
composers whose members have one tag at most, iff that handler is not in it. -/
theorem Handler.harmless_iff_reads_no_config (role : Role) (member : Member) (plan : Plan)
    (roles : List Role) :
    (¬ member.Carries role →
        (builtin role member plan = (.ok .passed, plan) ↔ role ≠ .compileConfig)) ∧
      ((∀ supplier composer, (∀ member ∈ composer.members, member.tags.length ≤ 1) →
          Compiler.compile ⟨supplier, roles.map builtin⟩ composer =
            Compiler.compile ⟨supplier, []⟩ composer) ↔
        .compileConfig ∉ roles) := by
  constructor
  · intro hbare
    constructor
    · intro hpasses hconfig
      have hreads := (role.isSome_reading_iff member).mpr (Or.inl hconfig)
      exact builtin_ne_passed hreads (congrArg Prod.fst hpasses)
    · intro hrole
      refine builtin_of_unread (Option.not_isSome_iff_eq_none.mp ?_)
      rw [Role.isSome_reading_iff]
      rintro (hconfig | ⟨-, hcarries⟩)
      · exact hrole hconfig
      · exact hbare hcarries
  · constructor
    · intro hsame hconfig
      refine Compiler.compile_fridge_ne hconfig (hsame .none .fridge ?_)
      simp [Composer.fridge, Member.memo, Member.constant]
    · intro hroles supplier composer hsingle
      have hread : ∀ member ∈ composer.members, member.readAs roles = member.readAs [] := by
        intro member hmember
        exact Member.readAs_of_single_tag hroles (hsingle member hmember)
      exact Compiler.compile_builtins_congr hread

/-- The memo has no tag at all, and yet the handler of compile configs does not pass
over it; so a chain of this handler alone does not give what no chain gives. -/
theorem Handler.untagged_member_is_read_for_config :
    ¬ Member.memo.Carries .compileConfig ∧
      (∀ plan, builtin .compileConfig .memo plan ≠ (.ok .passed, plan)) ∧
      (∀ member ∈ Composer.fridge.members, member.tags.length ≤ 1) ∧
      Compiler.compile ⟨.none, [.compileConfig].map builtin⟩ .fridge ≠
        Compiler.compile ⟨.none, []⟩ .fridge := by
  refine ⟨?_, ?_, ?_, Compiler.compile_fridge_ne (List.mem_singleton_self Role.compileConfig)⟩
  · simp [Member.Carries, Member.memo, Member.constant]
  · intro plan hpasses
    exact builtin_ne_passed rfl (congrArg Prod.fst hpasses)
  · simp [Composer.fridge, Member.memo, Member.constant]

end FlowGraph
