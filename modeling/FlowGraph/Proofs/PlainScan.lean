import FlowGraph.Definition
import Mathlib.Data.List.Nodup
import Mathlib.Tactic.MkIffOfInductiveProp
import Mathlib.Tactic.Tauto
import FlowGraph.Proofs.Traversal

/-!
# Scanning without extensions

Without extensions a member goes to the built-in handler of its role and to no
other.  Scanning is then a walk that adds what each member declares to the
plan, and the record of events, which nothing reads, can be left out of it.

* `define_eq_of_plain`: **the equation of a compiler without extensions.**
* `takeAll_eq_ok_iff`: the walk succeeds iff every member declares something,
  no key is declared twice, and at most one compile config is declared.
* `Compiler.compile_congr`: members that declare the same are interchangeable.
-/

namespace FlowGraph

/-- What a member declares in its role; without a role it declares nothing. -/
def Member.declares (supplier : Supplier) (member : Member) : Except Refusal Contribution :=
  match member.role.reading member with
  | none => .ok (.operations [])
  | some (.settled result) => result
  | some (.awaiting candidate read) => read (member.value <|> supplier member candidate)

namespace Plan

/-- The plan without its record of events. -/
def quiet (plan : Plan) : Plan := { plan with events := [] }

/-- The plan with what a member declares. -/
def take (plan : Plan) (member : Member) : Except Refusal Plan :=
  member.declares plan.supplier >>= plan.add member

/-- The plan with what a list of members declares, up to the first refusal. -/
def takeAll (plan : Plan) (members : List Member) : Except Refusal Plan :=
  members.foldlM take plan

/-- Members are taken one after the other. -/
theorem takeAll_cons (plan : Plan) (member : Member) (rest : List Member) :
    plan.takeAll (member :: rest) = plan.take member >>= fun next => next.takeAll rest := by
  simp only [takeAll, List.foldlM_cons]

/-- Lists of members are taken one after the other. -/
theorem takeAll_append (plan : Plan) (front back : List Member) :
    plan.takeAll (front ++ back) = plan.takeAll front >>= fun next => next.takeAll back := by
  simp only [takeAll, List.foldlM_append]

/-- Asking for a value leaves a record and nothing else. -/
theorem noteReading_eq (plan : Plan) (member : Member) (reading : Reading) :
    ∃ events, plan.noteReading member reading = { plan with events } := by
  cases reading with
  | settled result => exact ⟨plan.events, rfl⟩
  | awaiting candidate read =>
      change ∃ events, plan.noteQuestion member candidate = { plan with events }
      unfold noteQuestion
      split
      · exact ⟨plan.events, rfl⟩
      · exact ⟨_, rfl⟩

/-- What is added to a plan does not depend on its record. -/
theorem add_quiet (plan : Plan) (member : Member) (contribution : Contribution) :
    plan.quiet.add member contribution = (plan.add member contribution).map quiet := by
  cases contribution with
  | operations operations => rfl
  | key key rule =>
      unfold add declareKey
      by_cases htaken : Table.contains plan.keys key
      · simp [quiet, htaken, Except.map, Except.mapError]
      · simp [quiet, htaken, Except.map, Except.mapError]
  | config config =>
      unfold add declareConfig
      cases hconfig : plan.config <;> simp [quiet, hconfig, Except.map, Except.mapError]

/-- A contribution does not change the id of the graph. -/
theorem graphId_of_add {plan next : Plan} {member : Member} {contribution : Contribution}
    (h : plan.add member contribution = .ok next) : next.graphId = plan.graphId := by
  cases contribution with
  | operations operations =>
      cases h
      rfl
  | key key rule =>
      have hkey := Traversal.mapError_eq_ok_iff.mp h
      unfold declareKey at hkey
      split at hkey
      · cases hkey
      · cases hkey
        rfl
  | config config =>
      have hconfig := Traversal.mapError_eq_ok_iff.mp h
      unfold declareConfig at hconfig
      split at hconfig
      · cases hconfig
      · cases hconfig
        rfl

/-! ## A scan is a walk -/

/-- Following the reading of a member's role gives what the member declares. -/
theorem follow_eq_declares {member : Member} {reading : Reading} (plan : Plan)
    (hreading : member.role.reading member = some reading) :
    plan.follow member reading = member.declares plan.supplier := by
  unfold Member.declares
  rw [hreading]
  cases reading <;> rfl

end Plan

/-- **The built-in handler adds what the member declares**, or fails with the
refusal and adds nothing; what else it leaves in the plan is a record. -/
theorem Handler.builtin_eq (member : Member) (plan : Plan) :
    (∃ refusal after, plan.quiet.take member = .error refusal ∧
      builtin member.role member plan = (.error (plan.error refusal), after) ∧
      after.quiet = plan.quiet) ∨
    ∃ verdict after, plan.quiet.take member = .ok after.quiet ∧
      builtin member.role member plan = (.ok verdict, after) ∧
      after.graphId = plan.graphId := by
  unfold builtin
  cases hreading : member.role.reading member with
  | none =>
      have hdeclares : member.declares plan.supplier = .ok (.operations []) := by
        simp only [Member.declares, hreading]
      refine Or.inr ⟨.passed, plan, ?_, rfl, rfl⟩
      change (member.declares plan.supplier >>= plan.quiet.add member) = .ok plan.quiet
      rw [hdeclares]
      simp [bind, Except.bind, Plan.add, Plan.deferAll]
  | some reading =>
      -- the supplier is asked first, and that leaves a record in any case
      obtain ⟨events, hnoted⟩ := plan.noteReading_eq member reading
      have htake : plan.quiet.take member = (member.declares plan.supplier).bind fun found =>
          (({ plan with events } : Plan).add member found).map Plan.quiet := by
        simp only [← Plan.add_quiet]
        rfl
      have hfollow : ({ plan with events } : Plan).follow member reading =
          member.declares plan.supplier :=
        Plan.follow_eq_declares _ hreading
      rw [htake]
      simp only [hnoted, hfollow]
      cases member.declares plan.supplier with
      | error refusal => exact Or.inl ⟨refusal, { plan with events }, rfl, rfl, rfl⟩
      | ok found =>
          cases hadd : ({ plan with events } : Plan).add member found with
          | error refusal =>
              exact Or.inl ⟨refusal, { plan with events },
                by simp [Except.bind, Except.map, hadd], by simp [Except.bind, hadd, Plan.error],
                rfl⟩
          | ok next =>
              have hid : next.graphId = ({ plan with events } : Plan).graphId :=
                Plan.graphId_of_add hadd
              exact Or.inr ⟨.intercepted, next, by simp [Except.bind, Except.map, hadd],
                by simp [Except.bind, hadd], hid⟩

/-- Without extensions a scan gives each member to the handler of its role. -/
theorem scan_nil_cons (member : Member) (rest : List Member) (plan : Plan) :
    scan [] (member :: rest) plan =
      match Handler.builtin member.role member plan with
      | (.ok _, next) => scan [] rest next
      | (.error error, next) => (.error error, next) := by
  simp only [scan, Handler.ofExtensions, List.nil_append, Handler.offer]
  rcases Handler.builtin member.role member plan with ⟨(_ | (_ | _)), next⟩ <;> rfl

/-- **A scan without extensions is the walk that takes each member**, and fails
with its first refusal. -/
theorem scan_nil_eq (members : List Member) (plan : Plan) :
    (∃ refusal after, plan.quiet.takeAll members = .error refusal ∧
      scan [] members plan = (.error (plan.error refusal), after)) ∨
    ∃ after, plan.quiet.takeAll members = .ok after.quiet ∧
      scan [] members plan = (.ok (), after) ∧ after.graphId = plan.graphId := by
  induction members generalizing plan with
  | nil => exact Or.inr ⟨plan, rfl, rfl, rfl⟩
  | cons member rest ih =>
      rw [Plan.takeAll_cons, scan_nil_cons]
      rcases Handler.builtin_eq member plan with
        ⟨refusal, after, htake, hbuiltin, -⟩ | ⟨verdict, next, htake, hbuiltin, hid⟩
      · rw [htake, hbuiltin]
        exact Or.inl ⟨refusal, after, rfl, rfl⟩
      · rw [htake, hbuiltin]
        have hnext : (Except.ok next.quiet >>= fun next => next.takeAll rest) =
            next.quiet.takeAll rest := rfl
        simp only [hnext]
        rcases ih next with ⟨refusal, after, hrest, hscan⟩ | ⟨after, hrest, hscan, hafter⟩
        · exact Or.inl ⟨refusal, after, hrest, by rw [hscan, Plan.error, Plan.error, hid]⟩
        · exact Or.inr ⟨after, hrest, hscan, hafter.trans hid⟩

/-- **The equation of a compiler without extensions**: the members are taken in
turn, and the plan is built; a refusal on the way names the graph. -/
theorem Compiler.define_eq_of_plain {compiler : Compiler} (hplain : compiler.extensions = [])
    (graphId : String) (composer : Composer) :
    compiler.define graphId composer =
      ((compiler.emptyPlan graphId).takeAll composer.members >>= fun plan =>
        plan.build composer.hooks).mapError fun refusal => { refusal with graphId } := by
  unfold define scanMembers
  rw [hplain]
  rcases scan_nil_eq composer.members (compiler.emptyPlan graphId) with
    ⟨refusal, after, hwalk, hscan⟩ | ⟨after, hwalk, hscan, hid⟩
  · rw [hscan]
    change _ = ((compiler.emptyPlan graphId).quiet.takeAll composer.members >>= _).mapError _
    rw [hwalk]
    rfl
  · rw [hscan]
    change _ = ((compiler.emptyPlan graphId).quiet.takeAll composer.members >>= _).mapError _
    rw [hwalk]
    have herror : after.error = fun refusal => { refusal with graphId } := by
      funext refusal
      rw [Plan.error, hid]
      rfl
    rw [← herror]
    rfl

/-- What compiles without extensions has a marker, a plan that is the whole walk, and a
graph that is built of it. -/
theorem Compiler.exists_plan_of_compile {compiler : Compiler} {composer : Composer} {graph : Graph}
    (hplain : compiler.extensions = []) (h : compiler.compile composer = .ok graph) :
    ∃ marker plan, composer.marker = some marker ∧
      (compiler.emptyPlan (composer.graphId marker)).takeAll composer.members = .ok plan ∧
      plan.build composer.hooks = .ok graph := by
  unfold compile at h
  cases hmarker : composer.marker with
  | none => simp [hmarker] at h
  | some marker =>
      simp only [hmarker, define_eq_of_plain hplain, Traversal.mapError_eq_ok_iff,
        Traversal.bind_eq_ok_iff] at h
      obtain ⟨plan, hwalk, hbuild⟩ := h
      exact ⟨marker, plan, rfl, hwalk, hbuild⟩

/-! ## What a walk collects -/

/-- The key that a contribution declares. -/
def Contribution.keyIds : Contribution → List String
  | .key id _ => [id]
  | _ => []

/-- The key that a contribution declares, with its rule. -/
def Contribution.rules : Contribution → List (String × WriteRule)
  | .key id rule => [(id, rule)]
  | _ => []

/-- The operations that a contribution puts off. -/
def Contribution.deferred : Contribution → List Operation
  | .operations steps => steps
  | _ => []

/-- The compile config that a contribution declares. -/
def Contribution.configs : Contribution → List CompileConfig
  | .config options => [options]
  | _ => []

namespace Plan

/-- The compile config of a plan, if it has one. -/
def configs (plan : Plan) : List CompileConfig := plan.config.toList.map Prod.snd

/-- The plan with a contribution, added without any check. -/
def gain (plan : Plan) (member : Member) : Contribution → Plan
  | .key key rule => { plan with keys := Table.insert plan.keys key rule }
  | .operations operations => plan.deferAll operations
  | .config config => { plan with config := some (member.name, config) }

/-- The plan with a list of contributions, added without any check. -/
def gainAll (plan : Plan) (entries : List (Member × Contribution)) : Plan :=
  entries.foldl (fun plan entry => plan.gain entry.1 entry.2) plan

/-- Some keys and configs can be added to a plan: no key comes twice, and there
is one config at most. -/
@[mk_iff]
structure Admits (plan : Plan) (ids : List String) (configs : List CompileConfig) : Prop where
  fresh : ∀ key ∈ ids, Table.get? plan.keys key = none
  distinct : ids.Nodup
  single : (plan.configs ++ configs).length ≤ 1

/-- A plan has one compile config at most. -/
theorem length_configs_le (plan : Plan) : plan.configs.length ≤ 1 := by
  unfold configs
  cases plan.config <;> simp

/-- **A contribution is added iff the plan admits its keys and configs.** -/
theorem add_eq_ok_iff {plan next : Plan} {member : Member} {found : Contribution} :
    plan.add member found = .ok next ↔
      plan.Admits found.keyIds found.configs ∧ next = plan.gain member found := by
  cases found with
  | operations operations =>
      have hadmits : plan.Admits [] [] := ⟨by simp, List.nodup_nil, by
        simpa using plan.length_configs_le⟩
      simp [add, gain, Contribution.keyIds, Contribution.configs, hadmits, eq_comm]
  | key key rule =>
      have hadmits : plan.Admits [key] [] ↔ Table.get? plan.keys key = none := by
        constructor
        · intro h
          exact h.fresh key List.mem_cons_self
        · intro h
          exact ⟨by simpa using h, List.nodup_singleton key, by
            simpa using plan.length_configs_le⟩
      simp only [add, gain, Contribution.keyIds, Contribution.configs, hadmits,
        Traversal.mapError_eq_ok_iff, declareKey, Table.contains]
      by_cases hfree : Table.get? plan.keys key = none
      · simp [hfree, eq_comm]
      · simp [hfree, Option.isSome_iff_ne_none]
  | config config =>
      have hadmits : plan.Admits [] [config] ↔ plan.config = none := by
        constructor
        · intro h
          have hsingle := h.single
          cases hconfig : plan.config with
          | none => rfl
          | some entry => simp [configs, hconfig] at hsingle
        · intro h
          exact ⟨by simp, List.nodup_nil, by simp [configs, h]⟩
      simp only [add, gain, Contribution.keyIds, Contribution.configs, hadmits,
        Traversal.mapError_eq_ok_iff, declareConfig]
      cases plan.config <;> simp [eq_comm]

/-- A plan that gains something keeps its supplier. -/
theorem supplier_gain (plan : Plan) (member : Member) (found : Contribution) :
    (plan.gain member found).supplier = plan.supplier := by
  cases found <;> rfl

/-- A plan that takes a member keeps its supplier. -/
theorem supplier_of_take {plan next : Plan} {member : Member} (h : plan.take member = .ok next) :
    next.supplier = plan.supplier := by
  obtain ⟨found, -, hadd⟩ := Traversal.bind_eq_ok_iff.mp h
  obtain ⟨-, rfl⟩ := add_eq_ok_iff.mp hadd
  exact plan.supplier_gain member found

/-- A plan that takes members keeps its supplier. -/
theorem supplier_of_takeAll {plan next : Plan} {members : List Member}
    (h : plan.takeAll members = .ok next) : next.supplier = plan.supplier := by
  induction members generalizing plan with
  | nil =>
      cases h
      rfl
  | cons member rest ih =>
      rw [takeAll_cons, Traversal.bind_eq_ok_iff] at h
      obtain ⟨middle, htake, hrest⟩ := h
      exact (ih hrest).trans (supplier_of_take htake)

/-- Contributions can be added one after the other iff they can be added together. -/
theorem admits_append_iff (plan : Plan) (member : Member) (found : Contribution)
    (ids : List String) (configs : List CompileConfig) :
    plan.Admits (found.keyIds ++ ids) (found.configs ++ configs) ↔
      plan.Admits found.keyIds found.configs ∧ (plan.gain member found).Admits ids configs := by
  have hle := plan.length_configs_le
  -- a key is in the way of later keys only, a config of later configs
  cases found with
  | operations operations =>
      have hkeys : (plan.gain member (.operations operations)).keys = plan.keys := rfl
      have hconfigs : (plan.gain member (.operations operations)).configs = plan.configs := rfl
      simp [admits_iff, Contribution.keyIds, Contribution.configs, hkeys, hconfigs, hle]
  | key key rule =>
      have hkeys : ∀ id, Table.get? (plan.gain member (.key key rule)).keys id = none ↔
          key ≠ id ∧ Table.get? plan.keys id = none := by
        intro id
        change Table.get? (Table.insert plan.keys key rule) id = none ↔ _
        rw [Table.get?_insert]
        by_cases heq : key = id
        · simp [heq]
        · simp [heq]
      have hconfigs : (plan.gain member (.key key rule)).configs = plan.configs := rfl
      simp only [admits_iff, Contribution.keyIds, Contribution.configs, hkeys, hconfigs,
        List.cons_append, List.nil_append, List.forall_mem_cons, List.nodup_cons]
      have hother : (∀ id ∈ ids, key ≠ id ∧ Table.get? plan.keys id = none) ↔
          key ∉ ids ∧ ∀ id ∈ ids, Table.get? plan.keys id = none := by
        rw [forall₂_and]
        exact and_congr_left' ⟨fun h hmem => h key hmem rfl, fun h id hid heq => h (heq ▸ hid)⟩
      rw [hother]
      simp [hle]
      tauto
  | config config =>
      have hkeys : (plan.gain member (.config config)).keys = plan.keys := rfl
      have hconfigs : (plan.gain member (.config config)).configs = [config] := rfl
      simp only [admits_iff, Contribution.keyIds, Contribution.configs, hkeys, hconfigs,
        List.nil_append, List.length_append, List.length_singleton]
      constructor
      · intro h
        obtain ⟨hfresh, hdistinct, hsingle⟩ := h
        exact ⟨⟨by simp, List.nodup_nil, by omega⟩, hfresh, hdistinct, by omega⟩
      · intro h
        obtain ⟨⟨-, -, hsingle⟩, hfresh, hdistinct, hothers⟩ := h
        exact ⟨hfresh, hdistinct, by omega⟩

/-- **The walk succeeds iff every member declares something and all of it can be
added together.** -/
theorem takeAll_eq_ok_iff {plan final : Plan} {members : List Member} :
    plan.takeAll members = .ok final ↔
      ∃ found, members.mapM (Member.declares plan.supplier) = .ok found ∧
        plan.Admits (found.flatMap Contribution.keyIds) (found.flatMap Contribution.configs) ∧
        final = plan.gainAll (members.zip found) := by
  -- on the members, for any plan: what those before have added is in the plan
  induction members generalizing plan with
  | nil =>
      have hadmits : plan.Admits [] [] :=
        ⟨by simp, List.nodup_nil, by simpa using plan.length_configs_le⟩
      change (Except.ok plan : Except Refusal Plan) = .ok final ↔ _
      constructor
      · intro h
        exact ⟨[], rfl, hadmits, (Except.ok.inj h).symm⟩
      · intro h
        obtain ⟨found, hfound, -, rfl⟩ := h
        cases hfound
        rfl
  | cons member rest ih =>
      rw [takeAll_cons, Traversal.bind_eq_ok_iff]
      constructor
      · intro h
        obtain ⟨next, htake, hrest⟩ := h
        obtain ⟨head, hhead, hadd⟩ := Traversal.bind_eq_ok_iff.mp htake
        obtain ⟨hadmits, rfl⟩ := add_eq_ok_iff.mp hadd
        obtain ⟨tail, htail, hadmitsTail, rfl⟩ := ih.mp hrest
        rw [supplier_gain] at htail
        refine ⟨head :: tail, ?_, ?_, rfl⟩
        · exact Traversal.mapM_eq_ok_iff.mpr (.cons hhead (Traversal.mapM_eq_ok_iff.mp htail))
        · exact (plan.admits_append_iff member head _ _).mpr ⟨hadmits, hadmitsTail⟩
      · intro h
        obtain ⟨found, hfound, hadmits, rfl⟩ := h
        cases Traversal.mapM_eq_ok_iff.mp hfound with
        | @cons _ head _ tail hhead htail =>
            obtain ⟨hhere, hthere⟩ := (plan.admits_append_iff member head _ _).mp hadmits
            refine ⟨plan.gain member head, ?_, ih.mpr ⟨tail, ?_, hthere, rfl⟩⟩
            · exact Traversal.bind_eq_ok_iff.mpr ⟨head, hhead, add_eq_ok_iff.mpr ⟨hhere, rfl⟩⟩
            · rw [supplier_gain]
              exact Traversal.mapM_eq_ok_iff.mpr htail

/-- What is put off comes one member after the other. -/
theorem operations_gainAll (plan : Plan) (entries : List (Member × Contribution)) :
    (plan.gainAll entries).operations =
      plan.operations ++ entries.flatMap fun entry => entry.2.deferred := by
  induction entries generalizing plan with
  | nil => simp [gainAll]
  | cons entry rest ih =>
      have hentry : (plan.gain entry.1 entry.2).operations =
          plan.operations ++ entry.2.deferred := by
        obtain ⟨member, found⟩ := entry
        cases found <;> simp [gain, deferAll, Contribution.deferred]
      change ((plan.gain entry.1 entry.2).gainAll rest).operations = _
      rw [ih, hentry, List.flatMap_cons, List.append_assoc]

/-- Configs are gained one member after the other, as long as there is one at most. -/
theorem configs_gainAll (plan : Plan) (entries : List (Member × Contribution))
    (hsingle : (plan.configs ++ entries.flatMap fun entry => entry.2.configs).length ≤ 1) :
    (plan.gainAll entries).configs =
      plan.configs ++ entries.flatMap fun entry => entry.2.configs := by
  induction entries generalizing plan with
  | nil => simp [gainAll]
  | cons entry rest ih =>
      have hentry : (plan.gain entry.1 entry.2).configs = plan.configs ++ entry.2.configs := by
        obtain ⟨member, found⟩ := entry
        cases found with
        | key key rule => simp [gain, configs, Contribution.configs]
        | operations operations => simp [gain, deferAll, configs, Contribution.configs]
        | config config =>
            simp only [List.flatMap_cons, Contribution.configs, List.length_append,
              List.length_singleton] at hsingle
            have hnone : plan.configs = [] := List.length_eq_zero_iff.mp (by omega)
            rw [hnone]
            rfl
      rw [List.flatMap_cons, ← List.append_assoc, ← hentry] at hsingle ⊢
      exact ih _ hsingle

/-- The options of a plan are its config, or else the default. -/
theorem options_eq (plan : Plan) : plan.options = plan.configs.headD {} := by
  unfold options configs
  cases plan.config <;> rfl

/-- Members that are told with their contributions add nothing to them. -/
theorem flatMap_zip_snd {α : Type} {members : List Member} {found : List Contribution}
    (hlength : members.length = found.length) (f : Contribution → List α) :
    ((members.zip found).flatMap fun entry => f entry.2) = found.flatMap f := by
  have hsnd : (members.zip found).map Prod.snd = found :=
    List.map_snd_zip (Nat.le_of_eq hlength.symm)
  conv_rhs => rw [← hsnd, List.flatMap_map]

/-- The operations of a plan that took contributions one for one. -/
theorem operations_gainAll_zip (plan : Plan) {members : List Member} {found : List Contribution}
    (hlength : members.length = found.length) :
    (plan.gainAll (members.zip found)).operations =
      plan.operations ++ found.flatMap Contribution.deferred := by
  rw [operations_gainAll, flatMap_zip_snd hlength Contribution.deferred]

/-- The options of a plan that took contributions one for one, starting without
a config. -/
theorem options_gainAll_zip (plan : Plan) {members : List Member} {found : List Contribution}
    (hlength : members.length = found.length)
    (hsingle : (found.flatMap Contribution.configs).length ≤ 1) (hnone : plan.configs = []) :
    (plan.gainAll (members.zip found)).options =
      (found.flatMap Contribution.configs).headD {} := by
  have hconfigs := flatMap_zip_snd hlength Contribution.configs
  rw [options_eq, configs_gainAll, hconfigs, hnone, List.nil_append]
  rwa [hconfigs, hnone, List.nil_append]

/-- Keys are gained with their rules, one member after the other. -/
theorem keys_gainAll (plan : Plan) (entries : List (Member × Contribution)) :
    (plan.gainAll entries).keys =
      (entries.flatMap fun entry => entry.2.rules).foldl
        (fun keys rule => keys.insert rule.1 rule.2) plan.keys := by
  induction entries generalizing plan with
  | nil => rfl
  | cons entry rest ih =>
      have hentry : (plan.gain entry.1 entry.2).keys =
          entry.2.rules.foldl (fun keys rule => keys.insert rule.1 rule.2) plan.keys := by
        obtain ⟨member, found⟩ := entry
        cases found <;> rfl
      change ((plan.gain entry.1 entry.2).gainAll rest).keys = _
      rw [ih, hentry, List.flatMap_cons, List.foldl_append]

/-- A plan that gains contributions keeps the id of its graph. -/
theorem graphId_gainAll (plan : Plan) (entries : List (Member × Contribution)) :
    (plan.gainAll entries).graphId = plan.graphId := by
  induction entries generalizing plan with
  | nil => rfl
  | cons entry rest ih =>
      have hentry : (plan.gain entry.1 entry.2).graphId = plan.graphId := by
        obtain ⟨member, found⟩ := entry
        cases found <;> rfl
      exact (ih (plan.gain entry.1 entry.2)).trans hentry

/-- A plan holds what a list of contributions adds to an empty one. -/
structure Gathers (plan : Plan) (graphId : String) (found : List Contribution) : Prop where
  graphId : plan.graphId = graphId
  keys : plan.keys = .ofList (found.flatMap Contribution.rules)
  operations : plan.operations = found.flatMap Contribution.deferred
  options : plan.options = (found.flatMap Contribution.configs).headD {}

end Plan

/-- The rules of a contribution are for its keys. -/
theorem Contribution.map_rules (found : Contribution) : found.rules.map Prod.fst = found.keyIds := by
  cases found <;> rfl

/-- The empty plan takes whatever keys are distinct, and one config. -/
theorem Compiler.emptyPlan_admits_iff {compiler : Compiler} {graphId : String} {ids : List String}
    {configs : List CompileConfig} :
    (compiler.emptyPlan graphId).Admits ids configs ↔ ids.Nodup ∧ configs.length ≤ 1 := by
  constructor
  · intro h
    exact ⟨h.distinct, by simpa [emptyPlan, Plan.configs] using h.single⟩
  · intro h
    obtain ⟨hdistinct, hsingle⟩ := h
    exact ⟨fun _ _ => rfl, hdistinct, by simpa [emptyPlan, Plan.configs] using hsingle⟩

/-- **A walk from the empty plan gathers what the members declare.** -/
theorem Compiler.gathers_of_takeAll {compiler : Compiler} {graphId : String}
    {members : List Member} {plan : Plan}
    (h : (compiler.emptyPlan graphId).takeAll members = .ok plan) :
    ∃ found, members.mapM (Member.declares compiler.supplier) = .ok found ∧
      (found.flatMap Contribution.keyIds).Nodup ∧
      (found.flatMap Contribution.configs).length ≤ 1 ∧ plan.Gathers graphId found := by
  obtain ⟨found, hfound, hadmits, rfl⟩ := Plan.takeAll_eq_ok_iff.mp h
  obtain ⟨hdistinct, hsingle⟩ := emptyPlan_admits_iff.mp hadmits
  have hlength : members.length = found.length := (Traversal.mapM_eq_ok_iff.mp hfound).length_eq
  refine ⟨found, hfound, hdistinct, hsingle, ⟨?_, ?_, ?_, ?_⟩⟩
  · rw [Plan.graphId_gainAll]
    rfl
  · rw [Plan.keys_gainAll, Plan.flatMap_zip_snd hlength Contribution.rules]
    rfl
  · exact Plan.operations_gainAll_zip _ hlength
  · exact Plan.options_gainAll_zip _ hlength hsingle rfl

/-! ## Members that declare the same -/

/-- A member can stand in for another one: it has the same name and declares the same. -/
structure Member.StandsIn (supplier : Supplier) (member other : Member) : Prop where
  name : other.name = member.name
  declares : other.declares supplier = member.declares supplier

/-- A member can stand in for itself. -/
theorem Member.StandsIn.refl (supplier : Supplier) (member : Member) :
    member.StandsIn supplier member := ⟨rfl, rfl⟩

/-- The plan that takes a member takes what stands in for it alike. -/
theorem Plan.take_congr {plan : Plan} {member other : Member}
    (h : member.StandsIn plan.supplier other) : plan.take other = plan.take member := by
  have hoperation : other.configOperation = member.configOperation := by
    unfold Member.configOperation
    rw [h.name]
  have hadd : plan.add other = plan.add member := by
    funext found
    cases found <;> simp only [add, hoperation, h.name]
  rw [take, take, h.declares, hadd]

/-- Members can be replaced by what stands in for them, one by one. -/
theorem Plan.takeAll_congr {plan : Plan} {members others : List Member}
    (h : List.Forall₂ (Member.StandsIn plan.supplier) members others) :
    plan.takeAll others = plan.takeAll members := by
  induction members generalizing plan others with
  | nil => rw [List.forall₂_nil_left_iff.mp h]
  | cons member rest ih =>
      cases h with
      | @cons _ other _ others hhead hrest =>
          rw [takeAll_cons, takeAll_cons, take_congr hhead]
          cases htake : plan.take member with
          | error refusal => rfl
          | ok next => exact ih (by rwa [supplier_of_take htake])

/-- **A composer compiles alike with members that stand in for its own.** -/
theorem Compiler.compile_congr {compiler : Compiler} (hplain : compiler.extensions = [])
    {composer : Composer} {members : List Member}
    (h : List.Forall₂ (Member.StandsIn compiler.supplier) composer.members members) :
    compiler.compile { composer with members } = compiler.compile composer := by
  have hdefine : ∀ graphId, compiler.define graphId { composer with members } =
      compiler.define graphId composer := by
    intro graphId
    have hwalk : (compiler.emptyPlan graphId).takeAll members =
        (compiler.emptyPlan graphId).takeAll composer.members :=
      Plan.takeAll_congr h
    rw [define_eq_of_plain hplain, define_eq_of_plain hplain, hwalk]
  simp only [compile, Composer.graphId, hdefine]

end FlowGraph
