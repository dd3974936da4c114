import FlowGraph.Proofs.Deferral

/-!
# A second compile config

A composer declares one compile config at most, and a plan keeps the one that it
was given first.  Whether there is one already is asked when a config is added,
which is after the member has been read for it.  So a second declaration is
always refused, but it is refused as a second one only where it could have been
the first: a member that cannot be read is refused for that.

* `Plan.config_of_take`, `Plan.config_of_takeAll`: what a step keeps, and a walk.
* `Plan.take_second_config`: how a plan with a config takes another one.
* `Compiler.second_config_is_read_before_it_is_refused`: **how compiling fails.**
-/

namespace FlowGraph

namespace Member

variable {supplier : Supplier} {member : Member}

/-- A config is read from the value. -/
theorem declares_of_config (hrole : member.role = .compileConfig) :
    member.declares supplier = member.readConfig (member.resolved supplier none) := by
  simp only [declares, hrole, Role.reading, resolved]

/-- Why a member is refused as a config where another member is one already. -/
def repeatCause (member : Member) (first : String) : Option Component → Cause
  | none => .missingValue member.name
  | some (.compileConfig _) => .multipleCompileConfigs member.name first
  | some (.configSupplier (some _)) => .multipleCompileConfigs member.name first
  | some (.configSupplier none) => .invalidConfigSupplier member.name
  | some value => .invalidConfigType member.name value.kind.display

/-- A member is refused as a second config iff it could be read as one. -/
theorem repeatCause_eq_iff {first : String} :
    member.repeatCause first (member.resolved supplier none) =
        .multipleCompileConfigs member.name first ↔
      ∃ config, member.Configures supplier config := by
  unfold Configures
  cases member.resolved supplier none with
  | none => simp [repeatCause]
  | some value =>
      cases value with
      | configSupplier supply => cases supply <;> simp [repeatCause]
      | _ => simp [repeatCause]

end Member

/-! ## A plan keeps its config -/

namespace Plan

variable {plan next : Plan} {member : Member}

/-- A plan that has a config keeps it. -/
theorem config_of_take {entry : String × CompileConfig} (hconfig : plan.config = some entry)
    (h : plan.take member = .ok next) : next.config = some entry := by
  obtain ⟨found, -, hadd⟩ := Traversal.bind_eq_ok_iff.mp h
  obtain ⟨hadmits, rfl⟩ := add_eq_ok_iff.mp hadd
  cases found with
  | key key rule => exact hconfig
  | operations operations => exact hconfig
  | config config =>
      have hsingle := hadmits.single
      simp [configs, hconfig, Contribution.configs] at hsingle

/-- A plan that has a compile config keeps it. -/
theorem config_of_takeAll {entry : String × CompileConfig} {members : List Member}
    (hconfig : plan.config = some entry) (h : plan.takeAll members = .ok next) :
    next.config = some entry := by
  induction members generalizing plan with
  | nil =>
      cases h
      exact hconfig
  | cons member rest ih =>
      rw [takeAll_cons, Traversal.bind_eq_ok_iff] at h
      obtain ⟨middle, htake, hrest⟩ := h
      exact ih (config_of_take hconfig htake) hrest

/-- The member that declares a config is remembered with it. -/
theorem config_of_take_config (hrole : member.role = .compileConfig)
    (h : plan.take member = .ok next) : ∃ config, next.config = some (member.name, config) := by
  obtain ⟨found, hfound, hadd⟩ := Traversal.bind_eq_ok_iff.mp h
  rw [Member.declares_of_config hrole] at hfound
  obtain ⟨config, rfl, -⟩ := Member.readConfig_eq_ok_iff.mp hfound
  obtain ⟨-, rfl⟩ := add_eq_ok_iff.mp hadd
  exact ⟨config, rfl⟩

/-- **A plan with a config reads a second one before it refuses it.** -/
theorem take_second_config {first : String} {config : CompileConfig}
    (hconfig : plan.config = some (first, config)) (hrole : member.role = .compileConfig) :
    plan.take member = .error ⟨member.configOperation,
      member.repeatCause first (member.resolved plan.supplier none)⟩ := by
  have hadd : ∀ other, plan.add member (.config other) =
      .error ⟨member.configOperation, .multipleCompileConfigs member.name first⟩ := by
    intro other
    simp only [add, declareConfig, hconfig, Except.mapError]
  rw [take, Member.declares_of_config hrole]
  cases member.resolved plan.supplier none with
  | none => rfl
  | some value =>
      cases value with
      | compileConfig other => exact hadd other
      | configSupplier supply =>
          cases supply with
          | none => rfl
          | some other => exact hadd other
      | _ => rfl

end Plan

/-! ## How compiling fails -/

namespace Compiler

variable {compiler : Compiler} {composer : Composer} {marker : Marker}
  {early between after : List Member} {first second : Member}

/-- Members that scan leave the config of the first that declares one. -/
theorem config_of_allScan {graphId : String} (hplain : compiler.extensions = [])
    (hfirst : first.role = .compileConfig)
    (hscan : compiler.AllScan graphId (early ++ first :: between)) :
    ∃ plan config, (compiler.emptyPlan graphId).takeAll (early ++ first :: between) = .ok plan ∧
      plan.supplier = compiler.supplier ∧ plan.config = some (first.name, config) := by
  obtain ⟨plan, hwalk⟩ := exists_takeAll_of_allScan hplain hscan
  have hsupplier : plan.supplier = compiler.supplier := Plan.supplier_of_takeAll hwalk
  have hparts := hwalk
  rw [Plan.takeAll_append, Traversal.bind_eq_ok_iff] at hparts
  obtain ⟨opened, -, hrest⟩ := hparts
  rw [Plan.takeAll_cons, Traversal.bind_eq_ok_iff] at hrest
  obtain ⟨configured, htake, hbetween⟩ := hrest
  obtain ⟨config, hconfig⟩ := Plan.config_of_take_config hfirst htake
  exact ⟨plan, config, hwalk, hsupplier, Plan.config_of_takeAll hconfig hbetween⟩

/-- **A second config is read before it is refused.**  Take a compiler without
extensions and a marked composer with two members that are compile configs, and let all
members before the second of them scan.  Then compiling fails at the second one.  It
fails because of the first one iff the second has a value, its own or the supplier's,
that is a compile config or supplies one; otherwise it fails for want of a value, or
because of the value. -/
theorem second_config_is_read_before_it_is_refused (hplain : compiler.extensions = [])
    (hmarker : composer.marker = some marker)
    (hmembers : composer.members = early ++ first :: between ++ second :: after)
    (hfirst : first.role = .compileConfig) (hsecond : second.role = .compileConfig)
    (hscan : compiler.AllScan (composer.graphId marker) (early ++ first :: between)) :
    ∃ cause, compiler.compile composer =
        .error (.definition ⟨⟨second.configOperation, cause⟩, composer.graphId marker⟩) ∧
      cause = second.repeatCause first.name (second.resolved compiler.supplier none) ∧
      (cause = .multipleCompileConfigs second.name first.name ↔
        ∃ config, second.Configures compiler.supplier config) := by
  obtain ⟨plan, config, hwalk, hsupplier, hconfig⟩ := config_of_allScan hplain hfirst hscan
  refine ⟨_, ?_, rfl, Member.repeatCause_eq_iff⟩
  have hrefused := Plan.take_second_config hconfig hsecond
  rw [hsupplier] at hrefused
  simp only [compile, hmarker]
  rw [define_eq_of_plain hplain, hmembers, Plan.takeAll_append, hwalk]
  change ((plan.takeAll (second :: after) >>= _).mapError _).mapError _ = _
  rw [Plan.takeAll_cons, hrefused]
  rfl

end Compiler

/-- A compile config. -/
def Member.opinion : Member :=
  { Member.constant "opinion" (.compileConfig { maxSteps := 7 }) with tags := [.compileConfig] }

/-- A compile config without a value. -/
def Member.afterthought : Member :=
  { Member.unset "afterthought" .compileConfig with tags := [.compileConfig] }

/-- Declares a compile config, and another one that it has not thought of yet. -/
def Composer.fickle : Composer :=
  { typeName := "Fickle", marker := some {}, members := [.opinion, .afterthought] }

/-- Without a supplier the afterthought is refused for want of a value; a supplier that
has a config makes it a second one. -/
theorem Compiler.second_config_without_value_is_missing :
    Composer.fickle.members = [] ++ .opinion :: [] ++ .afterthought :: [] ∧
      (∀ supplier, ({ supplier } : Compiler).AllScan "Fickle" ([] ++ .opinion :: [])) ∧
      ({} : Compiler).compile .fickle = .error (.definition
        ⟨⟨"read compile config from member 'afterthought'", .missingValue "afterthought"⟩,
          "Fickle"⟩) ∧
      ({ supplier := fun _ _ => some (.compileConfig {}) } : Compiler).compile .fickle =
        .error (.definition ⟨⟨"read compile config from member 'afterthought'",
          .multipleCompileConfigs "afterthought" "opinion"⟩, "Fickle"⟩) := by
  have hmembers : Composer.fickle.members = [] ++ .opinion :: [] ++ .afterthought :: [] := rfl
  have hscan : ∀ supplier, ({ supplier } : Compiler).AllScan "Fickle" ([] ++ .opinion :: []) :=
    fun _ => rfl
  refine ⟨hmembers, hscan, ?_, ?_⟩
  · have hplain : ({} : Compiler).extensions = [] := rfl
    obtain ⟨cause, hcompile, hcause, -⟩ := second_config_is_read_before_it_is_refused hplain rfl
      hmembers rfl rfl (hscan .none)
    rw [hcompile, hcause]
    rfl
  · have hplain : ({ supplier := fun _ _ => some (.compileConfig {}) } : Compiler).extensions =
        [] := rfl
    obtain ⟨cause, hcompile, -, hsecond⟩ := second_config_is_read_before_it_is_refused hplain rfl
      hmembers rfl rfl (hscan fun _ _ => some (.compileConfig {}))
    rw [hcompile, hsecond.mpr ⟨{}, Or.inl rfl⟩]
    rfl

/-- Hence a second declaration is not always reported as one. -/
theorem Compiler.not_every_second_config_is_reported :
    ¬ ∀ (compiler : Compiler) (composer : Composer) (marker : Marker)
      (early between after : List Member) (first second : Member),
      compiler.extensions = [] → composer.marker = some marker →
      composer.members = early ++ first :: between ++ second :: after →
      first.role = .compileConfig → second.role = .compileConfig →
      compiler.AllScan (composer.graphId marker) (early ++ first :: between) →
      compiler.compile composer = .error (.definition ⟨⟨second.configOperation,
        .multipleCompileConfigs second.name first.name⟩, composer.graphId marker⟩) := by
  intro h
  have hreported := h {} .fickle {} [] [] [] .opinion .afterthought rfl rfl rfl rfl rfl rfl
  have hmissing : ({} : Compiler).compile .fickle = .error (.definition
      ⟨⟨"read compile config from member 'afterthought'", .missingValue "afterthought"⟩,
        "Fickle"⟩) := rfl
  rw [hmissing] at hreported
  simp at hreported

end FlowGraph
