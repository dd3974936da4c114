import FlowGraph.Proofs.Offering
import FlowGraph.Scan.Extensions

/-!
# Intercepted members are left out

An extension may intercept a member and do nothing with it.  Where a whole chain
of extensions does no more than that, and goes by the members alone, it sieves
the members: those that some extension intercepts might as well not be declared,
whatever their tags and values, and the others are scanned as without a chain.

* `Handler.Detached`: a handler that only intercepts.
* `Handler.offer_detached`: **a chain of such handlers intercepts a member or
  leaves it to the last one.**
* `scan_detached`: two scans in step, one of all members and one of those that are left.
* `Compiler.interception_is_removal`: compiling with the chain, and without it.
-/

namespace FlowGraph

namespace Handler

/-- A handler that only intercepts: it decides by the member, never fails, and leaves
the plan as it is, but for the record of what happened. -/
structure Detached (handler : Handler) : Prop where
  decides : ∀ member, ∃ verdict, ∀ plan, (handler member plan).1 = .ok verdict
  keeps : ∀ member plan, (handler member plan).2.quiet = plan.quiet

/-- Whether a handler intercepts a member, asked with an empty plan. -/
def intercepts (handler : Handler) (member : Member) : Bool :=
  match (handler member { graphId := "" }).1 with
  | .ok .intercepted => true
  | _ => false

variable {handler : Handler}

/-- The answer of a handler that only intercepts. -/
theorem Detached.answer (h : handler.Detached) (member : Member) (plan : Plan) :
    ∃ noted, noted.quiet = plan.quiet ∧ handler member plan =
      (.ok (if handler.intercepts member then .intercepted else .passed), noted) := by
  obtain ⟨verdict, hverdict⟩ := h.decides member
  have hsame : (if handler.intercepts member then Verdict.intercepted else .passed) = verdict := by
    rw [intercepts, hverdict]
    cases verdict <;> rfl
  exact ⟨(handler member plan).2, h.keeps member plan,
    Prod.ext (by rw [hverdict, hsame]) rfl⟩

/-- **A chain of handlers that only intercept** does so if one of them does, and
otherwise leaves the member to the handler behind it. -/
theorem offer_detached {extensions : List Handler}
    (h : ∀ handler ∈ extensions, handler.Detached) (last : Handler) (member : Member)
    (plan : Plan) :
    ∃ noted, noted.quiet = plan.quiet ∧ offer (extensions ++ [last]) member plan =
      if extensions.any fun handler => handler.intercepts member then (.ok .intercepted, noted)
      else last member noted := by
  induction extensions generalizing plan with
  | nil => exact ⟨plan, rfl, offer_singleton last member plan⟩
  | cons handler rest ih =>
      obtain ⟨hhead, hrest⟩ := List.forall_mem_cons.mp h
      obtain ⟨noted, hnoted, hanswer⟩ := hhead.answer member plan
      cases hintercepts : handler.intercepts member with
      | true =>
          rw [hintercepts, if_pos rfl] at hanswer
          refine ⟨noted, hnoted, ?_⟩
          rw [List.cons_append, offer_cons_of_ne_passed (by simp [hanswer]), hanswer]
          simp [hintercepts]
      | false =>
          rw [hintercepts, if_neg Bool.false_ne_true] at hanswer
          obtain ⟨later, hlater, hoffer⟩ := ih hrest noted
          refine ⟨later, hlater.trans hnoted, ?_⟩
          rw [List.cons_append, offer_cons_of_passed hanswer, hoffer]
          simp [hintercepts]

end Handler

/-! ## Two scans in step -/

namespace Plan

/-- The record of a plan is not looked at when it is built. -/
theorem build_quiet (plan : Plan) (hooks : Hooks) : plan.quiet.build hooks = plan.build hooks :=
  rfl

/-- A plan without its record makes the same errors. -/
theorem error_quiet (plan : Plan) : plan.quiet.error = plan.error := rfl

end Plan

/-- Plans that differ in their records only are treated alike. -/
theorem Handler.builtin_of_quiet_eq {plan plan' : Plan} (h : plan.quiet = plan'.quiet)
    (member : Member) :
    (∃ error after after', after.quiet = after'.quiet ∧
      builtin member.role member plan = (.error error, after) ∧
      builtin member.role member plan' = (.error error, after')) ∨
    ∃ verdict verdict' after after', after.quiet = after'.quiet ∧
      builtin member.role member plan = (.ok verdict, after) ∧
      builtin member.role member plan' = (.ok verdict', after') := by
  have herror : plan.error = plan'.error := by rw [← plan.error_quiet, h, plan'.error_quiet]
  have htake : plan.quiet.take member = plan'.quiet.take member := by rw [h]
  rcases builtin_eq member plan with
    ⟨refusal, after, hrefused, hbuiltin, hquiet⟩ | ⟨verdict, after, htaken, hbuiltin, -⟩
  · rcases builtin_eq member plan' with
      ⟨refusal', after', hrefused', hbuiltin', hquiet'⟩ | ⟨verdict', after', htaken', -, -⟩
    · cases hrefused.symm.trans (htake.trans hrefused')
      refine Or.inl ⟨_, after, after', hquiet.trans (h.trans hquiet'.symm), hbuiltin, ?_⟩
      rw [herror]
      exact hbuiltin'
    · cases hrefused.symm.trans (htake.trans htaken')
  · rcases builtin_eq member plan' with
      ⟨refusal', after', hrefused', -, -⟩ | ⟨verdict', after', htaken', hbuiltin', -⟩
    · cases htaken.symm.trans (htake.trans hrefused')
    · have hquiet : after.quiet = after'.quiet :=
        Except.ok.inj (htaken.symm.trans (htake.trans htaken'))
      exact Or.inr ⟨verdict, verdict', after, after', hquiet, hbuiltin, hbuiltin'⟩

/-- Two scans come to the same: to the same answer, and to the same plan but for the
record of what happened. -/
structure ScansAlike (scanned scanned' : Except DefinitionError Unit × Plan) : Prop where
  answer : scanned.1 = scanned'.1
  plan : scanned.2.quiet = scanned'.2.quiet

/-- **Members that a chain intercepts might as well not be there.** -/
theorem scan_detached {extensions : List Handler}
    (h : ∀ handler ∈ extensions, handler.Detached) (members : List Member) {plan plan' : Plan}
    (hquiet : plan.quiet = plan'.quiet) :
    ScansAlike (scan extensions members plan)
      (scan [] (members.filter fun member =>
        !extensions.any fun handler => handler.intercepts member) plan') := by
  -- on the members; the two plans differ in their records and in nothing else
  induction members generalizing plan plan' with
  | nil => exact ⟨rfl, hquiet⟩
  | cons member rest ih =>
      obtain ⟨noted, hnoted, hoffer⟩ :=
        Handler.offer_detached h (.builtin member.role) member plan
      rw [scan, Handler.ofExtensions, hoffer, List.filter_cons]
      cases extensions.any fun handler => handler.intercepts member with
      | true => exact ih (hnoted.trans hquiet)
      | false =>
          simp only [Bool.not_false, if_true, scan_nil_cons]
          rcases Handler.builtin_of_quiet_eq (hnoted.trans hquiet) member with
            ⟨error, after, after', hafter, hbuiltin, hbuiltin'⟩ |
            ⟨verdict, verdict', after, after', hafter, hbuiltin, hbuiltin'⟩
          · simp only [Bool.false_eq_true, if_false, hbuiltin, hbuiltin']
            exact ⟨rfl, hafter⟩
          · simp only [Bool.false_eq_true, if_false, hbuiltin, hbuiltin']
            exact ih hafter

namespace Compiler

/-- A plan is built without its record. -/
theorem define_eq_of_scansAlike {compiler compiler' : Compiler} {graphId : String}
    {composer : Composer} {members : List Member}
    (h : ScansAlike (compiler.scanMembers graphId composer.members)
      (compiler'.scanMembers graphId members)) :
    compiler.define graphId composer = compiler'.define graphId { composer with members } := by
  obtain ⟨hanswer, hplan⟩ := h
  unfold define
  rcases hscan : compiler.scanMembers graphId composer.members with ⟨answer, plan⟩
  rcases hscan' : compiler'.scanMembers graphId members with ⟨answer', plan'⟩
  rw [hscan, hscan'] at hanswer hplan
  cases hanswer
  cases answer with
  | error error => rfl
  | ok done =>
      have hquiet : plan.quiet = plan'.quiet := hplan
      simp only [← plan.build_quiet, ← plan.error_quiet, ← plan'.build_quiet,
        ← plan'.error_quiet, hquiet]

/-- Whether some extension of a compiler intercepts a member. -/
def intercepts (compiler : Compiler) (member : Member) : Bool :=
  compiler.extensions.any fun handler => handler.intercepts member

/-- A compiler whose extensions only intercept does without them, if it is not given
what they intercept. -/
theorem compile_of_detached {compiler : Compiler}
    (h : ∀ handler ∈ compiler.extensions, handler.Detached) (composer : Composer) :
    compiler.compile composer = ({ compiler with extensions := [] } : Compiler).compile
      { composer with
        members := composer.members.filter fun member => !compiler.intercepts member } := by
  have hdefine : ∀ graphId, compiler.define graphId composer =
      ({ compiler with extensions := [] } : Compiler).define graphId
        { composer with
          members := composer.members.filter fun member => !compiler.intercepts member } := by
    intro graphId
    exact define_eq_of_scansAlike (scan_detached h composer.members rfl)
  simp only [compile, Composer.graphId, hdefine]

/-- **Interception without registration is removal.**  Take any values for missing ones,
any composer with any hooks, and extensions that only intercept.  The compiler gives
what it gives without extensions for the members that none of them intercepts; so the
order of the extensions makes no difference. -/
theorem interception_is_removal {compiler : Compiler}
    (h : ∀ handler ∈ compiler.extensions, handler.Detached) (composer : Composer) :
    compiler.compile composer = ({ compiler with extensions := [] } : Compiler).compile
        { composer with
          members := composer.members.filter fun member => !compiler.intercepts member } ∧
      ∀ extensions, compiler.extensions.Perm extensions →
        ({ compiler with extensions } : Compiler).compile composer = compiler.compile composer := by
  refine ⟨compile_of_detached h composer, ?_⟩
  intro extensions hperm
  have hsame : ∀ member, ({ compiler with extensions } : Compiler).intercepts member =
      compiler.intercepts member := fun member => hperm.symm.any_eq
  have hdetached : ∀ handler ∈ ({ compiler with extensions } : Compiler).extensions,
      handler.Detached := fun handler hmem => h handler (hperm.mem_iff.mpr hmem)
  rw [compile_of_detached hdetached, compile_of_detached h]
  simp only [hsame]

end Compiler

/-! ## Members skipped by name -/

/-- A handler that skips names neither looks at the plan nor changes it. -/
theorem Handler.detached_skip (names : List String) : (Handler.skip names).Detached where
  decides := fun _ => ⟨_, fun _ => rfl⟩
  keeps := fun _ _ => rfl

/-- An observer leaves nothing but its record. -/
theorem Handler.detached_observe : Handler.observe.Detached where
  decides := fun _ => ⟨.passed, fun _ => rfl⟩
  keeps := fun _ _ => rfl

/-- A node. -/
def Member.lead : Member :=
  { Member.field "lead" (.nodeAction fun _ => .ok .empty) with
    tags := [.node { isStart := true, next := [endId] }] }

/-- A text that would be a node of the same id. -/
def Member.understudy : Member :=
  { Member.field "understudy" (.text "ill") with
    tags := [.compileConfig, .node { id := some "lead" }] }

/-- Two members for one part. -/
def Composer.stage : Composer :=
  { typeName := "Stage", marker := some {}, members := [.understudy, .lead] }

/-- Without extensions the understudy is refused.  If it is skipped, with an observer
before or after, the lead is all there is. -/
theorem Compiler.skipped_member_is_not_scanned :
    let compiler : Compiler := { extensions := [.observe, .skip ["understudy"]] }
    (∀ handler ∈ compiler.extensions, handler.Detached) ∧
      ({} : Compiler).compile .stage = .error (.definition ⟨⟨"add node 'lead'",
        .unsupportedShape "understudy" ⟨.text, Component.nodeValueShapes⟩⟩, "Stage"⟩) ∧
      compiler.compile .stage = ({} : Compiler).compile { Composer.stage with members := [.lead] } ∧
      ({ extensions := [.skip ["understudy"], .observe] } : Compiler).compile .stage =
        compiler.compile .stage ∧
      ∃ graph, compiler.compile .stage = .ok graph ∧ graph.nodeIds = ["lead"] := by
  intro compiler
  have hdetached : ∀ handler ∈ compiler.extensions, handler.Detached := by
    intro handler hmem
    rcases List.mem_cons.mp hmem with rfl | hmem
    · exact Handler.detached_observe
    · cases List.mem_singleton.mp hmem
      exact Handler.detached_skip _
  obtain ⟨hremoved, hordered⟩ := interception_is_removal hdetached .stage
  exact ⟨hdetached, rfl, hremoved, hordered _ (List.Perm.swap _ _ []), _, rfl, rfl⟩

end FlowGraph
