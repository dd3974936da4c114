import FlowGraph.Proofs.MemberReading
import Mathlib.Logic.Relation

/-!
# Actions lifted beforehand

A node or a router may be given in any of four shapes, and reading its member
lifts the action into its full form.  It may be lifted before that, by whoever
makes the member, and then reading lifts it once more; but what is in full form
already stays as it is.  So nobody can tell.

* `Component.liftNode_full`, `Component.liftRoute_full`: lifting twice is lifting once.
* `Member.Lifted`: a member with its action lifted beforehand, or left alone.
* `Member.Lifted.standsIn`: **such a member declares the same.**
* `Compiler.lifting_beforehand_is_immaterial`: so it compiles to the same, and runs
  alike.
-/

namespace FlowGraph

namespace Component

variable {value : Component}

/-- A component can be lifted to a node iff it has a full form as one. -/
theorem liftNode_eq_ok_iff {run : Action} :
    value.liftNode = .ok run ↔ value.nodeAction? = some run := by
  unfold liftNode
  cases value.nodeAction? <;> simp

/-- A component can be lifted to a router iff it has a full form as one. -/
theorem liftRoute_eq_ok_iff {choose : Choice} :
    value.liftRoute = .ok choose ↔ value.choice? = some choose := by
  unfold liftRoute
  cases value.choice? <;> simp

/-- A node action in full form is lifted to itself. -/
theorem liftNode_full (run : Action) : (asyncNodeActionWithConfig run).liftNode = .ok run :=
  liftNode_eq_ok_iff.mpr (nodeAction?_full run)

/-- A routing action in full form is lifted to itself. -/
theorem liftRoute_full (choose : Choice) : (asyncCommandAction choose).liftRoute = .ok choose :=
  liftRoute_eq_ok_iff.mpr (choice?_full choose)

end Component

namespace Member

/-- A member with its action lifted beforehand, or left alone.  The lifted value may
be declared as of any kind. -/
inductive Lifted : Member → Member → Prop
  | same (member : Member) : Lifted member member
  | node {member : Member} {value : Component} {run : Action} (declared : Kind)
      (hrole : member.role = .node) (hvalue : member.value = some value)
      (hlift : value.liftNode = .ok run) :
      Lifted member { member with declared, value := some (.asyncNodeActionWithConfig run) }
  | router {member : Member} {value : Component} {choose : Choice} (declared : Kind)
      (hrole : member.role = .conditionalEdge) (hvalue : member.value = some value)
      (hlift : value.liftRoute = .ok choose) :
      Lifted member { member with declared, value := some (.asyncCommandAction choose) }

variable {supplier : Supplier} {member other : Member}

/-- A node member that holds an action declares a node that runs its full form. -/
theorem declares_of_liftNode {tag : NodeSpec} {value : Component} {run : Action}
    (hrole : member.role = .node) (htag : member.node? = some tag)
    (hvalue : member.value = some value) (hlift : value.liftNode = .ok run) :
    member.declares supplier = .ok (.operations
      (.ofNode (member.nodeId tag) (.action run) :: nodeEdges (member.nodeId tag) tag)) := by
  have hrun := Component.liftNode_eq_ok_iff.mp hlift
  rw [declares_of_node hrole htag, resolved, hvalue]
  cases value with
  | _ => cases hrun <;> rfl

/-- A router member that holds an action declares what it would with its full form. -/
theorem declares_of_liftRoute {tag : EdgeSpec} {value : Component} {choose : Choice}
    (hrole : member.role = .conditionalEdge) (htag : member.edge? = some tag)
    (hvalue : member.value = some value) (hlift : value.liftRoute = .ok choose) :
    member.declares supplier = member.readEdge tag (some (.asyncCommandAction choose)) := by
  have hread : ∀ source routes, member.readRouter source routes (some value) =
      member.readRouter source routes (some (.asyncCommandAction choose)) := by
    intro source routes
    simp only [readRouter, hlift, Component.liftRoute_full]
  have hheld : member.resolved supplier none = some value := by
    rw [resolved, hvalue]
    rfl
  rw [declares_of_edge hrole htag, hheld, readEdge, readEdge, edgeReading]
  by_cases hblank : Text.isBlank tag.source
  · simp only [hblank, if_true]
  · simp only [hblank]
    cases routesOf member.name tag.mappings with
    | error cause => rfl
    | ok routes => exact hread tag.source routes

/-- **A member whose action is lifted beforehand declares what it would have declared.** -/
theorem Lifted.standsIn (h : member.Lifted other) (supplier : Supplier) :
    member.StandsIn supplier other := by
  cases h with
  | same => exact .refl supplier member
  | @node value run declared hrole hvalue hlift =>
      obtain ⟨tag, htag⟩ := exists_node? hrole
      refine ⟨rfl, ?_⟩
      rw [declares_of_liftNode hrole htag hvalue hlift]
      exact declares_of_liftNode hrole htag rfl (Component.liftNode_full run)
  | @router value choose declared hrole hvalue hlift =>
      obtain ⟨tag, htag⟩ := exists_edge? hrole
      refine ⟨rfl, ?_⟩
      rw [declares_of_liftRoute hrole htag hvalue hlift]
      exact declares_of_liftRoute hrole htag rfl (Component.liftRoute_full choose)

end Member

/-- **Lifting beforehand cannot be told.**  Let some node members that hold a node
action hold its full form instead, and some router members that hold a routing action
hold that in full form, and let this be done over and over.  A compiler without
extensions gives what it gave before, whatever the hooks do: the same error, or the
same graph, with its id, keys, config, nodes and routers, which therefore is drawn and
runs as before. -/
theorem Compiler.lifting_beforehand_is_immaterial {compiler : Compiler} {composer : Composer}
    {members : List Member} (hplain : compiler.extensions = [])
    (hlifted : Relation.ReflTransGen (List.Forall₂ Member.Lifted) composer.members members) :
    compiler.compile { composer with members } = compiler.compile composer := by
  -- on the rounds: after each the members stand in for those before it
  induction hlifted with
  | refl => rfl
  | @tail earlier members _ hround ih =>
      have hstands : List.Forall₂ (Member.StandsIn compiler.supplier) earlier members :=
        hround.imp fun _ _ h => h.standsIn compiler.supplier
      rw [← ih]
      exact @compile_congr compiler hplain { composer with members := earlier } members hstands

/-- A bell that is rung, and an ear that hears it. -/
def Composer.belfry : Composer where
  typeName := "Belfry"
  marker := some {}
  members :=
    [{ Member.field "bell" (.nodeAction fun _ => .ok (.ofList [("sound", .str "dong")])) with
       tags := [.node { isStart := true }] },
     { Member.field "ear" (.edgeAction fun store =>
         .ok (if store.contains "sound" then "heard" else "silence")) with
       tags := [.edge { source := "bell", mappings := ["heard", endId] }] }]

/-- The bell is lifted, and then the bell again and the ear. -/
theorem Compiler.twice_lifted_members_compile_alike :
    ∃ members, Relation.ReflTransGen (List.Forall₂ Member.Lifted) Composer.belfry.members members ∧
      members.map Member.declared = [.asyncNodeActionWithConfig, .asyncCommandAction] ∧
      ({} : Compiler).compile { Composer.belfry with members } =
        ({} : Compiler).compile Composer.belfry ∧
      ∃ graph, ({} : Compiler).compile Composer.belfry = .ok graph ∧
        graph.run .empty {} = .ok (.ofList [("sound", .str "dong")]) := by
  have hbell : List.Forall₂ Member.Lifted Composer.belfry.members _ :=
    .cons (.node .nodeAction rfl rfl rfl) (.cons (.same _) .nil)
  have hlifted := (Relation.ReflTransGen.single hbell).tail
    (.cons (.node .asyncNodeActionWithConfig rfl rfl rfl)
      (.cons (.router .asyncCommandAction rfl rfl rfl) .nil))
  exact ⟨_, hlifted, rfl, lifting_beforehand_is_immaterial rfl hlifted, _, rfl, rfl⟩

end FlowGraph
