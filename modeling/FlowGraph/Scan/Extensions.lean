import FlowGraph.Scan

/-!
# Extensions

Handlers that a compiler may be given beside the built-in ones: some decide by
the names of members, some by custom tags, and one only looks on.

* `Handler.skip`, `Handler.refuse`, `Handler.postpone`: by name.
* `Handler.observe`: notes every member that it sees and passes it on.
* `Handler.staticEdge`: a member tagged `edge` becomes a static edge.
* `Handler.chain`: a member tagged `module` becomes a chain of nodes.
-/

namespace FlowGraph.Handler

/-- Intercept members by name and do nothing with them. -/
def skip (names : List String) : Handler := fun member plan =>
  (.ok (if names.contains member.name then .intercepted else .passed), plan)

/-- Refuse members by name. -/
def refuse (names : List String) (reason : String) : Handler := fun member plan =>
  if names.contains member.name then
    (.error (plan.error ⟨s!"extend member '{member.name}'", .extension reason⟩), plan)
  else (.ok .passed, plan)

/-- Intercept members by name and refuse them when the plan is carried out. -/
def postpone (names : List String) (reason : String) : Handler := fun member plan =>
  if names.contains member.name then
    (.ok .intercepted,
      plan.defer ⟨s!"defer member '{member.name}'", .custom fun _ => .error (.extension reason)⟩)
  else (.ok .passed, plan)

/-- Note each member, with what was collected before it, and pass it on. -/
def observe : Handler := fun member plan =>
  (.ok .passed,
    plan.note (.seen member.name member.role (Table.size plan.keys) plan.operations.length
      plan.config.isSome))

/-- The operation that adds a static edge. -/
def edgeOperation (source target : String) : Operation :=
  ⟨s!"add edge from '{source}' to '{target}'", .call (.edge source target)⟩

/-- A member with the custom tag `edge` becomes the static edge between the
nodes that the tag names. -/
def staticEdge : Handler := fun member plan =>
  match member.custom? "edge" with
  | none => (.ok .passed, plan)
  | some tag =>
    match tag.attributes.get? "from", tag.attributes.get? "to" with
    | some source, some target =>
      (.ok .intercepted, plan.defer (edgeOperation source target))
    | _, _ =>
      (.error (plan.error ⟨s!"add edge from member '{member.name}'",
        .extension "edge tag needs 'from' and 'to'"⟩), plan)

/-- Add one node for each part of a module, and an edge from each to the next. -/
def chainParts (member : Member) :
    (previous : Option String) → List (String × Component) → Plan → Handling
  | _, [], plan => (.ok .intercepted, plan)
  | previous, (id, value) :: rest, plan =>
    match value.liftNode with
    | .error shape =>
      (.error (plan.error ⟨s!"add node '{id}'", .unsupportedShape member.name shape⟩), plan)
    | .ok run =>
      let plan := plan.defer ⟨s!"add node '{id}'", .call (.node id (.action run))⟩
      let plan :=
        match previous with
        | some previous => plan.defer (edgeOperation previous id)
        | none => plan
      chainParts member (some id) rest plan

/-- A member with the custom tag `module` becomes the chain of the nodes in its
value. -/
def chain : Handler := fun member plan =>
  match member.custom? "module", member.value with
  | none, _ => (.ok .passed, plan)
  | some _, some (.bundle parts) => chainParts member none parts plan
  | some _, _ =>
    (.error (plan.error ⟨s!"expand module '{member.name}'",
      .extension "module member must hold a Module"⟩), plan)

end FlowGraph.Handler
