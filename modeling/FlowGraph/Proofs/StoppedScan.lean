import FlowGraph.Proofs.Deferral
import FlowGraph.Proofs.Handling

/-!
# Where a scan stops

A built-in handler makes all its checks before it registers anything, and what it
does from there on cannot fail; `Planning.spares_work` says so of the steps that it
takes.  So a scan that stops at a member leaves in the plan what the
members before it declare and nothing of the member itself; and a scan that goes
through has put off the operations of all members, one member after the other.

* `exists_stopping_member`: every scan that fails stops at one member.
* `scan_ok_iff_of_stops`: **the members before it are the longest start that scans.**
* `Member.PutsOff`: the operations that a member asks for, said without its reading.
* `Member.putsOff_of_declares`: the reading says the same.
* `stopped_scan_keeps_what_came_before`: what a scan leaves behind, and what it
  has put off when it is through.
-/

namespace FlowGraph

/-! ## The member that stops a scan -/

section

variable {extensions : List Handler} {members before after : List Member} {member : Member}
  {plan middle left : Plan} {error : DefinitionError}

/-- A scan that fails gets through some members, and fails at the next. -/
theorem exists_stopping_member (h : scan extensions members plan = (.error error, left)) :
    ∃ before member after middle, members = before ++ member :: after ∧
      scan extensions before plan = (.ok (), middle) ∧
      Handler.ofExtensions extensions member middle = (.error error, left) := by
  induction members generalizing plan with
  | nil => cases h
  | cons member rest ih =>
      rw [scan] at h
      rcases hanswer : Handler.ofExtensions extensions member plan with ⟨answer, next⟩
      rw [hanswer] at h
      cases answer with
      | error failure =>
          cases h
          exact ⟨[], member, rest, plan, rfl, rfl, hanswer⟩
      | ok verdict =>
          obtain ⟨before, stop, after, middle, rfl, hbefore, hstop⟩ := ih h
          refine ⟨member :: before, stop, after, middle, rfl, ?_, hstop⟩
          rw [scan, hanswer]
          exact hbefore

/-- A scan that has got through some members goes on with the next. -/
theorem scan_concat_of_error (hbefore : scan extensions before plan = (.ok (), middle))
    (hstop : Handler.ofExtensions extensions member middle = (.error error, left)) :
    scan extensions (before ++ [member]) plan = (.error error, left) := by
  rw [scan_append, hbefore]
  simp only [scan, hstop]

/-- Where some members are scanned through, their first ones are. -/
theorem scan_ok_of_prefix {front : List Member} (hstart : front <+: members)
    (h : (scan extensions members plan).1 = .ok ()) : (scan extensions front plan).1 = .ok () := by
  obtain ⟨back, rfl⟩ := hstart
  rw [scan_append] at h
  rcases hfront : scan extensions front plan with ⟨answer, next⟩
  rw [hfront] at h
  cases answer with
  | ok done => rfl
  | error failure => cases h

/-- **The members before the one that stops a scan are the longest start of the list
that is scanned through.** -/
theorem scan_ok_iff_of_stops {front : List Member}
    (hbefore : (scan extensions before plan).1 = .ok ())
    (hstop : (scan extensions (before ++ [member]) plan).1 = .error error)
    (hfront : front <+: before ++ member :: after) :
    (scan extensions front plan).1 = .ok () ↔ front <+: before := by
  constructor
  · intro hscan
    rw [List.append_cons] at hfront
    rcases List.prefix_or_prefix_of_prefix hfront (List.prefix_append _ after) with
      hshort | hlong
    · -- a start of the list up to the member is that list itself, or lies before the member
      rcases List.prefix_concat_iff.mp hshort with rfl | hbefore
      · rw [hstop] at hscan
        cases hscan
      · exact hbefore
    · have hthrough := scan_ok_of_prefix hlong hscan
      rw [hstop] at hthrough
      cases hthrough
  · intro hstart
    exact scan_ok_of_prefix hstart hbefore

end

/-! ## What members put off -/

namespace Member

/-- **The operations that a member puts off.** -/
inductive PutsOff (supplier : Supplier) (member : Member) : List Operation → Prop
  /-- A node: itself, then its edge from the entry if it is a start node, then an edge
  to each of the next nodes that is not blank. -/
  | node {tag : NodeSpec} {value : Component} {body : Body Graph}
      (htag : member.nodeTag? = some tag)
      (hvalue : member.resolved supplier (some (member.nodeId tag)) = some value)
      (hbody : value.Backs body) :
      PutsOff supplier member
        (.ofNode (member.nodeId tag) body ::
          ((if tag.isStart then
              [⟨s!"add edge from START to '{member.nodeId tag}'",
                .call (.edge startId (member.nodeId tag))⟩]
            else []) ++
          (tag.next.filter fun next => !Text.isBlank next).map fun next =>
            ⟨s!"add edge from '{member.nodeId tag}' to '{next}'",
              .call (.edge (member.nodeId tag) next)⟩))
  /-- A router: one operation. -/
  | router {tag : EdgeSpec} {value : Component} {choose : Choice}
      (htag : member.routerTag? = some tag)
      (hvalue : member.resolved supplier none = some value)
      (hchoose : value.choice? = some choose) :
      PutsOff supplier member
        [.ofRouter tag.source ⟨choose, .ofList (routesOf.pairs tag.mappings)⟩]
  /-- Any other member: none. -/
  | nothing (hnode : member.role ≠ .node) (hrouter : member.role ≠ .conditionalEdge) :
      PutsOff supplier member []

variable {supplier : Supplier} {member : Member} {found : Contribution}

/-- **A member declares the operations that it puts off.** -/
theorem putsOff_of_declares (h : member.declares supplier = .ok found) :
    member.PutsOff supplier found.deferred := by
  cases declared_of_declares h with
  | node hrole htag hvalue hbody =>
      exact .node (nodeTag?_eq_some_iff.mpr ⟨hrole, htag⟩) hvalue hbody
  | router hrole htag hvalue hchoose =>
      exact .router (routerTag?_eq_some_iff.mpr ⟨hrole, htag⟩) hvalue hchoose
  | key hrole => exact .nothing (by simp [hrole]) (by simp [hrole])
  | config hrole => exact .nothing (by simp [hrole]) (by simp [hrole])
  | nothing hrole => exact .nothing (by simp [hrole]) (by simp [hrole])

end Member

/-! ## What a scan leaves behind -/

/-- A member that stops a scan without extensions adds nothing to the plan. -/
theorem quiet_of_stop {member : Member} {middle left : Plan} {error : DefinitionError}
    (h : Handler.ofExtensions [] member middle = (.error error, left)) :
    left.quiet = middle.quiet := by
  -- the handler registers last, as its steps show
  rw [Handler.ofExtensions, List.nil_append, Handler.offer_singleton,
    ← Handler.ofSteps_eq_builtin] at h
  exact Planning.spares_work member.role member middle error left h

/-- A scan without extensions that goes through has put off the operations of the
members, in their order. -/
theorem operations_of_scan {members : List Member} {plan left : Plan}
    (h : scan [] members plan = (.ok (), left)) :
    ∃ put, List.Forall₂ (Member.PutsOff plan.supplier) members put ∧
      left.operations = plan.operations ++ put.flatten := by
  rcases scan_nil_eq members plan with
    ⟨refusal, after, -, hscan⟩ | ⟨after, hwalk, hscan, -⟩
  · cases hscan.symm.trans h
  · cases hscan.symm.trans h
    obtain ⟨found, hfound, -, hgain⟩ := Plan.takeAll_eq_ok_iff.mp hwalk
    have hdeclared := Traversal.mapM_eq_ok_iff.mp hfound
    refine ⟨found.map Contribution.deferred, ?_, ?_⟩
    · rw [List.forall₂_map_right_iff]
      exact hdeclared.imp fun _ _ => Member.putsOff_of_declares
    · rw [← List.flatMap_def]
      exact (congrArg Plan.operations hgain).trans
        (Plan.operations_gainAll_zip _ hdeclared.length_eq)

/-- **A scan that stops leaves behind what came before.**  Take any members and any
plan to start from, and no extensions.

* If the scan fails, it does so at one member: the members before it are scanned
  through, the plan has the keys, operations and compile config that it had when they
  were, and no longer start of the list can be scanned through.
* If it does not fail, the operations that the plan had are followed by those of the
  members, in their order. -/
theorem stopped_scan_keeps_what_came_before (members : List Member) (plan : Plan) :
    (∀ error left, scan [] members plan = (.error error, left) →
      ∃ before member after middle, members = before ++ member :: after ∧
        scan [] before plan = (.ok (), middle) ∧
        scan [] (before ++ [member]) plan = (.error error, left) ∧
        left.keys = middle.keys ∧ left.operations = middle.operations ∧
        left.config = middle.config ∧
        ∀ front, front <+: members →
          ((scan [] front plan).1 = .ok () ↔ front <+: before)) ∧
      ∀ left, scan [] members plan = (.ok (), left) →
        ∃ put, List.Forall₂ (Member.PutsOff plan.supplier) members put ∧
          left.operations = plan.operations ++ put.flatten := by
  refine ⟨?_, fun left => operations_of_scan⟩
  intro error left hscan
  obtain ⟨before, member, after, middle, rfl, hbefore, hmember⟩ := exists_stopping_member hscan
  have hstop := scan_concat_of_error hbefore hmember
  obtain ⟨-, -, hkeys, hoperations, hconfig, -⟩ := Plan.mk.inj (quiet_of_stop hmember)
  refine ⟨before, member, after, middle, rfl, hbefore, hstop, hkeys, hoperations, hconfig, ?_⟩
  intro front hfront
  exact scan_ok_iff_of_stops (by rw [hbefore]) (by rw [hstop]) hfront

/-- The note stops the scan of the twins, in a plan that has a key already; both
twins are put off by then, with their edges, and nobody comes to the memo. -/
theorem mutable_key_stops_scan_after_nodes :
    let plan : Plan := { graphId := "Twins", keys := .ofList [("log", .append)] }
    ∃ error left before middle,
      scan [] (Composer.twins.members ++ [.note, .memo]) plan = (.error error, left) ∧
        scan [] before plan = (.ok (), middle) ∧ left.operations = middle.operations ∧
        left.operations.length = 4 ∧ left.keys = middle.keys := by
  intro plan
  obtain ⟨hstops, -⟩ :=
    stopped_scan_keeps_what_came_before (Composer.twins.members ++ [.note, .memo]) plan
  obtain ⟨before, -, -, middle, -, hbefore, -, hkeys, hoperations, -, -⟩ := hstops _ _ rfl
  exact ⟨_, _, before, middle, rfl, hbefore, hoperations, rfl, hkeys⟩

end FlowGraph
