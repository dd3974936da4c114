import FlowGraph.Component

/-!
# Members and their tags

A composer is described by its members, each with a name, tags, a declared kind
and perhaps a value.  Tags say what a member is for; a member with several tags
has the role that ranks highest, whatever the order of its tags.

* `Role.rank`: keys before nodes before conditional edges before configs.
* `Member.role_le`, `Member.role_mem`: **the role is the best rank among the
  tags**, and one of the tags has it.
-/

namespace FlowGraph

/-- Makes a member a state key. -/
structure KeySpec where
  /-- The key; without it the member's own text is the key. -/
  id : Option String := none
  rule : WriteRule := .replace
  description : Option String := none
  internal : Bool := false
deriving DecidableEq, Repr

/-- Makes a member a node. -/
structure NodeSpec where
  /-- The node id; without it the member's name is the id. -/
  id : Option String := none
  /-- Whether an edge leads from the entry to the node. -/
  isStart : Bool := false
  /-- The nodes that come next; blank ones are passed over. -/
  next : List String := []
  description : Option String := none
deriving DecidableEq, Repr

/-- Makes a member a router. -/
structure EdgeSpec where
  source : String
  /-- Labels and destinations by turns. -/
  mappings : List String := []
deriving DecidableEq, Repr

/-- A tag that only extensions understand. -/
structure CustomSpec where
  name : String
  attributes : Table String := .empty
deriving DecidableEq

/-- What a member is tagged with. -/
inductive Tag where
  | key (tag : KeySpec)
  | node (tag : NodeSpec)
  | edge (tag : EdgeSpec)
  | compileConfig
  | custom (tag : CustomSpec)
deriving DecidableEq

/-- What a member is for. -/
inductive Role where
  | key
  | node
  | conditionalEdge
  | compileConfig
  | unrecognized
deriving DecidableEq, Repr, Inhabited

namespace Role

/-- The place of a role in the order of precedence; the lowest wins. -/
def rank : Role → Nat
  | .key => 0
  | .node => 1
  | .conditionalEdge => 2
  | .compileConfig => 3
  | .unrecognized => 4

/-- The role of the two that takes precedence. -/
def best (a b : Role) : Role := if a.rank ≤ b.rank then a else b

/-- The name of a role. -/
def name : Role → String
  | .key => "Key"
  | .node => "Node"
  | .conditionalEdge => "ConditionalEdge"
  | .compileConfig => "CompileConfig"
  | .unrecognized => "Unrecognized"

end Role

/-- The role that a tag stands for; custom tags stand for none. -/
def Tag.role : Tag → Role
  | .key _ => .key
  | .node _ => .node
  | .edge _ => .conditionalEdge
  | .compileConfig => .compileConfig
  | .custom _ => .unrecognized

/-- A member of a composer. -/
structure Member where
  name : String
  tags : List Tag := []
  /-- The kind that a value of the member has, or would have. -/
  declared : Kind
  isMutable : Bool := false
  /-- Whether the member belongs to the composer as a whole. -/
  isGlobal : Bool := false
  value : Option Component := none

namespace Member

/-- A global member with a value. -/
def constant (name : String) (value : Component) : Member :=
  { name, declared := value.kind, isGlobal := true, value := some value }

/-- A member of one instance, with a value. -/
def field (name : String) (value : Component) : Member :=
  { name, declared := value.kind, value := some value }

/-- A member of one instance that has no value yet. -/
def unset (name : String) (declared : Kind) : Member := { name, declared }

/-- What a member is for: the role of its tags that takes precedence. -/
def role (member : Member) : Role :=
  member.tags.foldr (fun tag role => tag.role.best role) .unrecognized

/-- The first key tag. -/
def key? (member : Member) : Option KeySpec :=
  member.tags.findSome? fun
    | .key tag => some tag
    | _ => none

/-- The first node tag. -/
def node? (member : Member) : Option NodeSpec :=
  member.tags.findSome? fun
    | .node tag => some tag
    | _ => none

/-- The first edge tag. -/
def edge? (member : Member) : Option EdgeSpec :=
  member.tags.findSome? fun
    | .edge tag => some tag
    | _ => none

/-- The first custom tag with a name. -/
def custom? (member : Member) (name : String) : Option CustomSpec :=
  member.tags.findSome? fun
    | .custom tag => if tag.name = name then some tag else none
    | _ => none

/-- No tag takes precedence over the role of its member. -/
theorem role_le (member : Member) :
    ∀ tag ∈ member.tags, member.role.rank ≤ tag.role.rank := by
  have hle : ∀ (tags : List Tag) (tag : Tag), tag ∈ tags →
      (tags.foldr (fun tag role => tag.role.best role) Role.unrecognized).rank ≤
        tag.role.rank := by
    intro tags
    induction tags with
    | nil =>
        intro tag hmem
        cases hmem
    | cons head rest ih =>
        intro tag hmem
        rw [List.foldr_cons, Role.best]
        rcases List.mem_cons.mp hmem with rfl | hmem
        · split <;> omega
        · have hrest := ih tag hmem
          split <;> omega
  exact hle member.tags

/-- The role of a member is that of one of its tags, or none is recognized. -/
theorem role_mem (member : Member) :
    (∃ tag ∈ member.tags, tag.role = member.role) ∨ member.role = .unrecognized := by
  have hfound : ∀ tags : List Tag,
      let role := tags.foldr (fun tag role => tag.role.best role) Role.unrecognized
      (∃ tag ∈ tags, tag.role = role) ∨ role = .unrecognized := by
    intro tags
    induction tags with
    | nil => exact Or.inr rfl
    | cons head rest ih =>
        simp only [List.foldr_cons, Role.best]
        split
        · exact Or.inl ⟨head, List.mem_cons_self, rfl⟩
        · rcases ih with ⟨tag, hmem, hrole⟩ | hnone
          · exact Or.inl ⟨tag, List.mem_cons_of_mem _ hmem, hrole⟩
          · exact Or.inr hnone
  exact hfound member.tags

end Member

end FlowGraph
