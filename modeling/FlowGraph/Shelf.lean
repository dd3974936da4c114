import FlowGraph.Scan

/-!
# Shelves

A shelf holds components under names, in the order in which the names came up
first, and remembers which graph was compiled from which composer for as long
as the graph stays under its name.  It can stand in for missing values: by the
name of a candidate, by the name of the member, and at last by kind, if there
is no choice.

* `Shelf.put`, `Shelf.putCompiled`: the two ways to fill a shelf.
* `Shelf.only`: one entry of a kind, none, or a choice between several.
* `Shelf.supply`: **a shelf as a supplier**, which gives values of the declared
  kind only.
-/

namespace FlowGraph

/-- Components under names. -/
structure Shelf where
  /-- Names and components, in the order in which the names came up first. -/
  entries : List (String × Component) := []
  /-- Composers and the names of the graphs compiled from them. -/
  origins : List (String × String) := []

/-- What looking for a kind comes to. -/
inductive Shelf.Selection where
  | one (value : Component)
  | several (names : List String)
  | none

namespace Shelf

/-- Put a value in the place of a name, or at the end if the name is new. -/
def place (name : String) (value : Component) :
    List (String × Component) → List (String × Component)
  | [] => [(name, value)]
  | (n, v) :: rest => if n = name then (name, value) :: rest else (n, v) :: place name value rest

/-- Hold a value under a name; what was compiled under this name is forgotten. -/
def put (shelf : Shelf) (name : String) (value : Component) : Shelf :=
  ⟨place name value shelf.entries, shelf.origins.filter fun origin => !(origin.2 == name)⟩

/-- Hold a graph under a name, as the one compiled from a composer. -/
def putCompiled (shelf : Shelf) (name : String) (graph : Graph) (composer : String) : Shelf :=
  let next := shelf.put name (.subgraph graph)
  { next with
    origins := (next.origins.filter fun origin => !(origin.1 == composer))
      ++ [(composer, name)] }

/-- The value under a name. -/
def get? (shelf : Shelf) (name : String) : Option Component := Fields.get? name shelf.entries

/-- Whether a name is taken. -/
def contains (shelf : Shelf) (name : String) : Bool := (shelf.get? name).isSome

/-- Whether the value under a name has a kind. -/
def hasKind (shelf : Shelf) (name : String) (kind : Kind) : Bool :=
  shelf.entries.any fun entry => entry.1 == name && entry.2.kind == kind

/-- The graph under a name. -/
def graph? (shelf : Shelf) (name : String) : Option Graph :=
  match shelf.get? name with
  | some (.subgraph graph) => some graph
  | _ => Option.none

/-- The graph compiled from a composer. -/
def compiledFrom? (shelf : Shelf) (composer : String) : Option Graph :=
  (Fields.get? composer shelf.origins).bind shelf.graph?

/-- All names, in the order in which they came up first. -/
def names (shelf : Shelf) : List String := shelf.entries.map Prod.fst

/-- The number of names. -/
def size (shelf : Shelf) : Nat := shelf.entries.length

/-- The entries of a kind, in order. -/
def ofKind (shelf : Shelf) (kind : Kind) : List (String × Component) :=
  shelf.entries.filter fun entry => entry.2.kind == kind

/-- The entry of a kind, if there is just one. -/
def only (shelf : Shelf) (kind : Kind) : Selection :=
  match shelf.ofKind kind with
  | [] => .none
  | [(_, value)] => .one value
  | several => .several (several.map Prod.fst)

/-- The value under a name, if it has the kind that is looked for. -/
def named? (shelf : Shelf) (name : String) (kind : Kind) : Option Component :=
  if shelf.hasKind name kind then shelf.get? name else Option.none

/-- A shelf as a supplier: a value of the member's declared kind, by the
candidate's name, by the member's name, or as the only one of its kind. -/
def supply (shelf : Shelf) : Supplier := fun member candidate =>
  ((Text.given candidate).bind fun name => shelf.named? name member.declared)
    <|> shelf.named? member.name member.declared
    <|> match shelf.only member.declared with
      | .one value => some value
      | _ => Option.none

/-- A look-up after putting a value in its place. -/
theorem get?_place (name : String) (value : Component) (entries : List (String × Component))
    (key : String) :
    Fields.get? key (place name value entries) =
      if name = key then some value else Fields.get? key entries := by
  induction entries with
  | nil => rfl
  | cons entry rest ih =>
      obtain ⟨n, v⟩ := entry
      simp only [place]
      split
      · next heq =>
          subst heq
          simp only [Fields.get?_cons]
          split <;> rfl
      · simp only [Fields.get?_cons, ih]
        grind

/-- **Putting a value changes one name.** -/
theorem get?_put (shelf : Shelf) (name : String) (value : Component) (key : String) :
    (shelf.put name value).get? key = if name = key then some value else shelf.get? key :=
  get?_place name value shelf.entries key

end Shelf

end FlowGraph
