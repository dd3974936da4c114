import FlowGraph.Definition
import FlowGraph.Settings
import FlowGraph.Shelf

/-!
# Enrolling composers

Listed composers are compiled one after the other, and their graphs are put on
a shelf, where the composers after them may find them.  The work stops at the
first composer that cannot be compiled; what was put on the shelf before it
stays.

* `Marker.graphNameFor`: the name that a graph is put on the shelf under.
* `Enroller.enrollAll`: a whole list, with the shelf as it was left.
-/

namespace FlowGraph

/-- A composer with the name it is listed under. -/
structure Listing where
  name : String
  composer : Composer

/-- Listings in the order of their names; equal names keep their order. -/
def Listing.byName (listings : List Listing) : List Listing :=
  listings.mergeSort fun a b => a.name ≤ b.name

/-- A text without the given ending, if it has it. -/
def withoutEnding? (ending text : List Char) : Option (List Char) :=
  if ending.isSuffixOf text then some (text.take (text.length - ending.length)) else none

/-- The name for the graph of a composer: the one its marker asks for, else the
name it is listed under without the ending `Composer`, or with `Compiled` added
where the ending is missing or is all there is. -/
def Marker.graphNameFor (marker : Marker) (listed : String) : String :=
  match Text.given marker.graphName with
  | some name => name
  | none =>
    match withoutEnding? "Composer".toList listed.toList with
    | some (c :: rest) => String.ofList (c :: rest)
    | _ => listed ++ "Compiled"

/-- Compiles listed composers onto a shelf. -/
structure Enroller where
  settings : Settings := {}
  /-- The compiler to use; it may look at the shelf that is being filled. -/
  compilerFor : Shelf → Compiler

namespace Enroller

/-- Compile a listed composer and put its graph on the shelf. -/
def accept (enroller : Enroller) (listing : Listing) (marker : Marker) (shelf : Shelf) :
    Except CompileError (String × Shelf) :=
  match (enroller.compilerFor shelf).compile listing.composer with
  | .error error => .error error
  | .ok graph =>
    let name := marker.graphNameFor listing.name
    .ok (name, shelf.putCompiled name graph listing.composer.typeName)

/-- Enroll a composer that is asked for, whatever the settings and its marker
say about compiling without being asked. -/
def enroll (enroller : Enroller) (listing : Listing) (shelf : Shelf) :
    Except CompileError (String × Shelf) :=
  match listing.composer.marker with
  | none => .error (.notAComposer listing.composer.typeName)
  | some marker => enroller.accept listing marker shelf

/-- Enroll composers in turn, up to the first that fails: the names given to the
graphs, and the shelf as it was left.  Composers that opted out are passed over. -/
def enrollEach (enroller : Enroller) :
    List Listing → Shelf → Except CompileError (List String) × Shelf
  | [], shelf => (.ok [], shelf)
  | listing :: rest, shelf =>
    match listing.composer.marker with
    | none => (.error (.notAComposer listing.composer.typeName), shelf)
    | some marker =>
      if marker.automatic then
        match enroller.accept listing marker shelf with
        | .error error => (.error error, shelf)
        | .ok (name, shelf) =>
          let (names, shelf) := enrollEach enroller rest shelf
          (names.map (name :: ·), shelf)
      else enrollEach enroller rest shelf

/-- Enroll composers in turn, if the settings allow it. -/
def enrollAll (enroller : Enroller) (listings : List Listing) (shelf : Shelf) :
    Except CompileError (List String) × Shelf :=
  if enroller.settings.compiles then enroller.enrollEach listings shelf else (.ok [], shelf)

end Enroller

end FlowGraph
