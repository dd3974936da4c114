import FlowGraph.Stored

/-!
# Where settings are kept

Settings live in a file of a tree of files and directories.  A path is followed
through the tree name by name: an empty name and `.` stay where they are, `..`
goes back up, and every other name goes down.  All that comes before a name
must lead to a directory, so a slash at the end asks for one as well.

A file that is not there stands for the default settings.  Saving makes the
directories on the way to a file; those it has made stay, even if the file
cannot be written in the end.

* `FilePath.ofText`, `FilePath.parent`: paths and the directories that they are in.
* `FileTree.place?`: following a path.
* `FileTree.makeDirs`, `FileTree.write`: the two changes of a tree.
* `Settings.load`, `Settings.save`: reading and writing settings.
-/

namespace FlowGraph

/-- The longest name of a file or a directory, in bytes. -/
def nameLimit : Nat := 255

/-- The longest path that can be followed, in bytes. -/
def pathLimit : Nat := 4095

/-- A path as it is written. -/
structure FilePath where
  /-- Does it start with a slash, and so at the root? -/
  absolute : Bool
  /-- What stands between the slashes. -/
  names : List String
deriving DecidableEq, Repr

namespace FilePath

/-- The parts of a text between slashes. -/
def segments : List Char → List (List Char)
  | [] => [[]]
  | '/' :: rest => [] :: segments rest
  | c :: rest =>
    match segments rest with
    | [] => [[c]]
    | first :: others => (c :: first) :: others

/-- The path that a text with slashes stands for. -/
def ofText (text : String) : FilePath :=
  match text.toList with
  | '/' :: rest => ⟨true, (segments rest).map String.ofList⟩
  | chars => ⟨false, (segments chars).map String.ofList⟩

/-- The length of the text of a path, in bytes. -/
def size (path : FilePath) : Nat :=
  path.absolute.toNat + path.names.foldl (fun bytes name => bytes + name.utf8ByteSize) 0
    + (path.names.length - 1)

/-- Can the path be followed at all?  One that is too long or holds the
character zero leads nowhere. -/
def isUsable (path : FilePath) : Bool :=
  path.size ≤ pathLimit && path.names.all fun name => !name.toList.contains '\x00'

/-- A path seen from a directory: the same if it starts at the root. -/
def within (path directory : FilePath) : FilePath :=
  if path.absolute then path else ⟨directory.absolute, directory.names ++ path.names⟩

/-- Does the name stay where it is? -/
def stays (name : String) : Bool := name == "" || name == "."

/-- Names without those at the end that stay where they are. -/
def dropStays (names : List String) : List String :=
  (names.reverse.dropWhile stays).reverse

/-- The path without its last name, as it is written. -/
def parent (path : FilePath) : FilePath :=
  { path with names := dropStays (dropStays path.names).dropLast }

/-- Does the path end in a name that a new file may have? -/
def namesFile (path : FilePath) : Bool :=
  match path.names.getLast? with
  | none => false
  | some name => !stays name && name != ".." && name.utf8ByteSize ≤ nameLimit

end FilePath

/-- The names from the root of a tree down to a file or a directory. -/
abbrev Place := List String

/-- Where a name leads from a directory. -/
def Place.enter (place : Place) (name : String) : Place :=
  if FilePath.stays name then place
  else if name == ".." then place.dropLast
  else place ++ [name]

/-- What stands at a place. -/
inductive FileEntry where
  | directory
  | file (bytes : ByteArray)

/-- Files and directories below a root, which is always there. -/
structure FileTree where
  /-- The directory that relative paths start from. -/
  home : FilePath := ⟨true, []⟩
  entries : List (Place × FileEntry) := []

namespace FileTree

/-- What stands at a place, if anything does. -/
def find? (tree : FileTree) : Place → Option FileEntry
  | [] => some .directory
  | place => (tree.entries.find? fun entry => entry.1 == place).map Prod.snd

/-- Put something at a place, instead of what stood there. -/
def put (tree : FileTree) (place : Place) (entry : FileEntry) : FileTree :=
  { tree with entries := (place, entry) :: tree.entries.filter fun old => !(old.1 == place) }

/-- The place that names lead to, each from a directory. -/
def follow? (tree : FileTree) : Place → List String → Option Place
  | place, [] => some place
  | place, name :: rest =>
    match tree.find? place with
    | some .directory => tree.follow? (place.enter name) rest
    | _ => none

/-- The place that a path leads to, whether or not something stands there. -/
def place? (tree : FileTree) (path : FilePath) : Option Place :=
  let whole := path.within tree.home
  if whole.isUsable then tree.follow? [] whole.names else none

/-- What stands at the end of a path, if anything does. -/
def get? (tree : FileTree) (path : FilePath) : Option FileEntry :=
  (tree.place? path).bind tree.find?

/-- The text of a file. -/
def read? (tree : FileTree) (path : FilePath) : Option String :=
  match tree.get? path with
  | some (.file bytes) => String.fromUTF8? bytes
  | _ => none

/-- Follow names from a directory and make the directories that are missing, up
to the first that cannot be made: whether all are there, and the tree after it. -/
def makeEach (tree : FileTree) (place : Place) : List String → Bool × FileTree
  | [] => (true, tree)
  | name :: rest =>
    let next := place.enter name
    match tree.find? next with
    | some .directory => tree.makeEach next rest
    | some (.file _) => (false, tree)
    | none =>
      if name.utf8ByteSize ≤ nameLimit then (tree.put next .directory).makeEach next rest
      else (false, tree)

/-- Make all directories of a path, from the root down. -/
def makeDirs (tree : FileTree) (path : FilePath) : Bool × FileTree :=
  let whole := path.within tree.home
  if whole.isUsable then tree.makeEach [] whole.names else (false, tree)

/-- Write a file into a directory that is there, unless a directory has its name. -/
def write (tree : FileTree) (path : FilePath) (bytes : ByteArray) : Option FileTree :=
  match tree.place? path with
  | none => none
  | some place =>
    match tree.find? place with
    | some .directory => none
    | _ => if path.namesFile then some (tree.put place (.file bytes)) else none

/-- A tree with nothing in it but a directory to work in. -/
def startingAt (home : FilePath) : FileTree := ({ home } : FileTree).makeDirs home |>.2

end FileTree

/-- Why settings cannot be loaded or saved. -/
inductive StorageFault where
  /-- The tree does not allow it. -/
  | io
  /-- The file holds something else. -/
  | parse
deriving DecidableEq, Repr

namespace Settings

/-- The settings in a file; the default ones if there is no such file. -/
def load (tree : FileTree) (path : FilePath) : Except StorageFault Settings :=
  match tree.get? path with
  | none => .ok {}
  | some _ =>
    match tree.read? path with
    | none => .error .io
    | some text =>
      match Stored.settings.parse? text with
      | none => .error .parse
      | some settings => .ok settings

/-- Save settings to a file, making the directories on the way to it: the
outcome, and the tree as it was left. -/
def save (settings : Settings) (tree : FileTree) (path : FilePath) :
    Except StorageFault Unit × FileTree :=
  match tree.makeDirs path.parent with
  | (false, tree) => (.error .io, tree)
  | (true, tree) =>
    match tree.write path settings.render.toUTF8 with
    | none => (.error .io, tree)
    | some tree => (.ok (), tree)

end Settings

end FlowGraph
