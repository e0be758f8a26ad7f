import Docket.Path
import Docket.Store

/-!
# Trees of files

A node is a file, a database or a directory; the names in a directory are in ascending order. A disk is a
tree with a working directory, and a path is followed segment by segment, so that every directory on the way
has to be there. A database is a file as well: it can be read, but the tables do not say what its bytes are, so it has
both, and how the bytes follow the tables is outside of this model. So are names that are no text, links and other special
files; names are strings.

* `Node.get?`, `Node.set`, `Node.remove`: the node at a place.
* `Node.content?`: what is read of a node.
* `Disk.locate`, `Disk.place`: the place of a path that exists, and of one that may be made.
* `Disk.openFile`, `Disk.read`, `Disk.write`, `Disk.unlink`: files.
* `Disk.hold`, `Disk.release`: a database file that is opened, and one that is closed.
* `Disk.makeDirectories`: directories.
-/

namespace Docket

/-- What stands at a place of a tree. -/
inductive Node where
  | file (content : Bytes)
  /-- A database file that is not open, with its tables and its bytes. -/
  | database (store : Store) (image : Bytes := [])
  /-- A database file that is open, with its bytes as they are. -/
  | busy (image : Bytes := [])
  | directory (entries : List (String × Node))
deriving Inhabited

/-- A place of a tree: names from the top down. -/
abbrev Place := List String

namespace Node

/-- A directory without entries. -/
def emptyDirectory : Node := .directory []

/-- A node is a directory. -/
def IsDirectory : Node → Prop
  | .directory _ => True
  | _ => False

instance (n : Node) : Decidable n.IsDirectory := by cases n <;> unfold IsDirectory <;> infer_instance

/-- What is read of a node. A directory cannot be read. -/
def content? : Node → Option Bytes
  | .file content => some content
  | .database _ image => some image
  | .busy image => some image
  | .directory _ => none

/-- The node at a place. -/
def get? : Place → Node → Option Node
  | [], node => some node
  | name :: rest, .directory entries => (Table.find? name entries).bind (get? rest)
  | _ :: _, _ => none

/-- The tree with a node at a place. Directories on the way are made. -/
def set (node : Node) : Place → Node → Node
  | [], _ => node
  | name :: rest, .directory entries =>
    .directory (Table.place name (set node rest ((Table.find? name entries).getD .emptyDirectory)) entries)
  | _ :: _, other => other

/-- The tree without the node at a place. -/
def remove : Place → Node → Node
  | [], node => node
  | [name], .directory entries => .directory (Table.without name entries)
  | name :: rest, .directory entries =>
    match Table.find? name entries with
    | some node => .directory (Table.place name (remove rest node) entries)
    | none => .directory entries
  | _ :: _, other => other

end Node

/-- What comes out of an open file: pieces of its content, or failures. An empty piece is the end of the
content; after an interruption the next attempt goes on where the last one stopped. -/
inductive Arrival where
  | piece (bytes : Bytes)
  | interrupted
  | failed (reason : IoError)
deriving DecidableEq

/-- A tree with a working directory. -/
structure Disk where
  root : Node
  directory : Place
deriving Inhabited

namespace Disk

/-- A disk that holds an empty working directory and nothing else. -/
def blank : Disk := ⟨.directory [("work", .emptyDirectory)], ["work"]⟩

/-! ## Following paths -/

/-- One segment, from a place that has to be a directory. -/
def step (d : Disk) (here : Place) (segment : String) : Except IoError Place :=
  match Node.get? here d.root with
  | none => .error .notFound
  | some node =>
    if ¬ node.IsDirectory then .error .notADirectory
    else if segment = "." then .ok here
    else if segment = ".." then .ok here.dropLast
    else .ok (here ++ [segment])

/-- Segments in order. -/
def follow (d : Disk) (here : Place) (segments : List String) : Except IoError Place :=
  segments.foldlM d.step here

/-- Where a path starts. -/
def origin (d : Disk) (path : String) : Place := if Path.IsAbsolute path then [] else d.directory

/-- The place that a path names. All of it except the last name has to be there. -/
def place (d : Disk) (path : String) : Except IoError Place :=
  if path = "" then .error .notFound else d.follow (d.origin path) (Path.segments path)

/-- The place and the node of a path. -/
def locate (d : Disk) (path : String) : Except IoError (Place × Node) := do
  let here ← d.place path
  match Node.get? here d.root with
  | none => .error .notFound
  | some node =>
    if Path.EndsInSlash path ∧ ¬ node.IsDirectory then .error .notADirectory else .ok (here, node)

/-- The path names a directory. -/
def hasDirectory (d : Disk) (path : String) : Bool :=
  match d.locate path with
  | .ok (_, node) => node.IsDirectory
  | .error _ => false

/-! ## Files -/

/-- What comes out of a file. A directory can be opened and fails when it is read. -/
def openFile (d : Disk) (path : String) : Except IoError (List Arrival) := do
  match (← d.locate path).2.content? with
  | some content => .ok [.piece content]
  | none => .ok [.failed .isADirectory]

/-- The content of a file. -/
def read (d : Disk) (path : String) : Except IoError Bytes := do
  match (← d.locate path).2.content? with
  | some content => .ok content
  | none => .error .isADirectory

/-- Puts a node at a place. -/
def set (d : Disk) (here : Place) (node : Node) : Disk := { d with root := Node.set node here d.root }

/-- Writes a file in a directory that is there. -/
def write (d : Disk) (path : String) (content : Bytes) : Except IoError Disk := do
  let here ← d.place path
  match Node.get? here d.root with
  | some (.directory _) => .error .isADirectory
  | _ => if Path.EndsInSlash path then .error .isADirectory else .ok (d.set here (.file content))

/-- Removes a file. -/
def unlink (d : Disk) (path : String) : Except IoError Disk := do
  let (here, node) ← d.locate path
  if node.IsDirectory then .error .isADirectory else .ok { d with root := Node.remove here d.root }

/-! ## Databases -/

/-- The bytes of the file at a place. There are none before it is made. -/
def imageAt (d : Disk) (here : Place) : Bytes := ((Node.get? here d.root).bind Node.content?).getD []

/-- Opens the database file at a place. -/
def hold (d : Disk) (here : Place) : Disk := d.set here (.busy (d.imageAt here))

/-- Closes the database file at a place. -/
def release (d : Disk) (here : Place) (store : Store) : Disk := d.set here (.database store (d.imageAt here))

/-! ## Directories -/

/-- Makes a directory at the end of segments. -/
def makeAt (d : Disk) (start : Place) (segments : List String) : Except IoError Disk := do
  let here ← d.follow start segments
  match Node.get? here d.root with
  | some _ => .error .alreadyExists
  | none => .ok (d.set here .emptyDirectory)

/-- There is a directory at the end of segments. -/
def hasDirectoryAt (d : Disk) (start : Place) (segments : List String) : Bool :=
  match d.follow start segments with
  | .ok here => ((Node.get? here d.root).map fun node => decide node.IsDirectory).getD false
  | .error _ => false

/-- A change of the disk that may fail; what was done before a failure stays. -/
abbrev Change := Except IoError Unit × Disk

/-- Makes the directory at the end of the first segments. Those after it are the ways to get there, the
longest first, and are made if the directory above is missing. -/
def makeAllAt (d : Disk) (start : Place) : List (List String) → Change
  | [] => (.ok (), d)
  | segments :: above =>
    let present (d : Disk) (reason : IoError) : Change :=
      (if reason = .alreadyExists ∧ d.hasDirectoryAt start segments then .ok () else .error reason, d)
    match d.makeAt start segments with
    | .ok d => (.ok (), d)
    | .error .notFound =>
      match d.makeAllAt start above with
      | (.error reason, d) => (.error reason, d)
      | (.ok (), d) =>
        match d.makeAt start segments with
        | .ok d => (.ok (), d)
        | .error reason => present d reason
    | .error reason => present d reason

/-- Makes a directory and those on the way to it. -/
def makeDirectories (d : Disk) (path : String) : Change :=
  d.makeAllAt (d.origin path) (Path.segments path :: (Path.ways (Path.names path).dropLast).reverse)

/-- Writes a file and makes the directories on the way to it. -/
def writeWithParents (d : Disk) (path : String) (content : Bytes) : Change :=
  match d.makeAllAt (d.origin path) (Path.ways (Path.names path).dropLast).reverse with
  | (.error reason, d) => (.error reason, d)
  | (.ok (), d) =>
    match d.write path content with
    | .error reason => (.error reason, d)
    | .ok d => (.ok (), d)

end Disk

end Docket
