import Docket.FileTree
import Docket.Json.Record

/-!
# Layout of a store on disk

A configuration names the root directory, the database file and the directory of extensions, the last two
seen from the root.

* `Config.ofText?`: reads a configuration; fields that are missing have their defaults.
* `Config.load`: reads a configuration file.
* `Config.databasePath`, `Config.extensionsPath`: where things stand.
-/

namespace Docket

/-- Where a store keeps its files. -/
structure Config where
  root : String
  databaseFile : String
  extensionsDirectory : String
deriving DecidableEq, Inhabited

namespace Config

/-- The layout when nothing is said. -/
def standard : Config := ⟨"docsync-data", "docsync.redb", "extensions"⟩

/-- The standard layout under a root directory. -/
def under (root : String) : Config := { standard with root }

/-- The names of the fields. -/
def fields : List String := ["root", "database_file", "extensions_dir"]

/-- A configuration as JSON. -/
def toJson (c : Config) : Json :=
  .obj [("root", .str c.root), ("database_file", .str c.databaseFile),
    ("extensions_dir", .str c.extensionsDirectory)]

/-- A field that may be missing. -/
def field? (default : String) : Option Json.Literal → Option String
  | none => some default
  | some v => v.string?

/-- Reads a configuration. -/
def ofLiteral? (v : Json.Literal) : Option Config := do
  match ← v.fields? fields 0 with
  | [root, databaseFile, extensionsDirectory] =>
    let root ← field? standard.root root
    let databaseFile ← field? standard.databaseFile databaseFile
    let extensionsDirectory ← field? standard.extensionsDirectory extensionsDirectory
    return { root, databaseFile, extensionsDirectory }
  | _ => none

/-- Reads the text of a configuration. -/
def ofText? (s : String) : Option Config := (Json.Literal.parse? s.toList).bind ofLiteral?

/-- Reads a configuration file. -/
def load (d : Disk) (path : String) : Except StoreError Config :=
  match d.read path with
  | .error _ => .error (.configUnreadable path)
  | .ok content =>
    match Text.ofBytes? content with
    | none => .error (.configUnreadable path)
    | some text =>
      match ofText? text with
      | none => .error (.configMalformed path)
      | some config => .ok config

/-- The database file. -/
def databasePath (c : Config) : String := Path.join c.root c.databaseFile

/-- The directory of extensions. -/
def extensionsPath (c : Config) : String := Path.join c.root c.extensionsDirectory

/-- The directory of one extension. -/
def extensionPath (c : Config) (name : String) : String := Path.join c.extensionsPath name

end Config

end Docket
