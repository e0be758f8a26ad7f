import Docket.Config
import Docket.Vault

/-!
# Vaults on disk

A session is a vault whose files stand on a disk: the database file is held open, and the blob directory is
looked at anew for every operation, so that what others put there is seen. Closing writes the tables back. Staged files
belong to those who hold them, who may go on with them after the vault was closed and opened again.

* `Session.open?`: opens a layout and makes what is missing.
* `Session.run`: an operation on the vault.
* `Session.close`: the disk afterwards.
* `Session.reopen?`: closes a session and opens its layout again.
-/

namespace Docket

/-- A vault whose files stand on a disk. -/
structure Session where
  disk : Disk
  config : Config
  databasePlace : Place
  blobPlace : Place
  store : Store
  staging : Table Nat Bytes
  nextTicket : Nat
  poisoned : Bool
deriving Inhabited

/-- Why a layout could not be opened: its documents or its attachments failed. -/
inductive OpenError where
  | documents (e : StoreError)
  | attachments (e : StoreError)
deriving DecidableEq

/-- The failure of the store. -/
def OpenError.cause : OpenError → StoreError
  | .documents e => e
  | .attachments e => e

namespace Session

/-- The name of the directory of blobs among the extensions. -/
def extensionName : String := "attachments"

/-! ## Opening -/

/-- A change of the disk that may fail with a store error; what was done before a failure stays. -/
abbrev Attempt (α : Type) := Except StoreError α × Disk

/-- Makes a directory and those on the way to it. -/
def makeDirectories (d : Disk) (path : String) : Attempt Unit :=
  match d.makeDirectories path with
  | (.error reason, d) => (.error (.io reason), d)
  | (.ok (), d) => (.ok (), d)

/-- Takes hold of a database file. A missing or empty one becomes a new database. -/
def openDatabase (d : Disk) (path : String) : Attempt (Place × Store) :=
  match d.place path with
  | .error _ => (.error (.openFailed path), d)
  | .ok here =>
    if Path.EndsInSlash path then (.error (.openFailed path), d)
    else match Node.get? here d.root with
      | none => (.ok (here, .empty), d.hold here)
      | some (.file []) => (.ok (here, .empty), d.hold here)
      | some (.database store _) => (.ok (here, store), d.hold here)
      | some _ => (.error (.openFailed path), d)

/-- Makes the directories of a layout and takes hold of its database. -/
def openDocuments (d : Disk) (config : Config) : Attempt (Place × Store) :=
  match makeDirectories d config.root with
  | (.error e, d) => (.error e, d)
  | (.ok (), d) =>
    match makeDirectories d config.extensionsPath with
    | (.error e, d) => (.error e, d)
    | (.ok (), d) => openDatabase d config.databasePath

/-- Makes the directory of an extension. -/
def openExtension (d : Disk) (config : Config) (name : String) : Attempt Place :=
  match makeDirectories d (config.extensionPath name) with
  | (.error e, d) => (.error e, d)
  | (.ok (), d) =>
    match d.place (config.extensionPath name) with
    | .error reason => (.error (.io reason), d)
    | .ok here => (.ok here, d)

/-- Opens a layout that nobody holds staged files of. If that fails its database is let go. -/
def open? (d : Disk) (config : Config) : Except OpenError Session × Disk :=
  match openDocuments d config with
  | (.error e, d) => (.error (.documents e), d)
  | (.ok (databasePlace, store), d) =>
    match openExtension d config extensionName with
    | (.error e, d) => (.error (.attachments e), d.release databasePlace store)
    | (.ok blobPlace, disk) =>
      (.ok { disk, config, databasePlace, blobPlace, store, staging := ∅, nextTicket := 0, poisoned := false },
        disk)

/-- The disk after the end of a session. The tables are gone if the database file was removed meanwhile. -/
def close (s : Session) : Disk :=
  match Node.get? s.databasePlace s.disk.root with
  | some (.busy _) => s.disk.release s.databasePlace s.store
  | _ => s.disk

/-- Closes a session and opens its layout again. Whatever is staged stays staged, and goes on under its ticket. -/
def reopen? (s : Session) : Except OpenError Session × Disk :=
  match open? s.close s.config with
  | (.error e, d) => (.error e, d)
  | (.ok t, d) => (.ok { t with staging := s.staging, nextTicket := s.nextTicket }, d)

/-! ## Running -/

/-- Where the blob directory stands. -/
def blobDirectory (s : Session) : String := s.config.extensionPath extensionName

/-- The vault as it stands. -/
def vault (s : Session) : Vault where
  store := s.store
  blobs := {
    directory := s.blobDirectory
    entries := .ofList <| match Node.get? s.blobPlace s.disk.root with
      | some (.directory entries) => entries
      | _ => []
    staging := s.staging
    next := s.nextTicket }
  poisoned := s.poisoned

/-- The disk while the blob directory has these entries. -/
def diskWith (s : Session) (entries : Table String Node) : Disk :=
  s.disk.set s.blobPlace (.directory entries.entries)

/-- The session with a changed vault. -/
def resume (s : Session) (v : Vault) : Session :=
  { s with
    disk := s.diskWith v.blobs.entries
    store := v.store
    staging := v.blobs.staging
    nextTicket := v.blobs.next
    poisoned := v.poisoned }

/-- Files on the disk of a session. -/
def opener (s : Session) : FileOpener := fun entries path => (s.diskWith entries).openFile path

/-- An operation on the vault. -/
def run {α : Type} (s : Session) (f : FileOpener → Vault → α × Vault) : α × Session :=
  let (answer, v) := f s.opener s.vault
  (answer, s.resume v)

/-- The wording of a session when it is inspected. -/
def inspect (s : Session) : String := "Datastore \x7b root: " ++ Text.quoted s.config.root ++ " \x7d"

end Session

end Docket
