import Docket.Attachment.Error
import Docket.Attachment.Intake

/-!
# The blob directory

One directory holds a file for every content, named by its key, and the files that content is being taken
into. The latter have names of their own that no key and no other file has; here each one is known by its
ticket. A staged file is either placed under the name of its content or discarded. The names of all other entries are
strings. One that is no text is outside of this model; a collection removes it like any other name that is no key.

* `Blobs.stage`: takes content into a new file.
* `Blobs.commit`, `Blobs.discard`: gives a staged file its name, or removes it.
* `Blobs.listing`, `Blobs.unlink`: everything in the directory, and removal of a file.
-/

namespace Docket

/-- The blob directory. -/
structure Blobs where
  /-- Where the directory stands. -/
  directory : String
  entries : Table String Node
  /-- The staged files by ticket. -/
  staging : Table Nat Bytes
  /-- The ticket of the next staged file. -/
  next : Nat
deriving Inhabited

/-- A staged file. -/
structure Staged where
  ticket : Nat
  key : ContentKey
  length : Nat
deriving DecidableEq

namespace Blobs

/-- A directory as it stands, with nothing staged. -/
def ofEntries (directory : String) (entries : List (String × Node)) : Blobs :=
  ⟨directory, .ofList entries, ∅, 0⟩

/-- Where the file of a key stands or will stand. -/
def pathOf (b : Blobs) (key : ContentKey) : String := Path.join b.directory key.hex

/-- Takes content into a new file. A file whose content failed to arrive is removed. -/
def stage (appetite : Intake.Appetite) (b : Blobs) (arrivals : List Arrival) :
    Except IoError Staged × Blobs :=
  match Intake.start.receive appetite arrivals with
  | .error reason => (.error reason, b)
  | .ok t =>
    (.ok ⟨b.next, t.key, t.count⟩,
      { b with staging := b.staging.insert b.next t.content, next := b.next + 1 })

/-- The staged file is there. -/
def Holds (b : Blobs) (s : Staged) : Prop := (b.staging.get? s.ticket).isSome

instance (b : Blobs) (s : Staged) : Decidable (b.Holds s) := by unfold Holds; infer_instance

/-- Removes a staged file. -/
def discard (b : Blobs) (s : Staged) : Blobs := { b with staging := b.staging.erase s.ticket }

/-- Gives a staged file the name of its key. If there is a file of that name the staged one is removed. In
any case the staged file is gone afterwards. -/
def commit (b : Blobs) (s : Staged) : Except IoError String × Blobs :=
  let after := b.discard s
  match b.staging.get? s.ticket with
  | none => (.error .notFound, after)
  | some content =>
    match b.entries.get? s.key.hex with
    | none => (.ok (b.pathOf s.key), { after with entries := b.entries.insert s.key.hex (.file content) })
    | some (.directory _) => (.error .isADirectory, after)
    | some _ => (.ok (b.pathOf s.key), after)

/-- The content under a key. -/
def read (b : Blobs) (key : ContentKey) : Except AttachmentError Bytes :=
  match b.entries.get? key.hex with
  | none => .error (.blobUnavailable key (b.pathOf key))
  | some node =>
    match node.content? with
    | some content => .ok content
    | none => .error (.io .isADirectory)

/-! ## Listing -/

/-- What a listing of the directory gives: an entry by its name, or a staged file. -/
inductive Listed where
  | entry (name : String)
  | staged (ticket : Nat)
deriving DecidableEq

/-- Everything in the directory. -/
def listing (b : Blobs) : List Listed := b.entries.keys.map .entry ++ b.staging.keys.map .staged

/-- What stands in the directory where something was listed. -/
def found? (b : Blobs) : Listed → Option Node
  | .entry name => b.entries.get? name
  | .staged ticket => (b.staging.get? ticket).map .file

/-- The directory without something that was listed. -/
def without (b : Blobs) : Listed → Blobs
  | .entry name => { b with entries := b.entries.erase name }
  | .staged ticket => { b with staging := b.staging.erase ticket }

/-- Removes a file. -/
def unlink (b : Blobs) (listed : Listed) : Except IoError Blobs :=
  match b.found? listed with
  | none => .error .notFound
  | some node => if node.IsDirectory then .error .isADirectory else .ok (b.without listed)

end Blobs

end Docket
