import Docket.Vault.Writing

/-!
# Documents with attachments

A vault is a store and its blob directory. An attachment is first taken into a staged file, then its row is
written, then the file gets its name; the rows count only when all of it has succeeded. So a failure leaves
the store as it was, and at most some content that no row refers to.

* `Vault.add`, `Vault.addAll`, `Vault.remove`: change of the attachments of a revision.
* `Vault.attachment`, `Vault.attachments`, `Vault.read`: the attachments of a revision.
* `Vault.collect`: removal of content that no row refers to.
-/

namespace Docket

/-- What a collection found and did. -/
structure CollectReport where
  scanned : Nat
  retained : Nat
  deleted : Nat
  failed : Nat
deriving DecidableEq

/-- A store with its blob directory. -/
structure Vault where
  store : Store
  blobs : Blobs
  /-- A writer failed while it held the store. -/
  poisoned : Bool
deriving Inhabited

namespace Vault

/-! ## Changes -/

/-- Does something in a write transaction. After a failure the transaction is dropped. The blob directory is not part of
it. -/
def transact {α : Type} (v : Vault) (work : Writing (α × Ending)) : Except AttachmentError α × Vault :=
  if v.poisoned then (.error .lockPoisoned, v)
  else
    let t := Transaction.start v.store
    match work.run.run (t.working, v.blobs) with
    | (.error e, working, blobs) => (.error e, { v with store := { t with working }.finish .drop, blobs })
    | (.ok (a, ending), working, blobs) => (.ok a, { v with store := { t with working }.finish ending, blobs })

/-- Adds an attachment to a revision, in place of one with the same name. -/
def add (opener : FileOpener) (v : Vault) (r : Revision) (a : Attachment) :
    Except AttachmentError SavedAttachment × Vault :=
  v.transact do
    let saved ← Writing.link opener r a
    return (saved, .commit)

/-- Follows a revision by one that has its attachments and these. -/
def addAll (opener : FileOpener) (v : Vault) (r : Revision) (attachments : List Attachment) :
    Except AttachmentError Revision × Vault :=
  v.transact do
    let next ← Writing.follow r
    Writing.linkAll opener next attachments
    return (next, .commit)

/-- Follows a revision by one that has its attachments except those with these names. If there are none with
these names the revision stays. -/
def remove (v : Vault) (r : Revision) (names : List String) : Except AttachmentError Revision × Vault :=
  v.transact do
    let count ← Writing.deleteRows r.sequence names
    if count = 0 then return (r, .abort)
    else return (← Writing.follow r, .commit)

/-! ## Reading -/

/-- A row with the place of its content. -/
def resolve (v : Vault) (row : AttachmentRow) : SavedAttachment := ⟨row, v.blobs.pathOf row.content⟩

/-- The attachment of a revision under a name. -/
def attachment (v : Vault) (r : Revision) (name : String) :
    Except AttachmentError (Option SavedAttachment) :=
  (AttachmentRow.rowAt v.store.attachments r.sequence name).map (·.map v.resolve)

/-- The attachments of a revision in the order of their names. -/
def attachments (v : Vault) (r : Revision) : Except AttachmentError (List SavedAttachment) :=
  (AttachmentRow.rowsAt v.store.attachments r.sequence).map (·.map v.resolve)

/-- The content of a saved attachment. -/
def read (v : Vault) (a : SavedAttachment) : Except AttachmentError Bytes := v.blobs.read a.row.content

/-! ## Collection -/

/-- The keys that rows refer to. -/
def referenced (v : Vault) : Except AttachmentError (List ContentKey) :=
  (AttachmentRow.readAll v.store.attachments.entries).map (·.map (·.content))

/-- What was listed is content under one of these keys. The name of a staged file is not a key. -/
def live (keys : List ContentKey) : Blobs.Listed → Bool
  | .entry name => (ContentKey.ofHex? name).any fun key => decide (key ∈ keys)
  | .staged _ => false

/-- Takes one thing that was listed into account, and removes it if it is not live. -/
def visit (keys : List ContentKey) (pass : CollectReport × Blobs) (listed : Blobs.Listed) :
    CollectReport × Blobs :=
  let (before, b) := pass
  let report := { before with scanned := before.scanned + 1 }
  if live keys listed then ({ report with retained := report.retained + 1 }, b)
  else
    match b.unlink listed with
    | .ok b => ({ report with deleted := report.deleted + 1 }, b)
    | .error _ => ({ report with failed := report.failed + 1 }, b)

/-- Goes through a listing of the directory. -/
def pass (keys : List ContentKey) (b : Blobs) (listing : List Blobs.Listed) : CollectReport × Blobs :=
  listing.foldl (visit keys) (⟨0, 0, 0, 0⟩, b)

/-- Removes content that no row refers to, and staged files. A file that cannot be removed does not end the
pass. -/
def collect (v : Vault) : Except AttachmentError CollectReport × Vault :=
  if v.poisoned then (.error .lockPoisoned, v)
  else
    match v.referenced with
    | .error e => (.error e, v)
    | .ok keys =>
      let (report, blobs) := pass keys v.blobs v.blobs.listing
      (.ok report, { v with blobs })

end Vault

end Docket
