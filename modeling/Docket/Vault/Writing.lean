import Docket.Attachment.Source
import Docket.Store.Transaction

/-!
# Changing attachments in a transaction

A change of attachments works on the tables of a write transaction and on the blob directory. What it has written to the
tables is dropped with the transaction if it fails. What it has done to the directory is not taken back.

* `Writing`: what a change reads and writes, step by step.
* `Writing.deleteRow`, `Writing.insertRow`, `Writing.carryForward`: the table of attachments.
* `Writing.link`, `Writing.linkAll`, `Writing.follow`: attachments, and the revision that they are linked to.
-/

namespace Docket

/-- Reading and writing of the tables of a transaction, with the blob directory beside them. What was done before a failure
stays done. -/
abbrev Writing (α : Type) := ExceptT AttachmentError (StateM (Store × Blobs)) α

namespace Writing

/-- Something done to the tables of documents. -/
def documents {α : Type} (x : Transaction.Action α) : Writing α := fun (s, b) =>
  match x.run.run s with
  | (.error e, s) => (.error (.store e), s, b)
  | (.ok a, s) => (.ok a, s, b)

/-- Something done to the blob directory. -/
def files {α : Type} (f : Blobs → Except IoError α × Blobs) : Writing α := fun (s, b) =>
  match f b with
  | (.error reason, b) => (.error (.io reason), s, b)
  | (.ok a, b) => (.ok a, s, b)

/-- The table of attachments. -/
def table : Writing AttachmentTable := do
  return (← get).1.attachments

/-- Something done to the table of attachments. -/
def modifyTable (f : AttachmentTable → AttachmentTable) : Writing Unit :=
  modify fun (s, b) => (s.withAttachments (f s.attachments), b)

/-! ## Rows -/

/-- Deletes the row of a revision under a name, and tells whether there was one. -/
def deleteRow (sequence : UInt64) (name : String) : Writing Bool := do
  let existed := ((← table).get? (AttachmentRow.key sequence name)).isSome
  modifyTable (·.erase (AttachmentRow.key sequence name))
  return existed

/-- Deletes the rows of a revision under names, and counts those that were there. -/
def deleteRows (sequence : UInt64) : List String → Writing Nat
  | [] => return 0
  | name :: rest => do
    let existed ← deleteRow sequence name
    let count ← deleteRows sequence rest
    return if existed then count + 1 else count

/-- Writes a row that breaks no rule. -/
def insertRow (row : AttachmentRow) : Writing Unit :=
  match row.fault? with
  | some fault => throw (.invalidRow fault)
  | none => modifyTable (AttachmentRow.put · row)

/-- Writes rows as those of another revision, as they are. -/
def copyRows (target : UInt64) : List AttachmentRow → Writing Unit
  | [] => return
  | row :: rest => do
    modifyTable (AttachmentRow.put · { row with sequence := target })
    copyRows target rest

/-- Gives the rows of one revision to another one. -/
def carryForward (source target : UInt64) : Writing Unit := do
  let rows ← liftExcept (AttachmentRow.rowsAt (← table) source)
  copyRows target rows

/-! ## Attachments -/

/-- Writes the row of a staged file, in place of one that is there, and gives the file its name. If the row breaks a rule
the staged file is let go. -/
def settle (row : AttachmentRow) (s : Staged) : Writing SavedAttachment := do
  let _ ← deleteRow row.sequence row.filename
  tryCatch (insertRow row) fun e => do
    files fun b => (.ok (), b.discard s)
    throw e
  let path ← files (·.commit s)
  return ⟨row, path⟩

/-- Links an attachment to a revision. -/
def link (opener : FileOpener) (r : Revision) (a : Attachment) : Writing SavedAttachment := do
  let arrivals ← files fun b => (a.source.arrivals opener b, b)
  let s ← files (·.stage .full arrivals)
  settle (Vault.rowOf r a s) s

/-- Links attachments in order. -/
def linkAll (opener : FileOpener) (r : Revision) : List Attachment → Writing Unit
  | [] => return
  | a :: rest => do
    let _ ← link opener r a
    linkAll opener r rest

/-- Follows a revision by one with the same body that has its rows. -/
def follow (r : Revision) : Writing Revision := do
  let next ← documents (Transaction.Action.advance ⟨r.document, r.id, r.body⟩)
  carryForward r.sequence next.sequence
  return next

end Writing

end Docket
