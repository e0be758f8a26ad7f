import Docket.Vault

/-!
# Runs of operations

A desk is a vault with the staged files that somebody still holds. An operation is one call: a write of a
document, a write transaction with its ending, a change of attachments, a file being staged, placed or
discarded, or a collection. Each of them may fail, and a failed one is a step like any other.

* `Operation.perform`: one call, with the revisions that it committed.
* `Desk.run`, `Desk.committed`: calls in order, and what they committed.
-/

namespace Docket

/-- One call. -/
inductive Operation where
  | create (document : String) (body : Json)
  | update (document : String) (parent : RevisionId) (body : Json)
  | transact (requests : List Transaction.Request) (ending : Ending)
  | add (r : Revision) (a : Attachment)
  | addAll (r : Revision) (attachments : List Attachment)
  | remove (r : Revision) (names : List String)
  /-- Content taken into a staged file that is then held. -/
  | stage (appetite : Intake.Appetite) (arrivals : List Arrival)
  /-- A held file given its name. -/
  | place (ticket : Nat)
  /-- A held file let go. -/
  | discard (ticket : Nat)
  | collect

/-- A vault with the staged files that are held. -/
structure Desk where
  vault : Vault
  held : List Staged
deriving Inhabited

namespace Desk

/-- The desk with another store. -/
def withStore (d : Desk) (store : Store) : Desk := { d with vault := { d.vault with store } }

/-- The desk with another blob directory. -/
def withBlobs (d : Desk) (blobs : Blobs) : Desk := { d with vault := { d.vault with blobs } }

/-- The held file of a ticket. -/
def find? (d : Desk) (ticket : Nat) : Option Staged := d.held.find? (·.ticket = ticket)

/-- The desk without a held file. -/
def release (d : Desk) (s : Staged) : Desk := { d with held := d.held.filter (· ≠ s) }

/-- A write of one revision, committed if it succeeded. -/
def written (d : Desk) : Except StoreError (Revision × Store) → List Revision × Desk
  | .ok (r, store) => ([r], d.withStore store)
  | .error _ => ([], d)

/-- A change of attachments that commits a revision if it succeeded. -/
def followed (d : Desk) : Except AttachmentError Revision × Vault → List Revision × Desk
  | (.ok r, vault) => ([r], { d with vault })
  | (.error _, vault) => ([], { d with vault })

end Desk

namespace Operation

/-- One call, while files are opened in this way. -/
def perform (opener : FileOpener) (d : Desk) : Operation → List Revision × Desk
  | .create document body => d.written (d.vault.store.create document body)
  | .update document parent body => d.written (d.vault.store.advance document parent body)
  | .transact requests ending =>
    let (results, t) := (Transaction.start d.vault.store).run requests
    match ending with
    | .commit => (results.filterMap Except.toOption, d.withStore t.commit)
    | .abort => ([], d.withStore t.abort)
    | .drop => ([], d.withStore t.abort)
  | .add r a => ([], { d with vault := (d.vault.add opener r a).2 })
  | .addAll r attachments => d.followed (d.vault.addAll opener r attachments)
  | .remove r names =>
    -- without a row to drop the revision is answered that was given, and nothing is written
    if (AttachmentRow.drop d.vault.store.attachments r.sequence names).2 = 0 then ([], d)
    else d.followed (d.vault.remove r names)
  | .stage appetite arrivals =>
    match d.vault.blobs.stage appetite arrivals with
    | (.ok s, blobs) => ([], { d.withBlobs blobs with held := s :: d.held })
    | (.error _, blobs) => ([], d.withBlobs blobs)
  | .place ticket =>
    match d.find? ticket with
    | some s => ([], (d.release s).withBlobs (d.vault.blobs.commit s).2)
    | none => ([], d)
  | .discard ticket =>
    match d.find? ticket with
    | some s => ([], (d.release s).withBlobs (d.vault.blobs.discard s))
    | none => ([], d)
  | .collect => ([], { d with vault := d.vault.collect.2 })

end Operation

namespace Desk

/-- Calls in order, each with the way in which files are opened meanwhile. -/
def run (d : Desk) : List (FileOpener × Operation) → Desk
  | [] => d
  | (opener, op) :: rest => (op.perform opener d).2.run rest

/-- The revisions that calls commit, in order. -/
def committed (d : Desk) : List (FileOpener × Operation) → List Revision
  | [] => []
  | (opener, op) :: rest => (op.perform opener d).1 ++ (op.perform opener d).2.committed rest

theorem run_append (d : Desk) (earlier later : List (FileOpener × Operation)) :
    d.run (earlier ++ later) = (d.run earlier).run later := by
  induction earlier generalizing d with
  | nil => rfl
  | cons call rest ih => exact ih _

theorem committed_append (d : Desk) (earlier later : List (FileOpener × Operation)) :
    d.committed (earlier ++ later) = d.committed earlier ++ (d.run earlier).committed later := by
  induction earlier generalizing d with
  | nil => rfl
  | cons call rest ih =>
    obtain ⟨opener, op⟩ := call
    rw [List.cons_append, committed, committed, run, ih, List.append_assoc]

end Desk

end Docket
