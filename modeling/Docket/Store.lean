import Docket.Store.Error
import Docket.Revision
import Docket.Table

/-!
# The document store

The store is four tables: the place of each document's current revision, the rows of all revisions by place,
counters, and the rows of attachments. Places are handed out in ascending order, and the place of a
committed revision is never handed out again. An operation that fails leaves no trace, because it answers no new store.

* `Store.create`, `Store.advance`: a document's first revision, and one that follows its current one.
* `Store.get`, `Store.revision`: the current revision of a document, and the revision at a place.
-/

namespace Docket

/-- The four tables. -/
structure Store where
  /-- The place of each document's current revision. -/
  documents : Table String UInt64
  /-- The rows of revisions by place. -/
  revisions : Table UInt64 String
  counters : Table String UInt64
  /-- The rows of attachments. -/
  attachments : Table Bytes String
deriving Inhabited

namespace Store

/-- A store without rows. -/
def empty : Store := ⟨∅, ∅, ∅, ∅⟩

/-- The name of the counter of places. -/
def lastSequence : String := "last_sequence"

/-- The place that was handed out last; zero before the first one. -/
def last (s : Store) : UInt64 := (s.counters.get? lastSequence).getD 0

/-- The store with another table of attachments. -/
def withAttachments (s : Store) (attachments : Table Bytes String) : Store := { s with attachments }

/-! ## Reading -/

/-- The revision at a place. -/
def revision (s : Store) (sequence : UInt64) : Except StoreError (Option Revision) :=
  match s.revisions.get? sequence with
  | none => .ok none
  | some row =>
    match Revision.ofText? row with
    | none => .error .serialization
    | some r => .ok (some r)

/-- The current revision of a document. -/
def get (s : Store) (document : String) : Except StoreError (Option Revision) :=
  match s.documents.get? document with
  | none => .ok none
  | some sequence => s.revision sequence

/-- The current revision of a document that has to have one. -/
def current (s : Store) (document : String) : Except StoreError Revision :=
  match s.documents.get? document with
  | none => .error (.documentNotFound document)
  | some sequence =>
    match s.revision sequence with
    | .error e => .error e
    | .ok none => .error (.missingRevision sequence)
    | .ok (some r) => .ok r

/-! ## Writing -/

/-- The revision with the next place. -/
def next (s : Store) (document : String) (parent : Option RevisionId) (body : Json) : Revision where
  document
  id := .derive parent body
  parent
  sequence := s.last + 1
  body

/-- Makes a revision the current one of its document and its place the last one handed out. -/
def append (s : Store) (r : Revision) : Store :=
  { s with
    documents := s.documents.insert r.document r.sequence
    revisions := s.revisions.insert r.sequence r.text
    counters := s.counters.insert lastSequence r.sequence }

/-- A document's first revision. -/
def create (s : Store) (document : String) (body : Json) : Except StoreError (Revision × Store) :=
  match s.documents.get? document with
  | some _ => .error (.documentExists document)
  | none =>
    let r := s.next document none body
    .ok (r, s.append r)

/-- A revision that follows the current one, which has to be `parent`. -/
def advance (s : Store) (document : String) (parent : RevisionId) (body : Json) :
    Except StoreError (Revision × Store) :=
  match s.current document with
  | .error e => .error e
  | .ok r =>
    if r.id = parent then
      let r := s.next document (some parent) body
      .ok (r, s.append r)
    else .error (.conflict document parent r.id)

end Store

end Docket
