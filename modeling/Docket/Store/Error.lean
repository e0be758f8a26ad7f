import Docket.Revision.Id

/-!
# Failures of files and of the store

* `IoError`: why an operation on files failed.
* `StoreError`: why an operation on documents failed.
* `StoreError.message`: its wording.
* `StoreError.IsConflict`: the document has moved on from the revision that was to be followed.
-/

namespace Docket

/-- Why an operation on files failed. -/
inductive IoError where
  | notFound
  | alreadyExists
  | isADirectory
  | notADirectory
  | other
deriving DecidableEq, Repr

/-- The name of a reason. -/
def IoError.name : IoError → String
  | .notFound => "NotFound"
  | .alreadyExists => "AlreadyExists"
  | .isADirectory => "IsADirectory"
  | .notADirectory => "NotADirectory"
  | .other => "Other"

/-- Why an operation on documents failed. -/
inductive StoreError where
  | io (reason : IoError)
  | openFailed (path : String)
  /-- A document points at a revision that is not stored. -/
  | missingRevision (sequence : UInt64)
  /-- A stored row cannot be read. -/
  | serialization
  | conflict (document : String) (parent current : RevisionId)
  | documentNotFound (document : String)
  | documentExists (document : String)
  | invalidRevision (text : String)
  | configUnreadable (path : String)
  | configMalformed (path : String)
deriving DecidableEq

namespace StoreError

/-- The wording of a failure. -/
def message : StoreError → String
  | .io reason => "I/O error: " ++ reason.name
  | .openFailed path => "database error: failed to open redb at " ++ path
  | .missingRevision sequence => "database error: missing revision row " ++ toString sequence.toNat
  | .serialization => "serialization error"
  | .conflict document parent current =>
    "conflict on document " ++ document ++ ": parent " ++ parent.text ++ " is not current revision " ++
      current.text
  | .documentNotFound document => "document not found: " ++ document
  | .documentExists document => "document already exists: " ++ document
  | .invalidRevision text => "invalid revision id: " ++ text
  | .configUnreadable path => "invalid configuration: read " ++ path
  | .configMalformed path => "invalid configuration: parse " ++ path

/-- The document has moved on from the revision that was to be followed. -/
def IsConflict : StoreError → Prop
  | .conflict .. => True
  | _ => False

instance (e : StoreError) : Decidable e.IsConflict := by cases e <;> unfold IsConflict <;> infer_instance

end StoreError

end Docket
