import Docket.ContentKey
import Docket.Store.Error
import Docket.Text.Quoted

/-!
# Failures of attachments

* `RowFault`: the rule that a row breaks.
* `AttachmentError`: why an operation on attachments failed.
* `AttachmentError.message`: its wording.
-/

namespace Docket

/-- The rule that a row breaks. -/
inductive RowFault where
  | emptyFilename (sequence : UInt64)
  | emptyType (filename : String) (sequence : UInt64)
deriving DecidableEq

/-- The wording of a broken rule. -/
def RowFault.message : RowFault → String
  | .emptyFilename sequence => "empty filename at sequence " ++ toString sequence.toNat
  | .emptyType filename sequence =>
    "empty type for " ++ Text.quoted filename ++ " at sequence " ++ toString sequence.toNat

/-- Why an operation on attachments failed. -/
inductive AttachmentError where
  | io (reason : IoError)
  /-- A stored row cannot be read. -/
  | serialization
  | store (e : StoreError)
  | invalidRow (fault : RowFault)
  | invalidKey (text : String)
  /-- The row is there and the file is not. -/
  | blobUnavailable (key : ContentKey) (path : String)
  /-- A writer failed while it held the store. -/
  | lockPoisoned
deriving DecidableEq

namespace AttachmentError

/-- The wording of a failure. -/
def message : AttachmentError → String
  | .io reason => "I/O error: " ++ reason.name
  | .serialization => "serialization error"
  | .store e => e.message
  | .invalidRow fault => "invalid attachment row: " ++ fault.message
  | .invalidKey text => "invalid content key: " ++ Text.quoted text
  | .blobUnavailable key path => "blob " ++ key.hex ++ " is not available at " ++ path
  | .lockPoisoned => "attachment writer lock poisoned"

/-- The document has moved on from the revision that was to be followed. -/
def IsConflict : AttachmentError → Prop
  | .store e => e.IsConflict
  | _ => False

instance (e : AttachmentError) : Decidable e.IsConflict := by
  cases e <;> unfold IsConflict <;> infer_instance

end AttachmentError

end Docket
