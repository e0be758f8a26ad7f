import Docket.Attachment.Blobs
import Docket.Attachment.Row

/-!
# What is attached

* `Source`, `Attachment`: what is to be saved, and where its content comes from.
* `Source.arrivals`: what comes out of a source.
* `SavedAttachment`, `Vault.rowOf`: what was saved, and the row of it.
-/

namespace Docket

/-- Where the content of an attachment comes from. -/
inductive Source where
  | bytes (content : Bytes)
  | file (path : String)
  | reader (arrivals : List Arrival)
deriving DecidableEq

/-- A source in messages. -/
def Source.display : Source → String
  | .bytes content => "Bytes(" ++ toString content.length ++ " bytes)"
  | .file path => "File(" ++ path ++ ")"
  | .reader _ => "Reader"

/-- An attachment to be saved. -/
structure Attachment where
  name : String
  mediaType : String
  source : Source
deriving DecidableEq

/-- What comes out of the file at a path, while the blob directory has these entries. -/
abbrev FileOpener := Table String Node → String → Except IoError (List Arrival)

/-- What comes out of a source. -/
def Source.arrivals (opener : FileOpener) (b : Blobs) : Source → Except IoError (List Arrival)
  | .bytes content => .ok [.piece content]
  | .file path => opener b.entries path
  | .reader arrivals => .ok arrivals

/-- A saved attachment: its row, and where its content stands. -/
structure SavedAttachment where
  row : AttachmentRow
  path : String
deriving DecidableEq

namespace Vault

/-- The row of a staged file on a revision. -/
def rowOf (r : Revision) (a : Attachment) (s : Staged) : AttachmentRow where
  sequence := r.sequence
  filename := a.name
  content := s.key
  mediaType := a.mediaType
  encoding := .plain
  length := UInt64.ofNat s.length
  encodedLength := UInt64.ofNat s.length
  revpos := r.id.generation

end Vault

end Docket
