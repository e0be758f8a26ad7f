import Docket.Attachment.Encoding
import Docket.Attachment.Error
import Docket.Json.Printer
import Docket.Json.Record
import Docket.Table
import Docket.Bytes

/-!
# Rows of attachments

A row says what a revision has under a name: which content, of which type and length, and the generation at
which it came in. Rows are kept by the place of their revision and their name, so the rows of one revision
stand together in the order of their names.

* `AttachmentRow.text`, `AttachmentRow.ofText?`: the stored form.
* `AttachmentRow.key`: the key of a row in the table.
* `AttachmentRow.rowsAt`: the rows of a revision.
* `AttachmentRow.carry`: the rows of one revision given to another one.
-/

namespace Docket

/-- What a revision has under a name. -/
structure AttachmentRow where
  sequence : UInt64
  filename : String
  content : ContentKey
  mediaType : String
  encoding : Encoding
  length : UInt64
  encodedLength : UInt64
  /-- The generation at which the attachment came in. -/
  revpos : UInt64
deriving DecidableEq

/-- The table of rows by key. -/
abbrev AttachmentTable := Table Bytes String

namespace AttachmentRow

/-! ## The stored form -/

/-- The names of the stored fields. -/
def fields : List String :=
  ["sequence", "filename", "key", "type", "encoding", "length", "encoded_length", "revpos"]

/-- The number of an encoding as JSON. -/
def encodingJson (e : Encoding) : Json := .ofUInt64 (UInt64.ofNat e.ordinal)

/-- The stored record. -/
def toJson (row : AttachmentRow) : Json :=
  .obj [("sequence", .ofUInt64 row.sequence), ("filename", .str row.filename),
    ("key", .str row.content.hex), ("type", .str row.mediaType), ("encoding", encodingJson row.encoding),
    ("length", .ofUInt64 row.length), ("encoded_length", .ofUInt64 row.encodedLength),
    ("revpos", .ofUInt64 row.revpos)]

/-- The stored form. -/
def text (row : AttachmentRow) : String := row.toJson.text

/-- An encoding in a stored record. -/
def encoding? (v : Json.Literal) : Option Encoding := v.natural?.bind fun n => Encoding.ofOrdinal? n.toNat

/-- A content key in a stored record. -/
def content? (v : Json.Literal) : Option ContentKey := v.string?.bind ContentKey.ofHex?

/-- Reads a stored record. -/
def ofLiteral? (v : Json.Literal) : Option AttachmentRow := do
  match ← v.fields? fields 8 with
  | [some sequence, some filename, some content, some mediaType, some encoding, some length,
      some encodedLength, some revpos] =>
    let sequence ← sequence.natural?
    let filename ← filename.string?
    let content ← content? content
    let mediaType ← mediaType.string?
    let encoding ← encoding? encoding
    let length ← length.natural?
    let encodedLength ← encodedLength.natural?
    let revpos ← revpos.natural?
    return { sequence, filename, content, mediaType, encoding, length, encodedLength, revpos }
  | _ => none

/-- Reads the stored form. -/
def ofText? (s : String) : Option AttachmentRow := (Json.Literal.parse? s.toList).bind ofLiteral?

/-! ## The table -/

/-- The start of the keys of a revision's rows. -/
def stem (sequence : UInt64) : Bytes := Bytes.bigEndian sequence.toNat

/-- The key of the row of a revision under a name. -/
def key (sequence : UInt64) (filename : String) : Bytes := stem sequence ++ Text.bytes filename

/-- The rule that a row breaks. -/
def fault? (row : AttachmentRow) : Option RowFault :=
  if row.filename = "" then some (.emptyFilename row.sequence)
  else if row.mediaType = "" then some (.emptyType row.filename row.sequence)
  else none

/-- The table with a row. -/
def put (table : AttachmentTable) (row : AttachmentRow) : AttachmentTable :=
  table.insert (key row.sequence row.filename) row.text

/-- Reads rows in order. -/
def readAll : List (Bytes × String) → Except AttachmentError (List AttachmentRow)
  | [] => .ok []
  | (_, text) :: rest =>
    match ofText? text with
    | none => .error .serialization
    | some row => (readAll rest).map (row :: ·)

/-- The entries of a revision: from the first key that is not before its stem, as long as keys start with
the stem. -/
def entriesAt (table : AttachmentTable) (sequence : UInt64) : List (Bytes × String) :=
  (table.entries.dropWhile fun e => compare e.1 (stem sequence) == .lt).takeWhile fun e =>
    (stem sequence).isPrefixOf e.1

/-- The rows of a revision in the order of their names. -/
def rowsAt (table : AttachmentTable) (sequence : UInt64) : Except AttachmentError (List AttachmentRow) :=
  readAll (entriesAt table sequence)

/-- The row of a revision under a name. -/
def rowAt (table : AttachmentTable) (sequence : UInt64) (filename : String) :
    Except AttachmentError (Option AttachmentRow) :=
  match table.get? (key sequence filename) with
  | none => .ok none
  | some text =>
    match ofText? text with
    | none => .error .serialization
    | some row => .ok (some row)

/-- Gives the rows of one revision to another one. -/
def carry (table : AttachmentTable) (source target : UInt64) : Except AttachmentError AttachmentTable :=
  (rowsAt table source).map fun rows =>
    rows.foldl (fun table row => put table { row with sequence := target }) table

/-- Drops the rows of a revision under names, and counts those that were there. A name that is given twice
counts once. -/
def drop (table : AttachmentTable) (sequence : UInt64) : List String → AttachmentTable × Nat
  | [] => (table, 0)
  | name :: rest =>
    let present := (table.get? (key sequence name)).isSome
    let (table, count) := drop (table.erase (key sequence name)) sequence rest
    (table, if present then count + 1 else count)

end AttachmentRow

end Docket
