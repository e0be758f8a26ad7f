import Docket.Cli.Arguments
import Docket.Cli.Grid
import Docket.Vault

/-!
# What commands print

Each result is printed as a grid or as JSON in lines.

* `Cli.Format.revision`, `Cli.Format.attachments`, `Cli.Format.report`: the three kinds of results.
-/

namespace Docket.Cli.Format

/-- A revision. -/
def revision (f : Format) (r : Revision) : String :=
  match f with
  | .json => Json.indented <| .obj [("id", .str r.document), ("rev", .str r.id.text),
      ("sequence", .ofUInt64 r.sequence)]
  | .table => Grid.render ⟨["Field", "Value"], [["id", r.document], ["rev", r.id.text],
      ["sequence", toString r.sequence.toNat]]⟩

/-- An attachment as JSON. -/
def attachmentJson (a : SavedAttachment) : Json :=
  .obj [("name", .str a.row.filename), ("type", .str a.row.mediaType), ("length", .ofUInt64 a.row.length),
    ("revpos", .ofUInt64 a.row.revpos), ("digest", .str a.row.content.hex)]

/-- An attachment as cells. -/
def attachmentCells (a : SavedAttachment) : List String :=
  [a.row.filename, a.row.mediaType, toString a.row.length.toNat, toString a.row.revpos.toNat,
    a.row.content.hex]

/-- Attachments in order. -/
def attachments (f : Format) (as : List SavedAttachment) : String :=
  match f, as with
  | .json, as => Json.indented (.arr (as.map attachmentJson))
  | .table, [] => "(no attachments)"
  | .table, as => Grid.render ⟨["name", "type", "length", "revpos", "digest"], as.map attachmentCells⟩

/-- A collection. -/
def report (f : Format) (r : CollectReport) : String :=
  let number (n : Nat) : Json := .ofUInt64 (UInt64.ofNat n)
  match f with
  | .json => Json.indented <| .obj [("scanned", number r.scanned), ("retained", number r.retained),
      ("deleted", number r.deleted), ("failed", number r.failed)]
  | .table => Grid.render ⟨["scanned", "retained", "deleted", "failed"],
      [[toString r.scanned, toString r.retained, toString r.deleted, toString r.failed]]⟩

end Docket.Cli.Format
