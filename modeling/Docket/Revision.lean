import Docket.Revision.Id
import Docket.Json.Record

/-!
# Revisions of documents

A revision is one state of a document: its identifier, the one it follows, its place in the store and its
body. It is stored as one JSON record.

* `Revision.text`, `Revision.ofText?`: the stored form.
* `Revision.display`: the form in messages.
-/

namespace Docket

/-- One state of a document. -/
structure Revision where
  document : String
  id : RevisionId
  parent : Option RevisionId
  sequence : UInt64
  body : Json
deriving Inhabited

namespace Revision

/-- The names of the stored fields. -/
def fields : List String := ["doc_id", "rev_id", "parent", "sequence", "body"]

/-- An identifier that may be absent. -/
def parentJson : Option RevisionId → Json
  | some id => .str id.text
  | none => .null

/-- The stored record. -/
def toJson (r : Revision) : Json :=
  .obj [("doc_id", .str r.document), ("rev_id", .str r.id.text), ("parent", parentJson r.parent),
    ("sequence", .ofUInt64 r.sequence), ("body", r.body)]

/-- The stored form. -/
def text (r : Revision) : String := r.toJson.text

/-- An identifier in a stored record. -/
def id? (v : Json.Literal) : Option RevisionId := v.string?.bind RevisionId.parse?

/-- An identifier in a stored record that may be absent or null. -/
def parent? : Option Json.Literal → Option (Option RevisionId)
  | none => some none
  | some .null => some none
  | some v => (id? v).map some

/-- Reads a stored record. -/
def ofLiteral? (v : Json.Literal) : Option Revision := do
  match ← v.fields? fields 5 with
  | [some document, some id, parent, some sequence, some body] =>
    let document ← document.string?
    let id ← id? id
    let parent ← parent? parent
    let sequence ← sequence.natural?
    let body ← body.member?
    return { document, id, parent, sequence, body }
  | _ => none

/-- Reads the stored form. -/
def ofText? (s : String) : Option Revision := (Json.Literal.parse? s.toList).bind ofLiteral?

/-- Document, identifier and place. -/
def display (r : Revision) : String :=
  r.document ++ "@" ++ r.id.text ++ " (seq " ++ toString r.sequence.toNat ++ ")"

end Revision

end Docket
