import Docket.Proofs.Attachment.Codec
import Docket.Proofs.Json.Numbers
import Docket.Revision

/-!
# Stored revisions

What is read back from a stored revision is determined by its parts, and its place is read back as it is. So
whether a revision reads back does not depend on its place, and two bodies that read back alike do so at every
place of a chain.

* `Revision.moved`: a revision at another place.
* `RevisionId.ofChars?_dash`: an identifier is read on both sides of the first dash.
* **`Revision.ofText?_text`**: what is read back from a stored revision.
* `RevisionId.parse?_derive`: a derived identifier reads back as itself.
* `Revision.Decodes`: a revision that is read back as it is.
-/

namespace Docket

namespace RevisionId

/-! ## The first dash -/

section Dash

variable {before : List Char}

theorem takeWhile_dash (h : '-' ∉ before) (after : List Char) :
    (before ++ '-' :: after).takeWhile (· ≠ '-') = before := by
  have hall : ∀ c ∈ before, decide (c ≠ '-') = true := by
    intro c hc
    apply decide_eq_true
    intro hdash
    rw [hdash] at hc
    exact h hc
  rw [List.takeWhile_append_of_pos hall]
  simp

theorem dropWhile_dash (h : '-' ∉ before) (after : List Char) :
    (before ++ '-' :: after).dropWhile (· ≠ '-') = '-' :: after := by
  have hsplit := List.takeWhile_append_dropWhile (p := fun c => decide (c ≠ '-')) (l := before ++ '-' :: after)
  rw [takeWhile_dash h] at hsplit
  exact List.append_cancel_left hsplit

theorem dash_not_mem_toDigits (n : Nat) : '-' ∉ Nat.toDigits 10 n := by
  intro hdash
  have hdigit := Json.areDigits_toDigits n '-' hdash
  exact absurd hdigit (by decide)

theorem ofChars?_dash (h : '-' ∉ before) (after : List Char) :
    ofChars? (before ++ '-' :: after) = (generation? before).bind fun generation =>
      if generation = 0 ∨ after = [] then none else some ⟨generation, String.ofList after⟩ := by
  rw [ofChars?, takeWhile_dash h, dropWhile_dash h]
  cases generation? before with
  | none => rfl
  | some generation => simp

end Dash

theorem generation?_toDigits (n : UInt64) : generation? (Nat.toDigits 10 n.toNat) = some n := by
  have hne : Nat.toDigits 10 n.toNat ≠ [] := Nat.toDigits_ne_nil
  have hall : (Nat.toDigits 10 n.toNat).all Char.isDigit = true :=
    List.all_eq_true.2 (Json.areDigits_toDigits n.toNat)
  have hplus : (Nat.toDigits 10 n.toNat).head? ≠ some '+' := fun hhead => by
    have hdigit := Json.areDigits_toDigits n.toNat '+' (List.mem_of_mem_head? hhead)
    exact absurd hdigit (by decide)
  have hlt : n.toNat < UInt64.size := n.toNat_lt
  simp [generation?, hplus, hne, hall, hlt]

theorem parse?_text {id : RevisionId} (hgeneration : id.generation ≠ 0) (hdigest : id.digest ≠ "") :
    parse? id.text = some id := by
  have hne : id.digest.toList ≠ [] := fun hnil => hdigest (String.toList_eq_nil_iff.1 hnil)
  rw [parse?, text, String.toList_ofList, chars, ofChars?_dash (dash_not_mem_toDigits _), generation?_toDigits,
    Option.bind_some, if_neg (by simp [hgeneration, hne]), String.ofList_toList]

theorem length_digest_derive (parent : Option RevisionId) (body : Json) :
    (derive parent body).digest.toList.length = 32 := by
  simp [derive, Hex.text, Hex.length_encode, Sha256.length_digest]

theorem digest_derive_ne (parent : Option RevisionId) (body : Json) : (derive parent body).digest ≠ "" := by
  intro h
  have hlength := length_digest_derive parent body
  rw [h] at hlength
  cases hlength

/-- A derived identifier reads back as itself, unless its generation is too great. -/
theorem parse?_derive {parent : Option RevisionId} {body : Json} (h : nextGeneration parent ≠ 0) :
    parse? (derive parent body).text = some (derive parent body) := parse?_text h (digest_derive_ne parent body)

end RevisionId

namespace Revision

open Json

/-- A revision at another place. -/
def moved (r : Revision) (sequence : UInt64) : Revision := { r with sequence }

@[simp] theorem moved_moved (r : Revision) (s t : UInt64) : (r.moved s).moved t = r.moved t := rfl

@[simp] theorem moved_sequence (r : Revision) : r.moved r.sequence = r := rfl

/-- The identifier that is read back where one may be absent. -/
def parentRead? : Option RevisionId → Option (Option RevisionId)
  | none => some none
  | some id => (RevisionId.parse? id.text).map some

theorem id?_str (id : RevisionId) : id? (.str (Part.ofString id.text)) = RevisionId.parse? id.text := by
  rw [id?, Literal.string?, string?_ofString, Option.bind_some]

theorem parent?_literal (parent : Option RevisionId) :
    parent? (some (parentJson parent).literal) = parentRead? parent := by
  cases parent with
  | none => rfl
  | some id =>
    show (id? (.str (Part.ofString id.text))).map some = _
    rw [id?_str]
    rfl

theorem fields?_literal (r : Revision) :
    r.toJson.literal.fields? fields 5 = some [some (.str (Part.ofString r.document)),
      some (.str (Part.ofString r.id.text)), some (parentJson r.parent).literal,
      some (literal (.ofUInt64 r.sequence)), some r.body.literal] := by
  rw [toJson, literal, Literal.fields?, Literal.keyed?_entryLiterals]
  rfl

/-- **What is read back from a stored revision**: its document and place as they are, its identifiers and its body
as they read back. -/
theorem ofText?_text (r : Revision) : ofText? r.text =
    (RevisionId.parse? r.id.text).bind fun id => (parentRead? r.parent).bind fun parent =>
      r.body.literal.member?.map fun body => { r with id, parent, body } := by
  rw [ofText?, text, Json.text, String.toList_ofList, parse?_render_all, Option.bind_some, ofLiteral?,
    fields?_literal]
  simp only [Option.bind_eq_bind, Option.bind_some, Literal.string?, string?_ofString, id?_str, parent?_literal,
    AttachmentRow.natural?_ofUInt64]
  cases RevisionId.parse? r.id.text with
  | none => rfl
  | some id =>
    cases parentRead? r.parent with
    | none => rfl
    | some parent => cases r.body.literal.member? <;> rfl

/-- Whether a revision reads back, and as what, does not depend on its place. -/
theorem ofText?_text_moved (r : Revision) (sequence : UInt64) :
    ofText? (r.moved sequence).text = (ofText? r.text).map (·.moved sequence) := by
  rw [ofText?_text, ofText?_text]
  simp only [moved]
  cases RevisionId.parse? r.id.text with
  | none => rfl
  | some id =>
    cases parentRead? r.parent with
    | none => rfl
    | some parent => cases r.body.literal.member? <;> rfl

/-- A stored revision that is read back as it is. -/
def Decodes (r : Revision) : Prop := ofText? r.text = some r

theorem decodes_iff {r : Revision} : r.Decodes ↔ RevisionId.parse? r.id.text = some r.id ∧
    parentRead? r.parent = some r.parent ∧ r.body.literal.member? = some r.body := by
  rw [Decodes, ofText?_text]
  constructor
  · intro h
    obtain ⟨id, hid, h⟩ := Option.bind_eq_some_iff.1 h
    obtain ⟨parent, hparent, h⟩ := Option.bind_eq_some_iff.1 h
    obtain ⟨body, hbody, h⟩ := Option.map_eq_some_iff.1 h
    rw [← h]
    exact ⟨by rw [← hid, ← h], by rw [← hparent, ← h], by rw [← hbody, ← h]⟩
  · rintro ⟨hid, hparent, hbody⟩
    rw [hid, hparent, hbody]
    rfl

theorem Decodes.moved {r : Revision} (h : r.Decodes) (sequence : UInt64) : (r.moved sequence).Decodes := by
  unfold Decodes at h ⊢
  rw [ofText?_text_moved, h]
  rfl

theorem decodes_derived {parent : Option RevisionId} (hgeneration : RevisionId.nextGeneration parent ≠ 0)
    (hparent : parentRead? parent = some parent) {body : Json} (hbody : body.literal.member? = some body)
    (document : String) (sequence : UInt64) : Decodes ⟨document, .derive parent body, parent, sequence, body⟩ := by
  have hderived : RevisionId.parse? (RevisionId.derive parent body).text = some (.derive parent body) :=
    RevisionId.parse?_derive hgeneration
  rw [decodes_iff]
  exact ⟨hderived, hparent, hbody⟩

theorem Decodes.parentRead? {r : Revision} (h : r.Decodes) : Revision.parentRead? (some r.id) = some (some r.id) := by
  rw [Revision.parentRead?, (decodes_iff.1 h).1]
  rfl

end Revision

end Docket
