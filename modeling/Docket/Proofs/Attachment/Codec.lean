import Docket.Proofs.Json.Building
import Docket.Attachment.Row

/-!
# Stored rows of attachments

The stored form of a row is one flat record of strings and words, so it reads back as itself whatever the
names and types are.

* `Literal.fields?_literal`: the fields of a printed record.
* **`AttachmentRow.ofText?_text`**: a stored row reads back as itself.
* `AttachmentRow.text_injective`: rows with the same stored form are equal.
* `AttachmentRow.readAll_eq_ok_iff`, `AttachmentRow.readAll_eq_error_iff`: reading rows in order.
-/

namespace Docket

namespace Json.Literal

theorem keyed?_entryLiterals (entries : List (String × Json)) :
    keyed? (entryLiterals entries) = some (entries.map fun e => (e.1, e.2.literal)) := by
  induction entries with
  | nil => rfl
  | cons e rest ih =>
    obtain ⟨k, v⟩ := e
    rw [entryLiterals, keyed?, string?_ofString, ih]
    rfl

end Json.Literal

namespace AttachmentRow

open Json

theorem numbersAre_toJson (p : Number → Prop) (h : ∀ (n : Int) (hn : InRange n), p (.integer n hn))
    (row : AttachmentRow) : NumbersAre p row.toJson :=
  ⟨h _ _, trivial, trivial, trivial, h _ _, h _ _, h _ _, h _ _, trivial⟩

theorem fields?_literal (row : AttachmentRow) :
    row.toJson.literal.fields? fields 8 = some [some (literal (.ofUInt64 row.sequence)),
      some (.str (Part.ofString row.filename)), some (.str (Part.ofString row.content.hex)),
      some (.str (Part.ofString row.mediaType)), some (literal (encodingJson row.encoding)),
      some (literal (.ofUInt64 row.length)), some (literal (.ofUInt64 row.encodedLength)),
      some (literal (.ofUInt64 row.revpos))] := by
  rw [toJson, literal, Literal.fields?, Literal.keyed?_entryLiterals]
  rfl

theorem natural?_ofUInt64 (n : UInt64) : (literal (.ofUInt64 n)).natural? = some n := natural?_numeral n

theorem ofLiteral?_literal (row : AttachmentRow) : ofLiteral? row.toJson.literal = some row := by
  have hencoding : encoding? (literal (encodingJson row.encoding)) = some row.encoding := by
    rw [encoding?, encodingJson, natural?_ofUInt64]
    cases row.encoding <;> rfl
  have hcontent : content? (.str (Part.ofString row.content.hex)) = some row.content := by
    rw [content?, Literal.string?, string?_ofString, Option.bind_some, ContentKey.ofHex?_hex]
  rw [ofLiteral?, fields?_literal]
  simp only [Option.bind_eq_bind, Option.bind_some, natural?_ofUInt64, Literal.string?, string?_ofString, hencoding,
    hcontent]
  rfl

/-- **A stored row reads back as itself.** -/
theorem ofText?_text (row : AttachmentRow) : ofText? row.text = some row := by
  rw [ofText?, text, Json.text, String.toList_ofList,
    parse?_render (numbersAre_toJson _ isWord_integer row) (numbersAre_toJson _ isNumeral_integer row),
    Option.bind_some, ofLiteral?_literal]

theorem text_injective {row other : AttachmentRow} (h : row.text = other.text) : row = other := by
  have hread := ofText?_text row
  rw [h, ofText?_text, Option.some.injEq] at hread
  exact hread.symm

/-! ## Rows in order -/

variable {entries : List (Bytes × String)}

theorem readAll_eq_ok_iff {rows : List AttachmentRow} :
    readAll entries = .ok rows ↔ entries.map (fun e => ofText? e.2) = rows.map some := by
  fun_induction readAll entries generalizing rows with
  | case1 => cases rows <;> simp
  | case2 key text rest hrow => cases rows <;> simp [hrow]
  | case3 key text rest row hrow ih =>
    cases rows with
    | nil => cases readAll rest <;> simp [Except.map]
    | cons first more =>
      rw [List.map_cons, List.map_cons, List.cons.injEq, hrow, Option.some.injEq, ← ih]
      cases readAll rest <;> simp [Except.map]

theorem readAll_eq_error_iff {e : AttachmentError} :
    readAll entries = .error e ↔ e = .serialization ∧ ∃ x ∈ entries, ofText? x.2 = none := by
  fun_induction readAll entries with
  | case1 => simp
  | case2 key text rest hrow => simp [hrow, eq_comm]
  | case3 key text rest row hrow ih =>
    have hmap : (readAll rest).map (row :: ·) = .error e ↔ readAll rest = .error e := by
      cases readAll rest <;> simp [Except.map]
    rw [hmap, ih, List.exists_mem_cons_iff, hrow]
    simp only [reduceCtorEq, false_or]

theorem exists_readAll_iff : (∃ rows, readAll entries = .ok rows) ↔ ∀ e ∈ entries, (ofText? e.2).isSome := by
  have herror := @readAll_eq_error_iff entries .serialization
  cases hread : readAll entries with
  | error e =>
    obtain ⟨-, x, hx, hnone⟩ := readAll_eq_error_iff.1 hread
    simp only [reduceCtorEq, exists_false, false_iff, not_forall]
    exact ⟨x, hx, by simp [hnone]⟩
  | ok rows =>
    simp only [hread, reduceCtorEq, true_and, false_iff, not_exists, not_and] at herror
    simp only [Except.ok.injEq, exists_eq', true_iff]
    exact fun e he => Option.isSome_iff_ne_none.2 (herror e he)

end AttachmentRow

end Docket
