import Docket.Proofs.Attachment.Rows
import Docket.Proofs.Revision.Codec
import Docket.Proofs.Store.Chain

/-!
# Documents as pages

The revisions that were written, in the order of their places, say what the tables hold. A page is a revision
without its place, with what it has under each name; a write of a document depends on its revisions alone, and a
change of the tables is a change of the pages of one document.

* `Store.Records`: the tables hold just these revisions.
* `Store.pages`: the pages of a document.
* **`Store.Records.create_eq`, `Store.Records.advance_eq`**: what a write depends on.
* `Store.Records.pages_give`, `Store.Records.pages_follow`: what changes of the tables do to the pages.
-/

namespace Docket

open AttachmentRow (Sheet sheet Gives)

/-- The revisions of a document, in order. -/
def Revision.ofDocument (document : String) (written : List Revision) : List Revision :=
  written.filter (·.document = document)

/-- The revisions of a document without their places, in order. -/
def Revision.placeless (document : String) (written : List Revision) : List Revision :=
  (ofDocument document written).map (·.moved 0)

/-- A revision without its place, with what it has under each name. -/
structure Page where
  revision : Revision
  sheet : Sheet

namespace Store

open Revision (ofDocument placeless)

/-- The tables hold just these revisions, in the order of their places. Every row of an attachment stands under
its own key, and no place to come has any. -/
structure Records (s : Store) (written : List Revision) : Prop where
  count : s.last.toNat = written.length
  below : ∀ r ∈ written, r.sequence.toNat ≤ written.length
  ascending : written.Pairwise fun r q => r.sequence < q.sequence
  rows : ∀ r ∈ written, s.revisions.get? r.sequence = some r.text
  documents : ∀ document, s.documents.get? document = (ofDocument document written).getLast?.map (·.sequence)
  keyed : AttachmentRow.Keyed s.attachments
  blank : ∀ sequence : UInt64, written.length < sequence.toNat → sheet s.attachments sequence = Sheet.blank

/-- The pages of a document. -/
def pages (s : Store) (written : List Revision) (document : String) : List Page :=
  (ofDocument document written).map fun r => ⟨r.moved 0, sheet s.attachments r.sequence⟩

theorem records_empty : Records .empty [] where
  count := rfl
  below := fun _ h => absurd h List.not_mem_nil
  ascending := List.Pairwise.nil
  rows := fun _ h => absurd h List.not_mem_nil
  documents _ := rfl
  keyed := fun _ h => absurd h List.not_mem_nil
  blank _ _ := rfl

variable {s : Store} {written : List Revision}

theorem map_revision_pages (s : Store) (written : List Revision) (document : String) :
    (s.pages written document).map (·.revision) = placeless document written := by
  rw [pages, placeless, List.map_map]
  rfl

theorem mem_ofDocument {document : String} {r : Revision} :
    r ∈ ofDocument document written ↔ r ∈ written ∧ r.document = document := by simp [ofDocument]

theorem ofDocument_append_self (r : Revision) :
    ofDocument r.document (written ++ [r]) = ofDocument r.document written ++ [r] := by simp [ofDocument]

theorem ofDocument_append_of_ne {document : String} {r : Revision} (h : document ≠ r.document) :
    ofDocument document (written ++ [r]) = ofDocument document written := by simp [ofDocument, h.symm]

/-! ## What a write depends on -/

/-- The current revision of a document with these revisions. -/
def currentOf (document : String) (revisions : List Revision) : Except StoreError Revision :=
  match revisions.getLast? with
  | none => .error (.documentNotFound document)
  | some r =>
    match Revision.ofText? r.text with
    | none => .error .serialization
    | some r => .ok r

/-- The first revision of a document that has these revisions. -/
def firstOf (document : String) (revisions : List Revision) (body : Json) : Except StoreError Revision :=
  match revisions with
  | [] => .ok ⟨document, .derive none body, none, 0, body⟩
  | _ :: _ => .error (.documentExists document)

/-- The revision that follows the current one of a document with these revisions. -/
def nextOf (document : String) (revisions : List Revision) (parent : RevisionId) (body : Json) :
    Except StoreError Revision :=
  match currentOf document revisions with
  | .error e => .error e
  | .ok r =>
    if r.id = parent then .ok ⟨document, .derive (some parent) body, some parent, 0, body⟩
    else .error (.conflict document parent r.id)

namespace Records

variable (h : s.Records written)

include h

theorem current_eq (document : String) :
    (s.current document).map (·.moved 0) = currentOf document (placeless document written) := by
  rw [current, currentOf, placeless, h.documents, List.getLast?_map]
  cases hlast : (ofDocument document written).getLast? with
  | none => rfl
  | some r =>
    have hmem : r ∈ written := (mem_ofDocument.1 (List.mem_of_getLast? hlast)).1
    simp only [Option.map_some, revision, h.rows r hmem, Revision.ofText?_text_moved]
    cases Revision.ofText? r.text <;> rfl

/-- **A first revision is determined by the revisions of its document.** -/
theorem create_eq (document : String) (body : Json) :
    s.create document body = (firstOf document (placeless document written) body).map fun r =>
      (r.moved (s.last + 1), s.append (r.moved (s.last + 1))) := by
  rw [create, h.documents]
  cases hlast : (ofDocument document written).getLast? with
  | none =>
    rw [placeless, List.getLast?_eq_none_iff.1 hlast]
    rfl
  | some r =>
    obtain ⟨x, rest, hrevisions⟩ := List.exists_cons_of_ne_nil (List.ne_nil_of_mem (List.mem_of_getLast? hlast))
    rw [placeless, hrevisions]
    rfl

/-- **A revision that follows is determined by the revisions of its document.** -/
theorem advance_eq (document : String) (parent : RevisionId) (body : Json) :
    s.advance document parent body = (nextOf document (placeless document written) parent body).map fun r =>
      (r.moved (s.last + 1), s.append (r.moved (s.last + 1))) := by
  rw [advance, nextOf, ← h.current_eq]
  cases s.current document with
  | error e => rfl
  | ok r =>
    show (if r.id = parent then _ else _) = Except.map _ (if r.id = parent then _ else _)
    split <;> rfl

/-! ## Changes -/

theorem sequence_injective {r q : Revision} (hr : r ∈ written) (hq : q ∈ written)
    (heq : r.sequence = q.sequence) : r = q := by
  have hne : written.Pairwise fun r q => r.sequence = q.sequence → r = q :=
    h.ascending.imp fun hlt heq => absurd heq (UInt64.ne_of_lt hlt)
  exact hne.forall_of_forall_of_flip (fun _ _ _ => rfl) (hne.imp fun hrq heq => (hrq heq.symm).symm) hr hq heq

theorem toNat_last_add_one (hroom : written.length + 1 < UInt64.size) :
    (s.last + 1).toNat = written.length + 1 := by
  rw [UInt64.toNat_add, UInt64.toNat_one, h.count, Nat.mod_eq_of_lt hroom]

theorem append {r : Revision} (hr : r.sequence = s.last + 1) (hroom : written.length + 1 < UInt64.size) :
    (s.append r).Records (written ++ [r]) := by
  have hplace : r.sequence.toNat = written.length + 1 := hr ▸ h.toNat_last_add_one hroom
  have hlength : (written ++ [r]).length = written.length + 1 := List.length_append
  have hbefore : ∀ q ∈ written, q.sequence < r.sequence := fun q hq => by
    have hle := h.below q hq
    rw [UInt64.lt_iff_toNat_lt]
    omega
  refine ⟨?_, fun q hq => ?_, ?_, fun q hq => ?_, fun document => ?_, h.keyed, fun sequence hlt => ?_⟩
  · rw [last_append, hplace, hlength]
  · rw [hlength]
    rcases List.mem_append.1 hq with hq | hq
    · exact Nat.le_succ_of_le (h.below q hq)
    · rw [List.mem_singleton.1 hq]
      exact Nat.le_of_eq hplace
  · refine List.pairwise_append.2 ⟨h.ascending, List.pairwise_singleton _ _, fun q hq p hp => ?_⟩
    rw [List.mem_singleton.1 hp]
    exact hbefore q hq
  · rcases List.mem_append.1 hq with hq | hq
    · exact (Table.get?_insert_of_ne _ _ (UInt64.ne_of_lt (hbefore q hq))).trans (h.rows q hq)
    · rw [List.mem_singleton.1 hq]
      exact Table.get?_insert_self _ _ _
  · by_cases hd : document = r.document
    · subst hd
      rw [ofDocument_append_self, List.getLast?_concat]
      exact Table.get?_insert_self _ _ _
    · rw [ofDocument_append_of_ne hd, ← h.documents]
      exact Table.get?_insert_of_ne _ _ hd
  · rw [hlength] at hlt
    exact h.blank sequence (by omega)

theorem give {table : AttachmentTable} {sequence : UInt64} {given : Sheet}
    (hgives : Gives s.attachments table sequence given) (hplace : sequence.toNat ≤ written.length) :
    (s.withAttachments table).Records written where
  count := h.count
  below := h.below
  ascending := h.ascending
  rows := h.rows
  documents := h.documents
  keyed := hgives.keyed
  blank later hlater := by
    have hne : later ≠ sequence := fun he => by
      rw [he] at hlater
      omega
    exact (hgives.others later hne).trans (h.blank later hlater)

theorem pages_give {table : AttachmentTable} {given : Sheet} {document : String} {n : Nat} {r : Revision}
    (hgives : Gives s.attachments table r.sequence given) (hr : (ofDocument document written)[n]? = some r) :
    (s.withAttachments table).pages written document = (s.pages written document).set n ⟨r.moved 0, given⟩ := by
  obtain ⟨hn, hget⟩ := List.getElem?_eq_some_iff.1 hr
  have hne : (ofDocument document written).Pairwise fun r q => r.sequence ≠ q.sequence :=
    (h.ascending.filter _).imp UInt64.ne_of_lt
  refine List.ext_getElem (by simp [pages]) fun i hi hi' => ?_
  have hi : i < (ofDocument document written).length := by simpa [pages] using hi
  simp only [pages, List.getElem_map, List.getElem_set]
  split
  · next he =>
    subst he
    rw [hget]
    exact congrArg _ hgives.self
  · next hindex =>
    refine congrArg _ (hgives.others _ ?_)
    rw [← hget]
    rcases Nat.lt_or_gt_of_ne hindex with hlt | hlt
    · exact (List.pairwise_iff_getElem.1 hne n i hn hi hlt).symm
    · exact List.pairwise_iff_getElem.1 hne i n hi hn hlt

theorem pages_give_of_ne {table : AttachmentTable} {given : Sheet} {document : String} {r : Revision}
    (hgives : Gives s.attachments table r.sequence given) (hr : r ∈ written) (hd : document ≠ r.document) :
    (s.withAttachments table).pages written document = s.pages written document := by
  refine List.map_congr_left fun q hq => ?_
  obtain ⟨hwritten, hdocument⟩ := mem_ofDocument.1 hq
  have hne : q.sequence ≠ r.sequence := fun he => by
    rw [h.sequence_injective hwritten hr he] at hdocument
    exact hd hdocument.symm
  exact congrArg _ (hgives.others _ hne)

section Follow

variable {table : AttachmentTable} {given : Sheet} {r : Revision}
  (hgives : Gives s.attachments table r.sequence given) (hr : r.sequence = s.last + 1)
  (hroom : written.length + 1 < UInt64.size)

include hgives hr hroom

theorem follow : ((s.append r).withAttachments table).Records (written ++ [r]) := by
  have happend := h.append hr hroom
  refine happend.give hgives ?_
  exact happend.below r (List.mem_append_right _ (List.mem_singleton_self r))

/-- A written revision with its sheet is a new page of its document. -/
theorem pages_follow : ((s.append r).withAttachments table).pages (written ++ [r]) r.document =
    s.pages written r.document ++ [⟨r.moved 0, given⟩] := by
  have hplace : r.sequence.toNat = written.length + 1 := hr ▸ h.toNat_last_add_one hroom
  rw [pages, ofDocument_append_self, List.map_append, List.map_singleton]
  congr 1
  · refine List.map_congr_left fun q hq => ?_
    have hle := h.below q (mem_ofDocument.1 hq).1
    exact congrArg _ (hgives.others _ fun he => by rw [he] at hle; omega)
  · exact congrArg (fun sheet => [Page.mk (r.moved 0) sheet]) hgives.self

theorem pages_follow_of_ne {document : String} (hd : document ≠ r.document) :
    ((s.append r).withAttachments table).pages (written ++ [r]) document = s.pages written document := by
  have hplace : r.sequence.toNat = written.length + 1 := hr ▸ h.toNat_last_add_one hroom
  rw [pages, ofDocument_append_of_ne hd]
  refine List.map_congr_left fun q hq => ?_
  have hle := h.below q (mem_ofDocument.1 hq).1
  exact congrArg _ (hgives.others _ fun he => by rw [he] at hle; omega)

end Follow

/-- The place to come has nothing under any name. -/
theorem gives_next (hroom : written.length + 1 < UInt64.size) :
    Gives s.attachments s.attachments (s.last + 1) Sheet.blank := by
  have hblank : sheet s.attachments (s.last + 1) = Sheet.blank := by
    refine h.blank _ ?_
    rw [h.toNat_last_add_one hroom]
    exact Nat.lt_succ_self _
  have hgives := Gives.refl h.keyed (s.last + 1)
  rwa [hblank] at hgives

end Records

end Store

end Docket
