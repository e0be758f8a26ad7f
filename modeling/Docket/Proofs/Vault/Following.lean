import Docket.Proofs.Store.Pages
import Docket.Proofs.Vault.Linking

/-!
# Changes of attachments as changes of pages

A revision that follows another one has its sheet, with the rows of new attachments or without dropped names.
Dropping takes the names from the sheet of the earlier revision as well.

* `Vault.succeed_of_ok`, `Vault.succeed_of_error`: when a revision is followed.
* `Vault.fill`: a sheet with the rows of attachments.
* `Vault.Linked.gives`: linking puts these rows.
* **`Vault.remove_cases`**: what removing can do.
-/

namespace Docket.Vault

open AttachmentRow (Sheet sheet Gives Keyed)
open Store (nextOf)
open Revision (placeless)

/-! ## A revision that follows -/

section Succeed

variable {s : Store} {written : List Revision} (h : s.Records written) {r : Revision}

include h

theorem succeed_of_error {e : StoreError}
    (hnext : nextOf r.document (placeless r.document written) r.id r.body = .error e) :
    succeed s r = .error (.store e) := by
  rw [succeed, h.advance_eq, hnext]
  rfl

/-- The revision that follows has the sheet of the one it follows, if there is room for it. -/
theorem succeed_of_ok {next : Revision}
    (hnext : nextOf r.document (placeless r.document written) r.id r.body = .ok next) :
    ∃ table, succeed s r = .ok (next.moved (s.last + 1),
        (s.append (next.moved (s.last + 1))).withAttachments table) ∧ Keyed table ∧
      (written.length + 1 < UInt64.size →
        Gives s.attachments table (s.last + 1) (sheet s.attachments r.sequence)) := by
  obtain ⟨carried, given, hcarry, hgives, hgiven⟩ := AttachmentRow.carry_spec h.keyed r.sequence (s.last + 1)
  refine ⟨carried, ?_, hgives.keyed, fun hroom => hgiven (h.gives_next hroom).self ▸ hgives⟩
  rw [succeed, h.advance_eq, hnext]
  show Except.map _ (AttachmentRow.carry s.attachments r.sequence (s.last + 1)) = _
  rw [hcarry]
  rfl

end Succeed

/-! ## New attachments -/

/-- A sheet with the rows of attachments with their contents, on a revision without a place. -/
def fill (r : Revision) : Sheet → List (Attachment × Bytes) → Sheet
  | sheet, [] => sheet
  | sheet, (a, content) :: rest => fill r (Function.update sheet a.name (some (rowFor r a content))) rest

theorem Linked.gives {opener : FileOpener} {r : Revision} {b after : Blobs} {table linked : AttachmentTable}
    {attachments : List Attachment} {contents : List Bytes}
    (h : Linked opener r b table attachments contents linked after) (hkeyed : Keyed table) :
    Gives table linked r.sequence
      (fill (r.moved 0) (sheet table r.sequence) (attachments.zip contents)) := by
  induction h with
  | nil b table => exact .refl hkeyed r.sequence
  | @cons _ _ _ table _ _ a _ _ content _ hcontent hlink _ ih =>
    obtain ⟨content', hcontent', -, -, -, rfl⟩ := link_eq_ok hlink
    rw [hcontent, Option.some.injEq] at hcontent'
    subst hcontent'
    have hput := AttachmentRow.gives_put hkeyed (rowFor r a content)
    have hrest := ih hput.keyed
    rw [show sheet _ r.sequence = _ from hput.self] at hrest
    exact hput.trans hrest

/-! ## Dropped names -/

theorem blobs_of_remove_ok {v after : Vault} {r next : Revision} {names : List String}
    (h : v.remove r names = (.ok next, after)) : after.blobs = v.blobs := by
  rw [remove_eq_drop] at h
  split at h
  · cases h
  · split at h
    · cases h
      rfl
    · split at h <;> cases h
      rfl

section Remove

variable {v : Vault} (hopen : v.poisoned = false) {written : List Revision} (h : v.store.Records written)
  {r : Revision} (hr : r ∈ written)

include hopen h hr

/-- **What removing can do.** Without a row to drop nothing changes. Else the revision is followed by one without
these names, or nothing changes because it is not the current one. -/
theorem remove_cases (names : List String) :
    ((∀ name ∈ names, sheet v.store.attachments r.sequence name = none) ∧ v.remove r names = (.ok r, v)) ∨
    ((¬ ∀ name ∈ names, sheet v.store.attachments r.sequence name = none) ∧
      ((∃ e, nextOf r.document (placeless r.document written) r.id r.body = .error e ∧
          v.remove r names = (.error (.store e), v)) ∨
        ∃ next dropped table, nextOf r.document (placeless r.document written) r.id r.body = .ok next ∧
          Gives v.store.attachments dropped r.sequence ((sheet v.store.attachments r.sequence).without names) ∧
          v.remove r names = (.ok (next.moved (v.store.last + 1)), { v with
            store := ((v.store.withAttachments dropped).append (next.moved (v.store.last + 1))).withAttachments
              table }) ∧
          (written.length + 1 < UInt64.size → Gives dropped table (v.store.last + 1)
            ((sheet v.store.attachments r.sequence).without names)))) := by
  have hkeyed := h.keyed
  have hdrop := AttachmentRow.gives_drop hkeyed r.sequence names
  have hzero := AttachmentRow.drop_eq_zero_iff hkeyed r.sequence names
  cases hresult : AttachmentRow.drop v.store.attachments r.sequence names with
  | mk dropped count =>
    rw [hresult] at hdrop hzero
    cases count with
    | zero =>
      refine .inl ⟨hzero.1 rfl, ?_⟩
      simp [remove_eq_drop, hopen, hresult]
    | succ count =>
      refine .inr ⟨fun hnone => absurd (hzero.2 hnone) (Nat.succ_ne_zero count), ?_⟩
      have hrecords : (v.store.withAttachments dropped).Records written := h.give hdrop (h.below r hr)
      cases hnext : nextOf r.document (placeless r.document written) r.id r.body with
      | error e =>
        refine .inl ⟨e, rfl, ?_⟩
        simp [remove_eq_drop, hopen, hresult, succeed_of_error hrecords hnext]
      | ok next =>
        obtain ⟨table, hsucceed, -, hgives⟩ := succeed_of_ok hrecords hnext
        refine .inr ⟨next, dropped, table, rfl, hdrop, ?_, fun hroom => ?_⟩
        · simp only [remove_eq_drop, hopen, hresult, hsucceed]
          rfl
        · have hself : sheet (v.store.withAttachments dropped).attachments r.sequence = _ := hdrop.self
          rw [← hself]
          exact hgives hroom

end Remove

end Docket.Vault
