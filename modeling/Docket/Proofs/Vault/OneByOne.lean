import Docket.Proofs.Vault.Writing

/-!
# Several attachments as one at a time

Attachments that are added together end as if the revision was followed by one with no new attachments, and each of
them was then added to this one. If one of them fails, then it is the one that fails by itself, for the same reason, and
the same content is left in the directory; but nothing of those before it is kept in the tables.

* `Vault.addEach`: attachments added by themselves, in order.
* `Vault.addEach_of_linkAll_ok`, `Vault.addEach_of_linkAll_error`: they are linked as they are together.
* **`Vault.addAll_eq`**: adding together as adding one at a time.
* **`Vault.addAll_eq_ok_iff`**: adding together succeeds just if adding one at a time does, with the same end.
-/

namespace Docket.Vault

/-- Adds attachments to a revision by themselves, in order, up to the first failure. -/
def addEach (opener : FileOpener) (v : Vault) (r : Revision) :
    List Attachment → Except AttachmentError (List SavedAttachment) × Vault
  | [] => (.ok [], v)
  | a :: rest =>
    match v.add opener r a with
    | (.error e, v) => (.error e, v)
    | (.ok saved, v) =>
      let (others, v) := addEach opener v r rest
      (others.map (saved :: ·), v)

variable {opener : FileOpener} {v : Vault} {r : Revision} {a : Attachment} {blobs : Blobs}

/-! ## The first of several -/

/-- The vault after an attachment was linked. -/
def linked (v : Vault) (table : AttachmentTable) (blobs : Blobs) : Vault :=
  { v with store := v.store.withAttachments table, blobs }

section First

variable (hopen : v.poisoned = false) (rest : List Attachment)

include hopen

theorem addEach_of_link_ok {saved : SavedAttachment} {table : AttachmentTable}
    (hlink : link opener v.blobs v.store.attachments r a = (.ok (saved, table), blobs)) :
    v.addEach opener r (a :: rest) = (((v.linked table blobs).addEach opener r rest).1.map (saved :: ·),
      ((v.linked table blobs).addEach opener r rest).2) := by
  have hadd : v.add opener r a = (.ok saved, v.linked table blobs) := by
    simp [add_eq_link, hopen, hlink, linked]
  rw [addEach, hadd]

theorem addEach_of_link_error {e : AttachmentError}
    (hlink : link opener v.blobs v.store.attachments r a = (.error e, blobs)) :
    v.addEach opener r (a :: rest) = (.error e, { v with blobs }) := by
  have hadd : v.add opener r a = (.error e, { v with blobs }) := by simp [add_eq_link, hopen, hlink]
  rw [addEach, hadd]

end First

/-! ## Attachments in order -/

/-- What is linked together can be added one at a time, and the rows are those that are linked. -/
theorem addEach_of_linkAll_ok (hopen : v.poisoned = false) {attachments : List Attachment} {table : AttachmentTable}
    (hall : linkAll opener v.blobs v.store.attachments r attachments = (.ok table, blobs)) :
    ∃ saved, v.addEach opener r attachments = (.ok saved, v.linked table blobs) := by
  induction attachments generalizing v with
  | nil =>
    cases hall
    exact ⟨[], rfl⟩
  | cons a rest ih =>
    cases hlink : link opener v.blobs v.store.attachments r a with
    | mk answer middle =>
      rw [linkAll, hlink] at hall
      cases answer with
      | error e => cases hall
      | ok first =>
        -- the rows so far are in the tables of the vault after the first one
        obtain ⟨others, heach⟩ := ih (v := v.linked first.2 middle) hopen hall
        refine ⟨first.1 :: others, ?_⟩
        rw [addEach_of_link_ok hopen rest hlink, heach]
        rfl

/-- Where linking fails, adding one at a time fails for the same reason and leaves the same directory. -/
theorem addEach_of_linkAll_error (hopen : v.poisoned = false) {attachments : List Attachment} {e : AttachmentError}
    (hall : linkAll opener v.blobs v.store.attachments r attachments = (.error e, blobs)) :
    ∃ after, v.addEach opener r attachments = (.error e, after) ∧ after.blobs = blobs := by
  induction attachments generalizing v with
  | nil => cases hall
  | cons a rest ih =>
    cases hlink : link opener v.blobs v.store.attachments r a with
    | mk answer middle =>
      rw [linkAll, hlink] at hall
      cases answer with
      | error e' =>
        cases hall
        exact ⟨_, addEach_of_link_error hopen rest hlink, rfl⟩
      | ok first =>
        obtain ⟨after, heach, hblobs⟩ := ih (v := v.linked first.2 middle) hopen hall
        refine ⟨after, ?_, hblobs⟩
        rw [addEach_of_link_ok hopen rest hlink, heach]
        rfl

/-! ## Following a revision -/

theorem addAll_of_succeed (hopen : v.poisoned = false) {next : Revision} {s : Store}
    (hsucceed : succeed v.store r = .ok (next, s)) (attachments : List Attachment) :
    v.addAll opener r attachments =
      match linkAll opener v.blobs s.attachments next attachments with
      | (.error e, blobs) => (.error e, { v with blobs })
      | (.ok table, blobs) => (.ok next, { v with store := s.withAttachments table, blobs }) := by
  rw [addAll_eq_linkAll, hopen, hsucceed]
  rfl

/-- **Adding together is adding one at a time** to the revision that follows with no new attachments. A failure leaves
the directory of one at a time, and the tables from before. -/
theorem addAll_eq (opener : FileOpener) (v : Vault) (r : Revision) (attachments : List Attachment) :
    v.addAll opener r attachments =
      match v.addAll opener r [] with
      | (.error e, after) => (.error e, after)
      | (.ok next, followed) =>
        match followed.addEach opener next attachments with
        | (.error e, after) => (.error e, { v with blobs := after.blobs })
        | (.ok _, after) => (.ok next, after) := by
  by_cases hopen : v.poisoned = true
  · simp [addAll_eq_linkAll, hopen]
  · rw [Bool.not_eq_true] at hopen
    cases hsucceed : succeed v.store r with
    | error e => simp [addAll_eq_linkAll, hopen, hsucceed]
    | ok result =>
      obtain ⟨next, s⟩ := result
      have hfollowed : v.addAll opener r [] = (.ok next, { v with store := s }) :=
        addAll_of_succeed hopen hsucceed []
      rw [hfollowed, addAll_of_succeed hopen hsucceed attachments]
      cases hall : linkAll opener v.blobs s.attachments next attachments with
      | mk answer blobs =>
        cases answer with
        | error e =>
          obtain ⟨after, heach, rfl⟩ := addEach_of_linkAll_error (v := { v with store := s }) hopen hall
          simp only [heach]
        | ok table =>
          obtain ⟨saved, heach⟩ := addEach_of_linkAll_ok (v := { v with store := s }) hopen hall
          simp only [heach]
          rfl

/-- **Attachments can be added together just if they can be added one at a time**, for any vault, and then both ways
end with the same tables and the same directory. -/
theorem addAll_eq_ok_iff (opener : FileOpener) (v after : Vault) (r next : Revision) (attachments : List Attachment) :
    v.addAll opener r attachments = (.ok next, after) ↔
      ∃ followed saved, v.addAll opener r [] = (.ok next, followed) ∧
        followed.addEach opener next attachments = (.ok saved, after) := by
  rw [addAll_eq]
  constructor
  · intro h
    split at h
    · cases h
    · next followed hfollowed =>
      split at h
      · cases h
      · next saved last heach =>
        cases h
        exact ⟨followed, saved, hfollowed, heach⟩
  · rintro ⟨followed, saved, hfollowed, heach⟩
    rw [hfollowed]
    simp only [heach]

end Docket.Vault
