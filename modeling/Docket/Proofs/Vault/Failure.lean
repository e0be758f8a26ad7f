import Docket.Proofs.Vault.Linking
import Docket.Proofs.Store.Growth

/-!
# What a failed change leaves behind

A change of attachments that fails leaves the tables and the staged files as they were, and takes nothing from
the blob directory. Only a list of attachments can leave files there: those of the attachments before the one
that failed.

* `Vault.BeforeFailure`: the contents of the attachments before one that fails.
* **`Vault.unchanged_of_error`**: what is as it was after a failure.
-/

namespace Docket.Vault

/-- These are the contents of the attachments before the first one that cannot be linked to the revision after `r`,
and the failure is that of this one. -/
def BeforeFailure (opener : FileOpener) (v : Vault) (r : Revision) (attachments : List Attachment)
    (e : AttachmentError) (contents : List Bytes) : Prop :=
  ∃ next s earlier failing later linked middle, succeed v.store r = .ok (next, s) ∧
    attachments = earlier ++ failing :: later ∧
    Linked opener next v.blobs s.attachments earlier contents linked middle ∧
    (link opener middle linked next failing).1 = .error e

variable {opener : FileOpener} {v after : Vault} {r : Revision} {e : AttachmentError}

theorem adds_of_add_error {a : Attachment} (h : v.add opener r a = (.error e, after)) :
    after.store = v.store ∧ v.blobs.Adds after.blobs [] := by
  rw [add_eq_link] at h
  split at h
  · cases h
    exact ⟨rfl, .refl _⟩
  · rcases link_cases opener v.blobs v.store.attachments r a with ⟨e, blobs, hlink, hadds⟩ | ⟨_, _, _, _, _, hlink⟩
    · rw [hlink] at h
      cases h
      exact ⟨rfl, hadds⟩
    · rw [hlink] at h
      cases h

theorem adds_of_addAll_error {attachments : List Attachment}
    (h : v.addAll opener r attachments = (.error e, after)) :
    after = v ∨ ∃ contents, BeforeFailure opener v r attachments e contents ∧ after.store = v.store ∧
      v.blobs.Adds after.blobs contents := by
  rw [addAll_eq_linkAll] at h
  split at h
  · cases h
    exact .inl rfl
  · split at h
    · cases h
      exact .inl rfl
    · next next s hsucceed =>
      rcases linkAll_cases opener v.blobs s.attachments next attachments with
        ⟨_, _, _, _, hall⟩ | ⟨f, earlier, failing, later, contents, linked, middle, blobs, hsplit, hlinked, hfails,
          hlast, hall⟩
      · rw [hall] at h
        cases h
      · rw [hall] at h
        cases h
        have hadds : v.blobs.Adds blobs (contents ++ []) := hlinked.adds.trans hlast
        rw [List.append_nil] at hadds
        have hfailure : (link opener middle linked next failing).1 = .error e := by rw [hfails]
        exact .inr ⟨contents, ⟨next, s, earlier, failing, later, linked, middle, hsucceed, hsplit, hlinked, hfailure⟩,
          rfl, hadds⟩

theorem eq_of_remove_error {names : List String} (h : v.remove r names = (.error e, after)) : after = v := by
  rw [remove_eq_drop] at h
  split at h
  · cases h
    rfl
  · split at h
    · cases h
    · split at h <;> cases h
      rfl

/-- **A failed change leaves the tables, the staged files and all entries of the blob directory as they were.** If
one attachment is added the directory has no new entry either, and if attachments are removed nothing changes at
all. If several are added, every new entry is a file that is named by the key of its content, and this is the
content of an attachment before the one that failed. -/
theorem unchanged_of_error (opener : FileOpener) {v : Vault} (hfresh : v.blobs.Fresh) (r : Revision) :
    (∀ a e after, v.add opener r a = (.error e, after) →
      after.store = v.store ∧ after.blobs.staging = v.blobs.staging ∧ after.blobs.entries = v.blobs.entries) ∧
    (∀ attachments e after, v.addAll opener r attachments = (.error e, after) →
      after.store = v.store ∧ after.blobs.staging = v.blobs.staging ∧
      (∀ name node, v.blobs.entries.get? name = some node → after.blobs.entries.get? name = some node) ∧
      ∀ name node, v.blobs.entries.get? name = none → after.blobs.entries.get? name = some node →
        ∃ contents, BeforeFailure opener v r attachments e contents ∧
          ∃ content ∈ contents, name = (ContentKey.digest content).hex ∧ node = .file content) ∧
    ∀ names e after, v.remove r names = (.error e, after) → after = v := by
  refine ⟨fun a e after h => ?_, fun attachments e after h => ?_, fun _ _ _ => eq_of_remove_error⟩
  · obtain ⟨hstore, hadds⟩ := adds_of_add_error h
    exact ⟨hstore, (hadds.staging hfresh).1, hadds.entries_eq⟩
  · rcases adds_of_addAll_error h with rfl | ⟨contents, hbefore, hstore, hadds⟩
    · refine ⟨rfl, rfl, fun _ _ => id, fun name node hnone hnode => ?_⟩
      rw [hnone] at hnode
      cases hnode
    · refine ⟨hstore, (hadds.staging hfresh).1, hadds.kept, fun name node hnone hnode => ?_⟩
      rcases hadds.new name node hnode with hold | hnew
      · rw [hnone] at hold
        cases hold
      · exact ⟨contents, hbefore, hnew⟩

/-! ## A list with a nameless attachment -/

/-- A vault with one document and a foreign directory among its files. -/
def withForeign : Vault :=
  ⟨Store.empty.append firstNote, .ofEntries "blobs" [("foreign", .directory [("x", .file [1])])], false⟩

/-- A proper attachment and one without a name. -/
def halfNamed : List Attachment := [⟨"n", "text/plain", .bytes [1, 2]⟩, ⟨"", "text/plain", .bytes [3]⟩]

/-- No path leads to a file. -/
def noFiles : FileOpener := fun _ _ => .error .notFound

set_option maxRecDepth 20000 in
theorem addAll_halfNamed :
    (withForeign.addAll noFiles firstNote halfNamed).1 = .error (.invalidRow (.emptyFilename 2)) := (rfl)

theorem unchanged_of_error_halfNamed : withForeign.blobs.Fresh ∧ ∃ after,
    withForeign.addAll noFiles firstNote halfNamed = (.error (.invalidRow (.emptyFilename 2)), after) ∧
    after.store = withForeign.store ∧
    after.blobs.entries.get? "foreign" = some (.directory [("x", .file [1])]) := by
  have hfresh : withForeign.blobs.Fresh := fun _ _ => rfl
  have hfails := addAll_halfNamed
  cases hresult : withForeign.addAll noFiles firstNote halfNamed with
  | mk answer after =>
    rw [hresult] at hfails
    cases hfails
    obtain ⟨hstore, _, hkept, _⟩ := (unchanged_of_error noFiles hfresh firstNote).2.1 _ _ _ hresult
    exact ⟨hfresh, after, rfl, hstore, hkept "foreign" _ rfl⟩

end Docket.Vault
