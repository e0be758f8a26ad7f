import Docket.Proofs.Table
import Docket.Vault

/-!
# What a transaction comes to

The steps of a change of attachments pass on a table and a directory. A change that succeeds leaves the table and the
directory that its steps pass on. One that fails leaves the directory, while the tables of its transaction are dropped,
whatever was written to them.

* `Vault.settle`, `Vault.link`, `Vault.linkAll`: attachments linked to a revision, by what they make of table and directory.
* `Vault.succeed`: a revision that follows another one and has its rows.
* **`Writing.exists_run_link`**, **`Writing.exists_run_follow`**: the steps of a transaction come to the same.
* **`Vault.add_eq_link`**, **`Vault.addAll_eq_linkAll`**, **`Vault.remove_eq_drop`**: the changes of a vault.
-/

namespace Docket

open AttachmentRow (key put drop)

namespace Vault

/-- Writes the row of a staged file and gives the file its name. -/
def settle (b : Blobs) (table : AttachmentTable) (row : AttachmentRow) (s : Staged) :
    Except AttachmentError (SavedAttachment × AttachmentTable) × Blobs :=
  match row.fault? with
  | some fault => (.error (.invalidRow fault), b.discard s)
  | none =>
    match b.commit s with
    | (.error reason, b) => (.error (.io reason), b)
    | (.ok path, b) => (.ok (⟨row, path⟩, put table row), b)

/-- Links an attachment to a revision. -/
def link (opener : FileOpener) (b : Blobs) (table : AttachmentTable) (r : Revision) (a : Attachment) :
    Except AttachmentError (SavedAttachment × AttachmentTable) × Blobs :=
  match a.source.arrivals opener b with
  | .error reason => (.error (.io reason), b)
  | .ok arrivals =>
    match b.stage .full arrivals with
    | (.error reason, b) => (.error (.io reason), b)
    | (.ok s, b) => settle b table (rowOf r a s) s

/-- Links attachments in order, up to the first failure. -/
def linkAll (opener : FileOpener) (b : Blobs) (table : AttachmentTable) (r : Revision) :
    List Attachment → Except AttachmentError AttachmentTable × Blobs
  | [] => (.ok table, b)
  | a :: rest =>
    match link opener b table r a with
    | (.error e, b) => (.error e, b)
    | (.ok (_, table), b) => linkAll opener b table r rest

/-- The revision that follows `r` with the same body, and the store in which it has the rows of `r`. -/
def succeed (s : Store) (r : Revision) : Except AttachmentError (Revision × Store) :=
  match s.advance r.document r.id r.body with
  | .error e => .error (.store e)
  | .ok (next, s) => (AttachmentRow.carry s.attachments r.sequence next.sequence).map fun table =>
      (next, s.withAttachments table)

end Vault

namespace Writing

/-! ## Tables and files -/

theorem run_documents {α : Type} (x : Transaction.Action α) (s : Store) (b : Blobs) :
    (documents x).run.run (s, b) =
      match x.run.run s with
      | (.error e, s) => (.error (.store e), s, b)
      | (.ok a, s) => (.ok a, s, b) := rfl

theorem run_files_of_error {α : Type} {f : Blobs → Except IoError α × Blobs} {s : Store} {b after : Blobs}
    {reason : IoError} (h : f b = (.error reason, after)) :
    (files f).run.run (s, b) = (.error (.io reason), s, after) := by
  show files f (s, b) = _
  rw [files, h]

theorem run_files_of_ok {α : Type} {f : Blobs → Except IoError α × Blobs} {s : Store} {b after : Blobs} {a : α}
    (h : f b = (.ok a, after)) : (files f).run.run (s, b) = (.ok a, s, after) := by
  show files f (s, b) = _
  rw [files, h]

variable (s : Store) (b : Blobs)

/-! ## Rows -/

theorem run_deleteRow (sequence : UInt64) (name : String) :
    (deleteRow sequence name).run.run (s, b) =
      (.ok (s.attachments.get? (key sequence name)).isSome,
        s.withAttachments (s.attachments.erase (key sequence name)), b) := rfl

theorem run_deleteRows (sequence : UInt64) (names : List String) :
    (deleteRows sequence names).run.run (s, b) =
      (.ok (drop s.attachments sequence names).2, s.withAttachments (drop s.attachments sequence names).1, b) := by
  induction names generalizing s with
  | nil => rfl
  | cons name rest ih =>
    rw [deleteRows, run_bind_of_ok (run_deleteRow s b sequence name), run_bind_of_ok (ih _)]
    rfl

theorem run_copyRows (target : UInt64) (rows : List AttachmentRow) :
    (copyRows target rows).run.run (s, b) =
      (.ok (), s.withAttachments (rows.foldl (fun table row => put table { row with sequence := target }) s.attachments),
        b) := by
  induction rows generalizing s with
  | nil => rfl
  | cons row rest ih => exact ih _

theorem run_carryForward (source target : UInt64) :
    (carryForward source target).run.run (s, b) =
      match AttachmentRow.carry s.attachments source target with
      | .error e => (.error e, s, b)
      | .ok table => (.ok (), s.withAttachments table, b) := by
  have hrows : table.run.run (s, b) = (.ok s.attachments, s, b) := rfl
  rw [carryForward, run_bind_of_ok hrows, AttachmentRow.carry]
  cases hread : AttachmentRow.rowsAt s.attachments source with
  | error e => rfl
  | ok rows => exact run_copyRows s b target rows

/-! ## Attachments -/

theorem exists_run_settle (row : AttachmentRow) (staged : Staged) :
    ∃ table, (settle row staged).run.run (s, b) =
      match Vault.settle b s.attachments row staged with
      | (.error e, b) => (.error e, s.withAttachments table, b)
      | (.ok (saved, table), b) => (.ok saved, s.withAttachments table, b) := by
  have hdelete := run_deleteRow s b row.sequence row.filename
  -- the row is written where one was deleted
  have hput : put (s.attachments.erase (key row.sequence row.filename)) row = put s.attachments row :=
    Table.insert_erase _ _ _
  rw [settle, run_bind_of_ok hdelete, Vault.settle, insertRow, ← hput]
  cases row.fault? with
  | some fault => exact ⟨_, run_bind_of_error rfl _⟩
  | none =>
    have hinsert : (tryCatch (modifyTable (put · row)) fun e => do
        files fun b => (.ok (), b.discard staged)
        throw e).run.run (s.withAttachments (s.attachments.erase (key row.sequence row.filename)), b) =
        (.ok (), s.withAttachments (put (s.attachments.erase (key row.sequence row.filename)) row), b) := rfl
    refine ⟨put (s.attachments.erase (key row.sequence row.filename)) row, (run_bind_of_ok hinsert _).trans ?_⟩
    dsimp only
    cases hcommit : b.commit staged with
    | mk answer after =>
      cases answer with
      | error reason => exact run_bind_of_error (run_files_of_error hcommit) _
      | ok path => exact run_bind_of_ok (run_files_of_ok hcommit) _

/-- Linking in a transaction is linking. If it fails the table may be any one, since it is dropped. -/
theorem exists_run_link (opener : FileOpener) (r : Revision) (a : Attachment) :
    ∃ table, (link opener r a).run.run (s, b) =
      match Vault.link opener b s.attachments r a with
      | (.error e, b) => (.error e, s.withAttachments table, b)
      | (.ok (saved, table), b) => (.ok saved, s.withAttachments table, b) := by
  rw [link, Vault.link]
  cases harrivals : a.source.arrivals opener b with
  | error reason => exact ⟨s.attachments, run_bind_of_error (run_files_of_error (by rw [harrivals])) _⟩
  | ok arrivals =>
    rw [run_bind_of_ok (run_files_of_ok (by rw [harrivals]))]
    dsimp only
    cases hstage : b.stage .full arrivals with
    | mk answer after =>
      cases answer with
      | error reason => exact ⟨s.attachments, run_bind_of_error (run_files_of_error hstage) _⟩
      | ok staged =>
        rw [run_bind_of_ok (run_files_of_ok hstage)]
        exact exists_run_settle s after _ staged

theorem exists_run_linkAll (opener : FileOpener) (r : Revision) (attachments : List Attachment) :
    ∃ table, (linkAll opener r attachments).run.run (s, b) =
      match Vault.linkAll opener b s.attachments r attachments with
      | (.error e, b) => (.error e, s.withAttachments table, b)
      | (.ok table, b) => (.ok (), s.withAttachments table, b) := by
  induction attachments generalizing s b with
  | nil => exact ⟨s.attachments, rfl⟩
  | cons a rest ih =>
    obtain ⟨table, hrun⟩ := exists_run_link s b opener r a
    rw [linkAll, Vault.linkAll]
    cases hlink : Vault.link opener b s.attachments r a with
    | mk answer after =>
      rw [hlink] at hrun
      cases answer with
      | error e => exact ⟨table, run_bind_of_error hrun _⟩
      | ok linked =>
        rw [run_bind_of_ok hrun]
        exact ih _ _

/-- Following in a transaction is following. If it fails the tables may be any ones. -/
theorem exists_run_follow (r : Revision) :
    ∃ after, (follow r).run.run (s, b) =
      match Vault.succeed s r with
      | .error e => (.error e, after, b)
      | .ok (next, s) => (.ok next, s, b) := by
  have hadvance : (documents (Transaction.Action.advance ⟨r.document, r.id, r.body⟩)).run.run (s, b) = _ :=
    run_documents _ s b
  rw [Transaction.Action.run_advance] at hadvance
  rw [follow, Vault.succeed]
  cases hnext : s.advance r.document r.id r.body with
  | error e =>
    rw [hnext] at hadvance
    exact ⟨s, run_bind_of_error hadvance _⟩
  | ok result =>
    obtain ⟨next, after⟩ := result
    rw [hnext] at hadvance
    have hcarry := run_carryForward after b r.sequence next.sequence
    rw [run_bind_of_ok hadvance]
    dsimp only
    cases htable : AttachmentRow.carry after.attachments r.sequence next.sequence with
    | error e =>
      rw [htable] at hcarry
      exact ⟨after, run_bind_of_error hcarry _⟩
    | ok table =>
      rw [htable] at hcarry
      exact ⟨after, run_bind_of_ok hcarry _⟩

end Writing

namespace Vault

/-! ## Changes of a vault -/

variable (opener : FileOpener) (v : Vault) (r : Revision)

/-- A failure drops the tables of the transaction and keeps the directory. -/
theorem transact_of_open {α : Type} (work : Writing (α × Ending)) (hopen : ¬ v.poisoned) :
    v.transact work =
      match work.run.run (v.store, v.blobs) with
      | (.error e, _, blobs) => (.error e, { v with blobs })
      | (.ok (a, ending), working, blobs) =>
        (.ok a, { v with store := Transaction.finish ⟨v.store, working⟩ ending, blobs }) :=
  if_neg hopen

theorem add_eq_link (a : Attachment) :
    add opener v r a =
      if v.poisoned then (.error .lockPoisoned, v)
      else
        match link opener v.blobs v.store.attachments r a with
        | (.error e, blobs) => (.error e, { v with blobs })
        | (.ok (saved, table), blobs) => (.ok saved, { v with store := v.store.withAttachments table, blobs }) := by
  by_cases hpoisoned : v.poisoned
  · rw [if_pos hpoisoned]
    exact if_pos hpoisoned
  · obtain ⟨table, hrun⟩ := Writing.exists_run_link v.store v.blobs opener r a
    rw [if_neg hpoisoned, add, transact_of_open v _ hpoisoned]
    cases hlink : link opener v.blobs v.store.attachments r a with
    | mk answer after =>
      rw [hlink] at hrun
      cases answer with
      | error e => rw [run_bind_of_error hrun]
      | ok linked =>
        rw [run_bind_of_ok hrun]
        rfl

theorem addAll_eq_linkAll (attachments : List Attachment) :
    addAll opener v r attachments =
      if v.poisoned then (.error .lockPoisoned, v)
      else
        match succeed v.store r with
        | .error e => (.error e, v)
        | .ok (next, s) =>
          match linkAll opener v.blobs s.attachments next attachments with
          | (.error e, blobs) => (.error e, { v with blobs })
          | (.ok table, blobs) => (.ok next, { v with store := s.withAttachments table, blobs }) := by
  by_cases hpoisoned : v.poisoned
  · rw [if_pos hpoisoned]
    exact if_pos hpoisoned
  · obtain ⟨failed, hfollow⟩ := Writing.exists_run_follow v.store v.blobs r
    rw [if_neg hpoisoned, addAll, transact_of_open v _ hpoisoned]
    cases hnext : succeed v.store r with
    | error e =>
      rw [hnext] at hfollow
      rw [run_bind_of_error hfollow]
    | ok followed =>
      obtain ⟨next, s⟩ := followed
      rw [hnext] at hfollow
      obtain ⟨table, hrun⟩ := Writing.exists_run_linkAll s v.blobs opener next attachments
      rw [run_bind_of_ok hfollow]
      dsimp only
      cases hlink : linkAll opener v.blobs s.attachments next attachments with
      | mk answer after =>
        rw [hlink] at hrun
        cases answer with
        | error e => rw [run_bind_of_error hrun]
        | ok table =>
          rw [run_bind_of_ok hrun]
          rfl

theorem remove_eq_drop (names : List String) :
    remove v r names =
      if v.poisoned then (.error .lockPoisoned, v)
      else
        match drop v.store.attachments r.sequence names with
        | (_, 0) => (.ok r, v)
        | (table, _ + 1) =>
          match succeed (v.store.withAttachments table) r with
          | .error e => (.error e, v)
          | .ok (next, store) => (.ok next, { v with store }) := by
  by_cases hpoisoned : v.poisoned
  · rw [if_pos hpoisoned]
    exact if_pos hpoisoned
  · have hdelete := Writing.run_deleteRows v.store v.blobs r.sequence names
    rw [if_neg hpoisoned, remove, transact_of_open v _ hpoisoned, run_bind_of_ok hdelete]
    cases drop v.store.attachments r.sequence names with
    | mk table count =>
      cases count with
      | zero => rfl
      | succ count =>
        obtain ⟨failed, hfollow⟩ := Writing.exists_run_follow (v.store.withAttachments table) v.blobs r
        dsimp only
        rw [if_neg (Nat.succ_ne_zero count)]
        cases hnext : succeed (v.store.withAttachments table) r with
        | error e =>
          rw [hnext] at hfollow
          rw [run_bind_of_error hfollow]
        | ok followed =>
          rw [hnext] at hfollow
          rw [run_bind_of_ok hfollow]
          rfl

end Vault

end Docket
