import Docket.Proofs.Vault.Ownership

/-!
# The table of rows and its two lookups

Rows come into the table in two ways: a new one is checked before it is written, and one that is carried to another
revision is not checked again. Whatever revisions calls are given, every row stands under its own key and keeps the
rules, so that looking up a name and listing all names agree.

* `AttachmentRow.Proper`: the rules of a row.
* `AttachmentRow.AllProper`: every row stands under its own key and keeps them.
* `Operation.allProper_perform`: every call keeps a table so.
* `Vault.attachments_spec`: what is listed, and that a lookup finds it there.
* **`Desk.lookups_run`**: both over any run from an empty store.
-/

namespace Docket

/-! ## Proper rows -/

namespace AttachmentRow

/-- The rules of a row: it has a name and a type, and its content is held as it is. -/
structure Proper (row : AttachmentRow) : Prop where
  named : row.filename ≠ ""
  typed : row.mediaType ≠ ""
  plain : row.encoding = .plain
  length_eq : row.length = row.encodedLength

theorem Proper.moved {row : AttachmentRow} (h : row.Proper) (sequence : UInt64) : (row.moved sequence).Proper :=
  ⟨h.named, h.typed, h.plain, h.length_eq⟩

theorem fault?_eq_none_iff {row : AttachmentRow} : row.fault? = none ↔ row.filename ≠ "" ∧ row.mediaType ≠ "" := by
  unfold fault?
  by_cases hname : row.filename = ""
  · simp [hname]
  · by_cases htype : row.mediaType = "" <;> simp [hname, htype]

/-- Every row stands under its own key and is proper. -/
def AllProper (table : AttachmentTable) : Prop :=
  ∀ e ∈ table.entries, ∃ row : AttachmentRow, e = (key row.sequence row.filename, row.text) ∧ row.Proper

variable {table : AttachmentTable}

theorem AllProper.keyed (h : AllProper table) : Keyed table := fun e he => (h e he).imp fun _ => And.left

theorem AllProper.put (h : AllProper table) {row : AttachmentRow} (hrow : row.Proper) : AllProper (put table row) :=
  fun e he => by
    rcases Table.mem_entries_insert.1 he with rfl | ⟨-, he⟩
    · exact ⟨row, rfl, hrow⟩
    · exact h e he

theorem AllProper.drop (h : AllProper table) (sequence : UInt64) (names : List String) :
    AllProper (drop table sequence names).1 := by
  induction names generalizing table with
  | nil => exact h
  | cons name rest ih => exact ih fun e he => h e (Table.mem_entries_erase.1 he).2

theorem AllProper.of_sheet (h : AllProper table) {sequence : UInt64} {name : String} {row : AttachmentRow}
    (hsheet : sheet table sequence name = some row) : row.Proper := by
  obtain ⟨-, -, hget⟩ := h.keyed.sheet_eq_some_iff.1 hsheet
  obtain ⟨stored, hentry, hproper⟩ := h _ (Table.get?_eq_some_iff.1 hget)
  have hstored : row.moved sequence = stored := text_injective (Prod.mk.inj hentry).2
  rw [← hstored] at hproper
  exact hproper.moved row.sequence

theorem AllProper.foldl_put {rows : List AttachmentRow} (hrows : ∀ row ∈ rows, row.Proper) {target : UInt64}
    (h : AllProper table) :
    AllProper (rows.foldl (fun table row => AttachmentRow.put table { row with sequence := target }) table) := by
  induction rows generalizing table with
  | nil => exact h
  | cons row rest ih =>
    rw [List.forall_mem_cons] at hrows
    exact ih hrows.2 (h.put (hrows.1.moved target))

/-- A row that is carried is not checked again, and it keeps the rules that it kept before. -/
theorem AllProper.carry (h : AllProper table) {source target : UInt64} {carried : AttachmentTable}
    (hcarry : carry table source target = .ok carried) : AllProper carried := by
  obtain ⟨rows, hrows, hlists⟩ := rowsAt_spec h.keyed source
  -- what is carried was read from the table, where it kept the rules
  have hproper : ∀ row ∈ rows.map (·.moved source), row.Proper := List.forall_mem_map.2 fun row hrow =>
    (h.of_sheet ((hlists.mem_iff row).1 hrow)).moved source
  rw [AttachmentRow.carry, hrows] at hcarry
  cases hcarry
  exact h.foldl_put hproper

end AttachmentRow

open AttachmentRow (Keyed AllProper sheet rowAt ofText? key)

/-! ## Calls -/

namespace Vault

theorem proper_rowFor {r : Revision} {a : Attachment} {content : Bytes} (h : (rowFor r a content).fault? = none) :
    (rowFor r a content).Proper := by
  obtain ⟨hname, htype⟩ := AttachmentRow.fault?_eq_none_iff.1 h
  exact ⟨hname, htype, rfl, rfl⟩

theorem Linked.allProper {opener : FileOpener} {r : Revision} {b after : Blobs} {table linked : AttachmentTable}
    {attachments : List Attachment} {contents : List Bytes}
    (h : Linked opener r b table attachments contents linked after) (htable : AllProper table) : AllProper linked := by
  induction h with
  | nil => exact htable
  | cons hcontent hlink _ ih =>
    obtain ⟨content, -, hfault, -, -, rfl⟩ := link_eq_ok hlink
    exact ih (htable.put (proper_rowFor hfault))

theorem allProper_succeed {s t : Store} {r next : Revision} (hsucceed : succeed s r = .ok (next, t))
    (h : AllProper s.attachments) : AllProper t.attachments := by
  obtain ⟨-, table, hcarry, rfl⟩ := of_succeed_eq_ok hsucceed
  exact h.carry hcarry

variable {v : Vault} (h : AllProper v.store.attachments) (r : Revision)

include h

theorem allProper_add (opener : FileOpener) (a : Attachment) :
    AllProper (v.add opener r a).2.store.attachments := by
  rcases v.add_cases opener r a with ⟨e, after, -, hadd⟩ | ⟨content, after, hfault, -, hadd⟩
  · rw [hadd]
    exact h
  · rw [hadd]
    exact h.put (proper_rowFor hfault)

theorem allProper_addAll (opener : FileOpener) (attachments : List Attachment) :
    AllProper (v.addAll opener r attachments).2.store.attachments := by
  rcases v.addAll_cases opener r attachments with
    ⟨e, after, contents, -, hadd⟩ | ⟨next, s, contents, table, after, hsucceed, hlinked, hadd⟩
  · rw [hadd]
    exact h
  · rw [hadd]
    exact hlinked.allProper (allProper_succeed hsucceed h)

theorem allProper_remove (names : List String) : AllProper (v.remove r names).2.store.attachments := by
  have hdrop := h.drop r.sequence names
  rw [remove_eq_drop]
  split
  · exact h
  · split
    · exact h
    · next dropped count hresult =>
      rw [hresult] at hdrop
      split
      · exact h
      · next hsucceed => exact allProper_succeed hsucceed hdrop

end Vault

/-- **Every call keeps all rows proper**, whatever revision it is given. -/
theorem Operation.allProper_perform {d : Desk} (h : AllProper d.vault.store.attachments) (opener : FileOpener)
    (op : Operation) : AllProper (op.perform opener d).2.vault.store.attachments := by
  have hfollowed : ∀ result : Except AttachmentError Revision × Vault,
      (d.followed result).2.vault.store = result.2.store := fun
    | (.ok _, _) => rfl
    | (.error _, _) => rfl
  cases op with
  | add r a => exact Vault.allProper_add h r opener a
  | addAll r attachments =>
    rw [perform, hfollowed]
    exact Vault.allProper_addAll h r opener attachments
  | remove r names =>
    rw [perform]
    split
    · exact h
    · rw [hfollowed]
      exact Vault.allProper_remove h r names
  | _ =>
    rw [attachments_perform (by exact trivial)]
    exact h

/-! ## Lookups -/

theorem AttachmentRow.Keyed.rowAt_eq {table : AttachmentTable} (h : Keyed table) (sequence : UInt64) (name : String) :
    rowAt table sequence name = .ok ((sheet table sequence name).map (·.moved sequence)) := by
  unfold rowAt sheet
  cases hget : table.get? (key sequence name) with
  | none => rfl
  | some text =>
    obtain ⟨row, rfl, -, rfl⟩ := h.get?_eq_some hget
    simp only [ofText?_text, Option.bind_some, Option.map_some, moved_moved, moved_sequence]

theorem AttachmentRow.Keyed.find?_eq {table : AttachmentTable} (h : Keyed table) {sequence : UInt64}
    {rows : List AttachmentRow} (hlists : (sheet table sequence).Lists rows) (name : String) :
    rows.find? (·.filename = name) = sheet table sequence name := by
  cases hfind : rows.find? (·.filename = name) with
  | some row =>
    have hname : row.filename = name := by simpa using List.find?_some hfind
    rw [← hname, (hlists.mem_iff row).1 (List.mem_of_find?_eq_some hfind)]
  | none =>
    cases hsheet : sheet table sequence name with
    | none => rfl
    | some row =>
      obtain ⟨-, rfl, -⟩ := h.sheet_eq_some_iff.1 hsheet
      exact absurd (List.find?_eq_none.1 hfind row ((hlists.mem_iff row).2 hsheet)) (by simp)

theorem AttachmentRow.Keyed.mem_map_moved_iff {table : AttachmentTable} (h : Keyed table) {sequence : UInt64}
    {rows : List AttachmentRow} (hlists : (sheet table sequence).Lists rows) (row : AttachmentRow) :
    row ∈ rows.map (·.moved sequence) ↔ row.sequence = sequence ∧ ∃ e ∈ table.entries, ofText? e.2 = some row := by
  rw [List.mem_map]
  constructor
  · rintro ⟨listed, hlisted, rfl⟩
    obtain ⟨-, -, hget⟩ := h.sheet_eq_some_iff.1 ((hlists.mem_iff listed).1 hlisted)
    exact ⟨rfl, _, Table.get?_eq_some_iff.1 hget, ofText?_text _⟩
  · rintro ⟨rfl, e, he, hread⟩
    obtain ⟨stored, rfl⟩ := h e he
    rw [ofText?_text, Option.some.injEq] at hread
    subst hread
    refine ⟨stored.moved 0, (hlists.mem_iff _).2 ?_, rfl⟩
    exact h.sheet_eq_some_iff.2 ⟨rfl, rfl, Table.get?_eq_some_iff.2 he⟩

/-- **What is listed are the rows of the revision in the order of their names, and a lookup under a name gives what is
listed with this name.** -/
theorem Vault.attachments_spec {v : Vault} (h : Keyed v.store.attachments) (r : Revision) :
    ∃ rows : List AttachmentRow, v.attachments r = .ok (rows.map v.resolve) ∧
      (rows.Pairwise fun a b => compare (Text.bytes a.filename) (Text.bytes b.filename) = .lt) ∧
      (∀ row, row ∈ rows ↔
        row.sequence = r.sequence ∧ ∃ e ∈ v.store.attachments.entries, ofText? e.2 = some row) ∧
      ∀ name, v.attachment r name = .ok ((rows.map v.resolve).find? (·.row.filename = name)) := by
  obtain ⟨rows, hrows, hlists⟩ := AttachmentRow.rowsAt_spec h r.sequence
  refine ⟨rows.map (·.moved r.sequence), ?_, List.pairwise_map.2 hlists.ascending, h.mem_map_moved_iff hlists,
    fun name => ?_⟩
  · rw [attachments, hrows]
    rfl
  · rw [attachment, h.rowAt_eq, ← h.find?_eq hlists, List.find?_map, List.find?_map]
    rfl

/-! ## Runs -/

namespace Desk

theorem allProper_run {d : Desk} (h : AllProper d.vault.store.attachments) (calls : List (FileOpener × Operation)) :
    AllProper (d.run calls).vault.store.attachments := by
  induction calls generalizing d with
  | nil => exact h
  | cons call rest ih => exact ih (Operation.allProper_perform h call.1 call.2)

/-- **Over any run from an empty store** every entry has the key of its row, and the row is proper. Hence for every
revision, stored or not, the listing has exactly the rows of its place in the order of their names, and a lookup under
a name gives what is listed with this name. -/
theorem lookups_run (d : Desk) (hempty : d.vault.store = .empty) (calls : List (FileOpener × Operation)) :
    let v := (d.run calls).vault
    (∀ e ∈ v.store.attachments.entries, ∃ row : AttachmentRow, ofText? e.2 = some row ∧
      e.1 = Bytes.bigEndian row.sequence.toNat ++ Text.bytes row.filename ∧ row.Proper) ∧
    ∀ r : Revision, ∃ rows : List AttachmentRow, v.attachments r = .ok (rows.map v.resolve) ∧
      (rows.Pairwise fun a b => compare (Text.bytes a.filename) (Text.bytes b.filename) = .lt) ∧
      (∀ row, row ∈ rows ↔
        row.sequence = r.sequence ∧ ∃ e ∈ v.store.attachments.entries, ofText? e.2 = some row) ∧
      ∀ name, v.attachment r name = .ok ((rows.map v.resolve).find? (·.row.filename = name)) := by
  have hstart : AllProper d.vault.store.attachments := by
    rw [hempty]
    exact fun _ he => absurd he List.not_mem_nil
  have hproper := allProper_run hstart calls
  refine ⟨fun e he => ?_, Vault.attachments_spec hproper.keyed⟩
  obtain ⟨row, rfl, hrow⟩ := hproper e he
  exact ⟨row, AttachmentRow.ofText?_text row, rfl, hrow⟩

/-! ## A document with one attachment -/

/-- The desk with the row of a letter. -/
def withLetter (blobs : Blobs) : Desk :=
  ⟨⟨(Store.empty.append firstNote).withAttachments (AttachmentRow.put .empty (Vault.rowFor firstNote letter [120])),
    blobs, false⟩, []⟩

theorem exists_run_lettered :
    ∃ blobs, Desk.bare.vault.blobs.Adds blobs [[120]] ∧ Desk.bare.run lettered = withLetter blobs := by
  have hcontent : letter.source.content? Vault.noFiles Desk.afterFirst.vault.blobs = some [120] := rfl
  have hfault : (Vault.rowFor firstNote letter [120]).fault? = none := rfl
  obtain ⟨blobs, hadds, hlink⟩ := Vault.link_of_placed Desk.afterFirst.vault.store.attachments hcontent hfault nofun
  have hopen : ¬ Desk.afterFirst.vault.poisoned = true := Bool.false_ne_true
  refine ⟨blobs, hadds, ?_⟩
  rw [lettered, run, perform_first, run, Operation.perform, Vault.add_eq_link, if_neg hopen, hlink]
  rfl

theorem eq_singleton_of_ascending {rows : List AttachmentRow} {only : AttachmentRow}
    (hascending : rows.Pairwise fun a b => compare (Text.bytes a.filename) (Text.bytes b.filename) = .lt)
    (hmem : ∀ row, row ∈ rows ↔ row = only) : rows = [only] := by
  have hnodup : rows.Nodup := hascending.imp fun hlt he => by
    rw [he] at hlt
    exact Table.not_lt_self _ hlt
  refine List.perm_singleton.1 ((List.perm_ext_iff_of_nodup hnodup (List.pairwise_singleton _ only)).2 fun row => ?_)
  rw [hmem, List.mem_singleton]

theorem lookups_run_lettered : Desk.bare.vault.store = .empty ∧
    ∃ saved, saved.row = Vault.rowFor firstNote letter [120] ∧
      (Desk.bare.run lettered).vault.attachments firstNote = .ok [saved] ∧
      (Desk.bare.run lettered).vault.attachment firstNote "n" = .ok (some saved) ∧
      (Desk.bare.run lettered).vault.attachment firstNote "" = .ok none := by
  obtain ⟨-, hlookups⟩ := lookups_run Desk.bare rfl lettered
  obtain ⟨rows, hlisted, hascending, hmem, hlookup⟩ := hlookups firstNote
  obtain ⟨blobs, -, hrun⟩ := exists_run_lettered
  have hentries : (Desk.bare.run lettered).vault.store.attachments.entries =
      [(key firstNote.sequence "n", (Vault.rowFor firstNote letter [120]).text)] := by
    rw [hrun]
    rfl
  have honly : rows = [Vault.rowFor firstNote letter [120]] := by
    refine eq_singleton_of_ascending hascending fun row => (hmem row).trans ?_
    rw [hentries]
    simp only [List.mem_singleton, exists_eq_left, AttachmentRow.ofText?_text, Option.some.injEq]
    exact ⟨fun h => h.2.symm, fun h => ⟨h ▸ rfl, h.symm⟩⟩
  subst honly
  exact ⟨rfl, _, rfl, hlisted, hlookup "n", hlookup ""⟩

end Desk

end Docket
