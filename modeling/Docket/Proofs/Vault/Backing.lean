import Docket.Proofs.Attachment.Codec
import Docket.Proofs.Attachment.Contents
import Docket.Proofs.Store.Growth
import Docket.Proofs.Vault.Collection

/-!
# Rows with their content

A row is backed if the directory holds a file under its key and its lengths are those of supplied content with
that digest. Whatever is called, every row of the table stays backed: rows are only written once their content
is in place, only carried together with their key, and a sweep spares the keys of all rows.

* `AttachmentRow.Backed`, `Desk.Safe`: a row with its content, and a desk on which all rows are backed.
* `Operation.supplied`: the contents that a call takes in.
* **`Desk.Safe.perform`**: a call keeps a desk safe.
* `Desk.Safe.attachment`, `Desk.Safe.attachments`: what is listed on a safe desk can be read.
-/

namespace Docket

variable {S : Bytes → Prop}

/-! ## Rows -/

/-- The directory holds a file under the key of a row, and the lengths of the row are those of supplied content
with that digest. -/
structure AttachmentRow.Backed (S : Bytes → Prop) (b : Blobs) (row : AttachmentRow) : Prop where
  file : ∃ content, b.HasFile row.content content
  measured : ∃ content, S content ∧ ContentKey.digest content = row.content ∧
    row.length = UInt64.ofNat content.length ∧ row.encodedLength = UInt64.ofNat content.length

/-- Every row of a table is backed. -/
def AllBacked (S : Bytes → Prop) (b : Blobs) (table : AttachmentTable) : Prop :=
  ∀ e ∈ table.entries, ∃ row : AttachmentRow, e.2 = row.text ∧ row.Backed S b

namespace AttachmentRow

theorem Backed.mono {b after : Blobs} {row : AttachmentRow} (h : row.Backed S b) (hkeeps : b.Keeps after) :
    row.Backed S after := by
  obtain ⟨content, hfile⟩ := h.file
  exact ⟨⟨content, hkeeps _ _ hfile⟩, h.measured⟩

theorem Backed.toSequence {b : Blobs} {row : AttachmentRow} (h : row.Backed S b) (sequence : UInt64) :
    Backed S b { row with sequence } := ⟨h.file, h.measured⟩

end AttachmentRow

open AttachmentRow

theorem AllBacked.mono {b after : Blobs} {table : AttachmentTable} (h : AllBacked S b table)
    (hkeeps : b.Keeps after) : AllBacked S after table := fun e he => by
  obtain ⟨row, htext, hrow⟩ := h e he
  exact ⟨row, htext, hrow.mono hkeeps⟩

theorem AllBacked.put {b : Blobs} {table : AttachmentTable} (h : AllBacked S b table) {row : AttachmentRow}
    (hrow : row.Backed S b) : AllBacked S b (AttachmentRow.put table row) := fun e he => by
  rcases Table.mem_entries_insert.1 he with rfl | ⟨-, he⟩
  · exact ⟨row, rfl, hrow⟩
  · exact h e he

theorem readAll_backed {b : Blobs} {entries : List (Bytes × String)} {rows : List AttachmentRow}
    (h : ∀ e ∈ entries, ∃ row : AttachmentRow, e.2 = row.text ∧ row.Backed S b) (hrows : readAll entries = .ok rows) :
    ∀ row ∈ rows, row.Backed S b := by
  induction entries generalizing rows with
  | nil =>
    cases hrows
    exact fun _ hrow => absurd hrow List.not_mem_nil
  | cons e rest ih =>
    obtain ⟨key, text⟩ := e
    rw [List.forall_mem_cons] at h
    obtain ⟨⟨row, htext, hrow⟩, hrest⟩ := h
    have htext : text = row.text := htext
    rw [readAll, htext, ofText?_text] at hrows
    cases hread : readAll rest with
    | error e =>
      rw [hread] at hrows
      cases hrows
    | ok others =>
      rw [hread] at hrows
      cases hrows
      exact List.forall_mem_cons.2 ⟨hrow, ih hrest hread⟩

theorem exists_readAll {b : Blobs} {entries : List (Bytes × String)}
    (h : ∀ e ∈ entries, ∃ row : AttachmentRow, e.2 = row.text ∧ row.Backed S b) :
    ∃ rows, readAll entries = .ok rows ∧ ∀ e ∈ entries, ∃ row ∈ rows, e.2 = row.text := by
  induction entries with
  | nil => exact ⟨[], rfl, fun _ he => absurd he List.not_mem_nil⟩
  | cons e rest ih =>
    obtain ⟨key, text⟩ := e
    rw [List.forall_mem_cons] at h
    obtain ⟨⟨row, htext, -⟩, hrest⟩ := h
    have htext : text = row.text := htext
    obtain ⟨rows, hread, hmem⟩ := ih hrest
    refine ⟨row :: rows, ?_, List.forall_mem_cons.2 ⟨⟨row, List.mem_cons_self, htext⟩, fun e he => ?_⟩⟩
    · rw [readAll, htext, ofText?_text, hread]
      rfl
    · obtain ⟨other, hother, heq⟩ := hmem e he
      exact ⟨other, List.mem_cons_of_mem _ hother, heq⟩

theorem mem_of_mem_entriesAt {table : AttachmentTable} {sequence : UInt64} {e : Bytes × String}
    (h : e ∈ entriesAt table sequence) : e ∈ table.entries :=
  (List.dropWhile_sublist _).subset ((List.takeWhile_sublist _).subset h)

theorem AllBacked.foldl_put {b : Blobs} {rows : List AttachmentRow} (hrows : ∀ row ∈ rows, row.Backed S b)
    (target : UInt64) {table : AttachmentTable} (h : AllBacked S b table) :
    AllBacked S b
      (rows.foldl (fun table row => AttachmentRow.put table { row with sequence := target }) table) := by
  induction rows generalizing table with
  | nil => exact h
  | cons row rest ih =>
    rw [List.forall_mem_cons] at hrows
    exact ih hrows.2 (h.put (hrows.1.toSequence target))

theorem AllBacked.carry {b : Blobs} {table carried : AttachmentTable} (h : AllBacked S b table)
    {source target : UInt64} (hcarry : AttachmentRow.carry table source target = .ok carried) : AllBacked S b carried := by
  unfold AttachmentRow.carry rowsAt at hcarry
  cases hread : readAll (entriesAt table source) with
  | error e =>
    rw [hread] at hcarry
    cases hcarry
  | ok rows =>
    rw [hread] at hcarry
    cases hcarry
    exact h.foldl_put (readAll_backed (fun e he => h e (mem_of_mem_entriesAt he)) hread) target

theorem AllBacked.drop {b : Blobs} {table : AttachmentTable} (h : AllBacked S b table) (sequence : UInt64)
    (names : List String) : AllBacked S b (AttachmentRow.drop table sequence names).1 := by
  induction names generalizing table with
  | nil => exact h
  | cons name rest ih => exact ih fun e he => h e (Table.mem_entries_erase.1 he).2

/-! ## Supplied contents -/

/-- The content that comes out of a source, if all of it arrives. -/
def Source.content? (opener : FileOpener) (b : Blobs) (source : Source) : Option Bytes :=
  match source.arrivals opener b with
  | .error _ => none
  | .ok arrivals => Arrival.content? arrivals

/-- The contents of attachments that are linked in order, up to the first failure. -/
def Vault.supplied (opener : FileOpener) (b : Blobs) (table : AttachmentTable) (r : Revision) :
    List Attachment → List Bytes
  | [] => []
  | a :: rest =>
    (a.source.content? opener b).toList ++
      match link opener b table r a with
      | (.error _, _) => []
      | (.ok (_, table), b) => supplied opener b table r rest

/-- The contents that a call takes in. -/
def Operation.supplied (opener : FileOpener) (d : Desk) : Operation → List Bytes
  | .add _ a => (a.source.content? opener d.vault.blobs).toList
  | .addAll r attachments =>
    match Vault.succeed d.vault.store r with
    | .error _ => []
    | .ok (next, s) => Vault.supplied opener d.vault.blobs s.attachments next attachments
  | .stage _ arrivals => (Arrival.content? arrivals).toList
  | _ => []

/-! ## Linking -/

/-- A directory comes from another one: it stays sound, its files stay, and staged files stay genuine. -/
structure Blobs.Extends (S : Bytes → Prop) (b after : Blobs) : Prop where
  sound : b.Sound S → after.Sound S
  keeps : b.Keeps after
  genuine : ∀ s, b.Genuine S s → after.Genuine S s

namespace Blobs

theorem Extends.refl (b : Blobs) : Extends S b b := ⟨id, .refl b, fun _ => id⟩

theorem Extends.trans {b middle after : Blobs} (h : Extends S b middle) (h' : Extends S middle after) :
    Extends S b after :=
  ⟨fun hb => h'.sound (h.sound hb), h.keeps.trans h'.keeps, fun s hs => h'.genuine s (h.genuine s hs)⟩

theorem extends_withStaged (b : Blobs) (content : Bytes) : Extends S b (b.withStaged content) :=
  ⟨fun hb => hb.withStaged content, .refl b, fun _ hs => hs.withStaged content⟩

theorem extends_discard (b : Blobs) (s : Staged) : Extends S b (b.discard s) :=
  ⟨fun hb => hb.discard s, .refl b, fun _ hs => hs.discard s⟩

theorem extends_commit {b : Blobs} {s : Staged} (hs : b.Genuine S s) : Extends S b (b.commit s).2 :=
  ⟨fun hb => hb.commit hs, b.keeps_commit s, fun _ h => h.commit s⟩

end Blobs

namespace Vault

theorem settle_spec {b : Blobs} (hb : b.Sound S) {table : AttachmentTable} (htable : AllBacked S b table)
    {s : Staged} (hs : b.Genuine S s) (row : AttachmentRow) (hrow : row.content = s.key)
    (hmeasured : ∃ content, S content ∧ ContentKey.digest content = row.content ∧
      row.length = UInt64.ofNat content.length ∧ row.encodedLength = UInt64.ofNat content.length) :
    b.Extends S (settle b table row s).2 ∧
      ∀ saved linked, (settle b table row s).1 = .ok (saved, linked) → AllBacked S (settle b table row s).2 linked := by
  unfold settle
  split
  · exact ⟨b.extends_discard s, fun _ _ h => by cases h⟩
  · have hextends := Blobs.extends_commit hs
    split
    · next reason after hcommit =>
      rw [hcommit] at hextends
      exact ⟨hextends, fun _ _ h => by cases h⟩
    · next path after hcommit =>
      have hplaced : (b.commit s).1 = .ok path := by rw [hcommit]
      obtain ⟨content, hfile⟩ := hb.hasFile_commit hplaced
      rw [hcommit] at hextends hfile
      refine ⟨hextends, fun saved linked h => ?_⟩
      cases h
      exact (htable.mono hextends.keeps).put ⟨⟨content, by rw [hrow]; exact hfile⟩, hmeasured⟩

theorem link_spec {opener : FileOpener} {b : Blobs} (hb : b.Sound S) {table : AttachmentTable}
    (htable : AllBacked S b table) (r : Revision) {a : Attachment}
    (hS : ∀ content ∈ a.source.content? opener b, S content) :
    b.Extends S (link opener b table r a).2 ∧
      ∀ saved linked, (link opener b table r a).1 = .ok (saved, linked) →
        AllBacked S (link opener b table r a).2 linked := by
  unfold link
  unfold Source.content? at hS
  cases harrivals : a.source.arrivals opener b with
  | error reason => exact ⟨.refl b, fun _ _ h => by cases h⟩
  | ok arrivals =>
    rw [harrivals] at hS
    cases hcontent : Arrival.content? arrivals with
    | none =>
      obtain ⟨reason, hstage⟩ := b.stage_of_failed .full hcontent
      simp only [hstage]
      exact ⟨.refl b, fun _ _ h => by cases h⟩
    | some content =>
      have hS : S content := hS content hcontent
      simp only [b.stage_of_content .full hcontent]
      have hstaged := b.extends_withStaged (S := S) content
      obtain ⟨hextends, hlinked⟩ := settle_spec (hstaged.sound hb) (htable.mono hstaged.keeps)
        (Blobs.genuine_withStaged (b := b) hS) (rowOf r a ⟨b.next, .digest content, content.length⟩) rfl
        ⟨content, hS, rfl, rfl, rfl⟩
      exact ⟨hstaged.trans hextends, hlinked⟩

theorem linkAll_spec {opener : FileOpener} {b : Blobs} (hb : b.Sound S) {table : AttachmentTable}
    (htable : AllBacked S b table) (r : Revision) {attachments : List Attachment}
    (hS : ∀ content ∈ supplied opener b table r attachments, S content) :
    b.Extends S (linkAll opener b table r attachments).2 ∧
      ∀ linked, (linkAll opener b table r attachments).1 = .ok linked →
        AllBacked S (linkAll opener b table r attachments).2 linked := by
  induction attachments generalizing b table with
  | nil =>
    refine ⟨.refl b, fun linked h => ?_⟩
    cases h
    exact htable
  | cons a rest ih =>
    rw [supplied, List.forall_mem_append] at hS
    obtain ⟨hfirst, hrest⟩ := hS
    have hfirst : ∀ content ∈ a.source.content? opener b, S content :=
      fun content hcontent => hfirst content (Option.mem_toList.2 hcontent)
    obtain ⟨hextends, hlinked⟩ := link_spec hb htable r hfirst
    rw [linkAll]
    split
    · next e after hlink =>
      rw [hlink] at hextends
      exact ⟨hextends, fun _ h => by cases h⟩
    · next saved linked after hlink =>
      rw [hlink] at hextends hlinked hrest
      obtain ⟨hextends', hlinked'⟩ := ih (hextends.sound hb) (hlinked saved linked rfl) hrest
      exact ⟨hextends.trans hextends', hlinked'⟩

end Vault

/-! ## Calls -/

/-- All rows of a desk are backed, its directory is sound, and the files that are held are genuine. -/
structure Desk.Safe (S : Bytes → Prop) (d : Desk) : Prop where
  sound : d.vault.blobs.Sound S
  rows : AllBacked S d.vault.blobs d.vault.store.attachments
  held : ∀ s ∈ d.held, d.vault.blobs.Genuine S s

theorem Transaction.attachments_run (t : Transaction) (requests : List Transaction.Request) :
    (t.run requests).2.working.attachments = t.working.attachments := by
  induction requests generalizing t with
  | nil => rfl
  | cons request rest ih =>
    rw [run, advance_eq]
    cases hadvance : t.working.advance request.document request.parent request.body with
    | error e => exact ih t
    | ok result =>
      obtain ⟨r, working⟩ := result
      obtain ⟨-, rfl⟩ := Store.advance_eq_ok hadvance
      exact ih { t with working := t.working.append r }

namespace Vault

theorem attachments_succeed {s t : Store} {r next : Revision} (h : succeed s r = .ok (next, t)) {b : Blobs}
    (hs : AllBacked S b s.attachments) : AllBacked S b t.attachments := by
  obtain ⟨-, table, hcarry, rfl⟩ := of_succeed_eq_ok h
  exact hs.carry hcarry

end Vault

theorem Vault.read_resolve {v : Vault} {row : AttachmentRow} (hrow : row.Backed S v.blobs) :
    ∃ content, v.read (v.resolve row) = .ok content := by
  obtain ⟨content, hfile⟩ := hrow.file
  exact ⟨content, hfile.read_eq⟩

namespace Desk.Safe

variable {d : Desk} (h : d.Safe S)

include h

theorem withStore {store : Store} (hstore : store.attachments = d.vault.store.attachments) :
    (d.withStore store).Safe S := by
  refine ⟨h.sound, ?_, h.held⟩
  show AllBacked S d.vault.blobs store.attachments
  rw [hstore]
  exact h.rows

theorem written {result : Except StoreError (Revision × Store)}
    (hresult : ∀ r store, result = .ok (r, store) → store.attachments = d.vault.store.attachments) :
    (d.written result).2.Safe S := by
  cases result with
  | error e => exact h
  | ok result => exact h.withStore (hresult _ _ rfl)

/-- The directory extends and the rows are backed in it. -/
theorem extend {b : Blobs} (hextends : d.vault.blobs.Extends S b) {store : Store}
    (hrows : AllBacked S b store.attachments) :
    Safe S { d with vault := { d.vault with store, blobs := b } } :=
  ⟨hextends.sound h.sound, hrows, fun s hs => hextends.genuine s (h.held s hs)⟩

theorem add (opener : FileOpener) (r : Revision) {a : Attachment}
    (hS : ∀ content ∈ a.source.content? opener d.vault.blobs, S content) :
    Safe S { d with vault := (d.vault.add opener r a).2 } := by
  obtain ⟨hextends, hlinked⟩ := Vault.link_spec h.sound h.rows r hS
  rw [Vault.add_eq_link]
  split
  · exact h
  · split
    · next e blobs hlink =>
      rw [hlink] at hextends
      exact h.extend hextends (h.rows.mono hextends.keeps)
    · next saved table blobs hlink =>
      rw [hlink] at hextends hlinked
      exact h.extend hextends (hlinked saved table rfl)

theorem addAll (opener : FileOpener) (r : Revision) {attachments : List Attachment}
    (hS : ∀ content ∈ (Operation.addAll r attachments).supplied opener d, S content) :
    (d.followed (d.vault.addAll opener r attachments)).2.Safe S := by
  unfold Operation.supplied at hS
  rw [Vault.addAll_eq_linkAll]
  split
  · exact h
  · split
    · exact h
    · next next store hsucceed =>
      simp only [hsucceed] at hS
      obtain ⟨hextends, hlinked⟩ :=
        Vault.linkAll_spec h.sound (Vault.attachments_succeed hsucceed h.rows) next hS
      split
      · next e blobs hlink =>
        rw [hlink] at hextends
        exact h.extend hextends (h.rows.mono hextends.keeps)
      · next table blobs hlink =>
        rw [hlink] at hextends hlinked
        exact h.extend hextends (hlinked table rfl)

theorem remove (r : Revision) (names : List String) : (d.followed (d.vault.remove r names)).2.Safe S := by
  have hdrop := h.rows.drop r.sequence names
  rw [Vault.remove_eq_drop]
  split
  · exact h
  · split
    · exact h
    · next table n hdropped =>
      rw [hdropped] at hdrop
      split
      · exact h
      · next next store hsucceed =>
        exact h.extend (.refl _) (Vault.attachments_succeed hsucceed hdrop)

theorem collect : Safe S { d with vault := d.vault.collect.2 } := by
  obtain ⟨rows, hread, hmem⟩ := exists_readAll h.rows
  have hreferenced : d.vault.referenced = .ok (rows.map (·.content)) := by
    rw [Vault.referenced, hread]
    rfl
  rcases d.vault.collect_cases with ⟨e, hcollect⟩ | ⟨keys, hkeys, hcollect⟩
  · rw [hcollect]
    exact h
  · cases hreferenced.symm.trans hkeys
    rw [hcollect]
    refine ⟨h.sound.sweep _, fun e he => ?_, fun s hs => (h.held s hs).sweep _⟩
    obtain ⟨row, htext, hrow⟩ := h.rows e he
    obtain ⟨other, hother, htext'⟩ := hmem e he
    have heq : row = other := text_injective (htext.symm.trans htext')
    subst heq
    obtain ⟨content, hfile⟩ := hrow.file
    have hretained : decide (row.content ∈ rows.map (·.content)) = true :=
      decide_eq_true (List.mem_map_of_mem hother)
    exact ⟨row, htext, ⟨content, hfile.sweep hretained⟩, hrow.measured⟩

theorem create (document : String) (body : Json) : (d.written (d.vault.store.create document body)).2.Safe S :=
  h.written fun r store hresult => by
    obtain ⟨-, rfl⟩ := Store.create_eq_ok hresult
    rfl

theorem update (document : String) (parent : RevisionId) (body : Json) :
    (d.written (d.vault.store.advance document parent body)).2.Safe S :=
  h.written fun r store hresult => by
    obtain ⟨-, rfl⟩ := Store.advance_eq_ok hresult
    rfl

theorem release (s : Staged) : (d.release s).Safe S :=
  ⟨h.sound, h.rows, fun other hother => h.held other (List.mem_of_mem_filter hother)⟩

theorem withBlobs {b : Blobs} (hextends : d.vault.blobs.Extends S b) : (d.withBlobs b).Safe S :=
  h.extend hextends (h.rows.mono hextends.keeps)

theorem stage (appetite : Intake.Appetite) {arrivals : List Arrival}
    (hS : ∀ content ∈ Arrival.content? arrivals, S content) (opener : FileOpener) :
    ((Operation.stage appetite arrivals).perform opener d).2.Safe S := by
  rw [Operation.perform]
  cases hcontent : Arrival.content? arrivals with
  | none =>
    obtain ⟨reason, hstage⟩ := d.vault.blobs.stage_of_failed appetite hcontent
    rw [hstage]
    exact h
  | some content =>
    rw [d.vault.blobs.stage_of_content appetite hcontent]
    have hextends := d.vault.blobs.extends_withStaged (S := S) content
    obtain ⟨hsound, hrows, hheld⟩ := h.withBlobs hextends
    exact ⟨hsound, hrows, List.forall_mem_cons.2 ⟨Blobs.genuine_withStaged (hS content hcontent), hheld⟩⟩

/-- **A call keeps a desk safe**, whatever it answers, if what it takes in is supplied. -/
theorem perform (opener : FileOpener) (op : Operation) (hS : ∀ content ∈ op.supplied opener d, S content) :
    (op.perform opener d).2.Safe S := by
  cases op with
  | create document body => exact h.create document body
  | update document parent body => exact h.update document parent body
  | transact requests ending =>
    have hcommitted := (Transaction.start d.vault.store).committed_run requests
    rw [Operation.perform]
    cases ending with
    | commit => exact h.withStore ((Transaction.start d.vault.store).attachments_run requests)
    | abort => exact h.withStore (congrArg Store.attachments hcommitted)
    | drop => exact h.withStore (congrArg Store.attachments hcommitted)
  | add r a => exact h.add opener r fun content hcontent => hS content (Option.mem_toList.2 hcontent)
  | addAll r attachments => exact h.addAll opener r hS
  | remove r names =>
    rw [Operation.perform]
    split
    · exact h
    · exact h.remove r names
  | stage appetite arrivals =>
    exact h.stage appetite (fun content hcontent => hS content (Option.mem_toList.2 hcontent)) opener
  | place ticket =>
    rw [Operation.perform]
    split
    · next s hs =>
      have hheld : d.vault.blobs.Genuine S s := h.held s (List.mem_of_find?_eq_some hs)
      exact (h.release s).withBlobs (Blobs.extends_commit hheld)
    · exact h
  | discard ticket =>
    rw [Operation.perform]
    split
    · next s hs => exact (h.release s).withBlobs (Blobs.extends_discard _ s)
    · exact h
  | collect => exact h.collect

/-! ## Reading -/

theorem attachment (r : Revision) (name : String) :
    ∃ found, d.vault.attachment r name = .ok found ∧ ∀ a ∈ found, ∃ content, d.vault.read a = .ok content := by
  rw [Vault.attachment, rowAt]
  cases hget : d.vault.store.attachments.get? (key r.sequence name) with
  | none => exact ⟨none, rfl, fun _ ha => by cases ha⟩
  | some text =>
    rw [Table.get?_eq_some_iff] at hget
    obtain ⟨row, htext, hrow⟩ := h.rows _ hget
    have htext : text = row.text := htext
    simp only [htext, ofText?_text]
    refine ⟨some (d.vault.resolve row), rfl, fun a ha => ?_⟩
    cases ha
    exact Vault.read_resolve hrow

theorem attachments (r : Revision) :
    ∃ found, d.vault.attachments r = .ok found ∧ ∀ a ∈ found, ∃ content, d.vault.read a = .ok content := by
  have hentries : ∀ e ∈ entriesAt d.vault.store.attachments r.sequence,
      ∃ row : AttachmentRow, e.2 = row.text ∧ row.Backed S d.vault.blobs :=
    fun e he => h.rows e (mem_of_mem_entriesAt he)
  obtain ⟨rows, hread, -⟩ := exists_readAll hentries
  have hbacked := readAll_backed hentries hread
  refine ⟨rows.map d.vault.resolve, ?_, fun a ha => ?_⟩
  · rw [Vault.attachments, rowsAt, hread]
    rfl
  · obtain ⟨row, hrow, rfl⟩ := List.mem_map.1 ha
    exact Vault.read_resolve (hbacked row hrow)

end Desk.Safe

end Docket
