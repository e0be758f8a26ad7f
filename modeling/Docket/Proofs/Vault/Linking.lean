import Docket.Proofs.Vault.Backing

/-!
# What linking does

An attachment is linked with the content that comes out of its source, or the directory stays as it was. All
that linking adds to the directory are files with these contents under the names of their keys.

* `Blobs.Adds`: a directory with new files of given contents.
* `Vault.rowFor`: the row of an attachment with its content.
* **`Vault.link_cases`**: what linking an attachment can do.
* `Vault.Linked`: attachments that are linked in order, with their contents.
* `Vault.linkAll_cases`: linking goes through all attachments, or up to one that fails.
* `Vault.add_cases`, `Vault.addAll_cases`: what the calls that link can do.
-/

namespace Docket

namespace Blobs

/-! ## New files -/

/-- The tickets that are still to be handed out belong to no staged file. -/
def Fresh (b : Blobs) : Prop := ∀ ticket, b.next ≤ ticket → b.staging.get? ticket = none

/-- A directory keeps all entries of another one, and has besides them only files of these contents. The staged
files are the same. -/
structure Adds (b after : Blobs) (contents : List Bytes) : Prop where
  kept : ∀ name node, b.entries.get? name = some node → after.entries.get? name = some node
  new : ∀ name node, after.entries.get? name = some node → b.entries.get? name = some node ∨
    ∃ content ∈ contents, name = (ContentKey.digest content).hex ∧ node = .file content
  staging : b.Fresh → after.staging = b.staging ∧ b.next ≤ after.next

theorem Adds.refl (b : Blobs) : b.Adds b [] := ⟨fun _ _ => id, fun _ _ => .inl, fun _ => ⟨rfl, Nat.le_refl _⟩⟩

theorem Adds.trans {b middle after : Blobs} {xs ys : List Bytes} (h : b.Adds middle xs)
    (h' : middle.Adds after ys) : b.Adds after (xs ++ ys) where
  kept name node hnode := h'.kept name node (h.kept name node hnode)
  new name node hnode := by
    rcases h'.new name node hnode with hmiddle | ⟨content, hcontent, hfile⟩
    · rcases h.new name node hmiddle with hb | ⟨content, hcontent, hfile⟩
      · exact .inl hb
      · exact .inr ⟨content, List.mem_append_left _ hcontent, hfile⟩
    · exact .inr ⟨content, List.mem_append_right _ hcontent, hfile⟩
  staging hfresh := by
    obtain ⟨hstaging, hnext⟩ := h.staging hfresh
    have hmiddle : middle.Fresh := fun ticket hticket => by
      rw [hstaging]
      exact hfresh ticket (Nat.le_trans hnext hticket)
    obtain ⟨hstaging', hnext'⟩ := h'.staging hmiddle
    exact ⟨hstaging'.trans hstaging, Nat.le_trans hnext hnext'⟩

theorem Adds.entries_eq {b after : Blobs} (h : b.Adds after []) : after.entries = b.entries := by
  refine Table.ext fun name => ?_
  cases hb : b.entries.get? name with
  | some node => exact h.kept name node hb
  | none =>
    cases hafter : after.entries.get? name with
    | none => rfl
    | some node =>
      rcases h.new name node hafter with hnode | ⟨_, hmem, _⟩
      · rw [hb] at hnode
        cases hnode
      · exact absurd hmem List.not_mem_nil

theorem Adds.get?_directory {b after : Blobs} {contents : List Bytes} (h : b.Adds after contents) {name : String}
    {child : Node} (hchild : child.IsDirectory) :
    after.entries.get? name = some child ↔ b.entries.get? name = some child := by
  refine ⟨fun hafter => ?_, h.kept name child⟩
  rcases h.new name child hafter with hb | ⟨content, -, -, rfl⟩
  · exact hb
  · exact hchild.elim

/-- The staged file of some content. -/
def staged (b : Blobs) (content : Bytes) : Staged := ⟨b.next, .digest content, content.length⟩

/-- The directory after content was staged and the staged file is gone again. -/
def touched (b : Blobs) (content : Bytes) : Blobs := (b.withStaged content).discard (b.staged content)

theorem staging_touched {b : Blobs} (h : b.Fresh) (content : Bytes) :
    (b.touched content).staging = b.staging ∧ b.next ≤ (b.touched content).next := by
  refine ⟨Table.ext fun ticket => ?_, Nat.le_succ _⟩
  show ((b.staging.insert b.next content).erase b.next).get? ticket = b.staging.get? ticket
  by_cases hticket : ticket = b.next
  · rw [hticket, Table.get?_erase_self, h b.next (Nat.le_refl _)]
  · rw [Table.get?_erase_of_ne _ hticket, Table.get?_insert_of_ne _ _ hticket]

theorem adds_touched (b : Blobs) (content : Bytes) (contents : List Bytes) :
    b.Adds (b.touched content) contents :=
  ⟨fun _ _ => id, fun _ _ => .inl, fun h => staging_touched h content⟩

theorem adds_placed (b : Blobs) {content : Bytes} (hnone : b.entries.get? (ContentKey.digest content).hex = none) :
    b.Adds { b.touched content with
      entries := b.entries.insert (ContentKey.digest content).hex (.file content) } [content] where
  kept name node hnode := by
    have hne : name ≠ (ContentKey.digest content).hex := fun he => by
      rw [he, hnone] at hnode
      cases hnode
    rw [Table.get?_insert_of_ne _ _ hne, hnode]
  new name node hnode := by
    by_cases he : name = (ContentKey.digest content).hex
    · rw [he, Table.get?_insert_self, Option.some.injEq] at hnode
      exact .inr ⟨content, List.mem_singleton_self _, he, hnode.symm⟩
    · rw [Table.get?_insert_of_ne _ _ he] at hnode
      exact .inl hnode
  staging h := staging_touched h content

theorem commit_staged (b : Blobs) (content : Bytes) :
    (∃ es, b.entries.get? (ContentKey.digest content).hex = some (.directory es) ∧
      (b.withStaged content).commit (b.staged content) = (.error .isADirectory, b.touched content)) ∨
    ∃ after, (∀ es, b.entries.get? (ContentKey.digest content).hex ≠ some (.directory es)) ∧
      (b.withStaged content).commit (b.staged content) = (.ok (b.pathOf (.digest content)), after) ∧
      b.Adds after [content] := by
  have hstaging : (b.withStaged content).staging.get? (b.staged content).ticket = some content :=
    Table.get?_insert_self _ _ _
  have hentries : (b.withStaged content).entries = b.entries := rfl
  have hkey : (b.staged content).key = .digest content := rfl
  have htouched := b.adds_touched content [content]
  unfold commit
  simp only [hstaging, hentries, hkey]
  cases hnode : b.entries.get? (ContentKey.digest content).hex with
  | none =>
    refine .inr ⟨_, fun es h => ?_, rfl, b.adds_placed hnode⟩
    cases h
  | some node =>
    cases node with
    | directory es => exact .inl ⟨es, rfl, rfl⟩
    | file | database | busy =>
      refine .inr ⟨_, fun es h => ?_, rfl, htouched⟩
      cases h

end Blobs

namespace Vault

/-! ## One attachment -/

/-- The row of an attachment with its content. -/
def rowFor (r : Revision) (a : Attachment) (content : Bytes) : AttachmentRow :=
  rowOf r a ⟨0, .digest content, content.length⟩

variable {opener : FileOpener} {b : Blobs} {table : AttachmentTable} {r : Revision} {a : Attachment}

theorem link_of_content {content : Bytes} (h : a.source.content? opener b = some content) :
    link opener b table r a = settle (b.withStaged content) table (rowFor r a content) (b.staged content) := by
  cases harrivals : a.source.arrivals opener b with
  | error reason =>
    rw [Source.content?, harrivals] at h
    cases h
  | ok arrivals =>
    have harrived : Arrival.content? arrivals = some content := by rwa [Source.content?, harrivals] at h
    rw [link, harrivals]
    simp only [b.stage_of_content .full harrived]
    rfl

variable (table r) in
theorem link_of_no_content (h : a.source.content? opener b = none) :
    ∃ reason, link opener b table r a = (.error (.io reason), b) := by
  cases harrivals : a.source.arrivals opener b with
  | error reason =>
    rw [link, harrivals]
    exact ⟨reason, rfl⟩
  | ok arrivals =>
    have harrived : Arrival.content? arrivals = none := by rwa [Source.content?, harrivals] at h
    obtain ⟨reason, hstage⟩ := b.stage_of_failed .full harrived
    rw [link, harrivals]
    simp only [hstage]
    exact ⟨reason, rfl⟩

theorem link_of_fault {content : Bytes} (h : a.source.content? opener b = some content) {fault : RowFault}
    (hfault : (rowFor r a content).fault? = some fault) :
    link opener b table r a = (.error (.invalidRow fault), b.touched content) := by
  rw [link_of_content h, settle, hfault]
  rfl

theorem link_of_directory {content : Bytes} (h : a.source.content? opener b = some content)
    (hfault : (rowFor r a content).fault? = none) {es : List (String × Node)}
    (hnode : b.entries.get? (ContentKey.digest content).hex = some (.directory es)) :
    link opener b table r a = (.error (.io .isADirectory), b.touched content) := by
  rw [link_of_content h, settle, hfault]
  rcases b.commit_staged content with ⟨_, _, hcommit⟩ | ⟨_, hno, _, _⟩
  · simp only [hcommit]
  · exact absurd hnode (hno es)

variable (table) in
theorem link_of_placed {content : Bytes} (h : a.source.content? opener b = some content)
    (hfault : (rowFor r a content).fault? = none)
    (hnode : ∀ es, b.entries.get? (ContentKey.digest content).hex ≠ some (.directory es)) :
    ∃ after, b.Adds after [content] ∧ link opener b table r a =
      (.ok (⟨rowFor r a content, b.pathOf (.digest content)⟩, AttachmentRow.put table (rowFor r a content)),
        after) := by
  rw [link_of_content h, settle, hfault]
  rcases b.commit_staged content with ⟨es, hes, _⟩ | ⟨after, _, hcommit, hadds⟩
  · exact absurd hes (hnode es)
  · refine ⟨after, hadds, ?_⟩
    simp only [hcommit]

variable (opener b table r a) in
/-- **What linking can do.** It fails and leaves the entries of the directory, or it succeeds with the content that
comes out of the source and writes the row of this content. -/
theorem link_cases :
    (∃ e after, link opener b table r a = (.error e, after) ∧ b.Adds after []) ∨
    ∃ content after, a.source.content? opener b = some content ∧ (rowFor r a content).fault? = none ∧
      b.Adds after [content] ∧ link opener b table r a =
        (.ok (⟨rowFor r a content, b.pathOf (.digest content)⟩, AttachmentRow.put table (rowFor r a content)),
          after) := by
  cases hcontent : a.source.content? opener b with
  | none =>
    obtain ⟨reason, hlink⟩ := link_of_no_content table r hcontent
    exact .inl ⟨_, _, hlink, .refl b⟩
  | some content =>
    cases hfault : (rowFor r a content).fault? with
    | some fault => exact .inl ⟨_, _, link_of_fault hcontent hfault, b.adds_touched content []⟩
    | none =>
      by_cases hnode : ∃ es, b.entries.get? (ContentKey.digest content).hex = some (.directory es)
      · obtain ⟨es, hes⟩ := hnode
        exact .inl ⟨_, _, link_of_directory hcontent hfault hes, b.adds_touched content []⟩
      · rw [not_exists] at hnode
        obtain ⟨after, hadds, hlink⟩ := link_of_placed table hcontent hfault hnode
        exact .inr ⟨content, after, rfl, hfault, hadds, hlink⟩

theorem link_eq_ok {saved : SavedAttachment} {linked : AttachmentTable} {after : Blobs}
    (h : link opener b table r a = (.ok (saved, linked), after)) :
    ∃ content, a.source.content? opener b = some content ∧ (rowFor r a content).fault? = none ∧
      b.Adds after [content] ∧ saved = ⟨rowFor r a content, b.pathOf (.digest content)⟩ ∧
      linked = AttachmentRow.put table (rowFor r a content) := by
  rcases link_cases opener b table r a with ⟨e, other, hlink, -⟩ | ⟨content, other, hcontent, hfault, hadds, hlink⟩
  · rw [h] at hlink
    cases hlink
  · rw [h] at hlink
    cases hlink
    exact ⟨content, hcontent, hfault, hadds, rfl, rfl⟩

theorem addAll_singleton_eq_ok {v after : Vault} {next : Revision} (h : v.addAll opener r [a] = (.ok next, after)) :
    ∃ s content blobs, succeed v.store r = .ok (next, s) ∧ a.source.content? opener v.blobs = some content ∧
      v.blobs.Adds blobs [content] ∧ after = { v with
        store := s.withAttachments (AttachmentRow.put s.attachments (rowFor next a content)), blobs } := by
  rw [addAll_eq_linkAll] at h
  split at h
  · cases h
  · split at h
    · cases h
    · next s hsucceed =>
      cases hlink : link opener v.blobs s.attachments _ a with
      | mk answer blobs =>
        rw [linkAll, hlink] at h
        cases answer with
        | error e => cases h
        | ok linked =>
          obtain ⟨saved, table⟩ := linked
          obtain ⟨content, hcontent, -, hadds, -, rfl⟩ := link_eq_ok hlink
          cases h
          exact ⟨s, content, blobs, hsucceed, hcontent, hadds, rfl⟩

/-! ## Attachments in order -/

/-- Attachments are linked in order, with these contents. -/
inductive Linked (opener : FileOpener) (r : Revision) :
    Blobs → AttachmentTable → List Attachment → List Bytes → AttachmentTable → Blobs → Prop
  | nil (b : Blobs) (table : AttachmentTable) : Linked opener r b table [] [] table b
  | cons {b middle after : Blobs} {table linked all : AttachmentTable} {a : Attachment} {rest : List Attachment}
      {saved : SavedAttachment} {content : Bytes} {contents : List Bytes}
      (hcontent : a.source.content? opener b = some content)
      (hlink : link opener b table r a = (.ok (saved, linked), middle))
      (hrest : Linked opener r middle linked rest contents all after) :
      Linked opener r b table (a :: rest) (content :: contents) all after

theorem Linked.adds {attachments : List Attachment} {contents : List Bytes} {linked : AttachmentTable}
    {after : Blobs} (h : Linked opener r b table attachments contents linked after) : b.Adds after contents := by
  induction h with
  | nil b table => exact .refl b
  | cons hcontent hlink _ ih =>
    obtain ⟨content, hcontent', -, hadds, -⟩ := link_eq_ok hlink
    rw [hcontent, Option.some.injEq] at hcontent'
    subst hcontent'
    exact hadds.trans ih

variable (opener b table r) in
/-- All attachments are linked, or those before one that fails. -/
theorem linkAll_cases (attachments : List Attachment) :
    (∃ contents linked after, Linked opener r b table attachments contents linked after ∧
      linkAll opener b table r attachments = (.ok linked, after)) ∨
    ∃ e earlier failing later contents linked middle after, attachments = earlier ++ failing :: later ∧
      Linked opener r b table earlier contents linked middle ∧
      link opener middle linked r failing = (.error e, after) ∧ middle.Adds after [] ∧
      linkAll opener b table r attachments = (.error e, after) := by
  induction attachments generalizing b table with
  | nil => exact .inl ⟨[], table, b, .nil b table, rfl⟩
  | cons a rest ih =>
    rcases link_cases opener b table r a with ⟨e, after, hlink, hafter⟩ | ⟨content, middle, hcontent, -, -, hlink⟩
    · refine .inr ⟨e, [], a, rest, [], table, b, after, rfl, .nil b table, hlink, hafter, ?_⟩
      rw [linkAll, hlink]
    · rw [linkAll, hlink]
      rcases ih middle (AttachmentRow.put table (rowFor r a content)) with
        ⟨contents, linked, after, hlinked, heq⟩ |
        ⟨e, earlier, failing, later, contents, linked, last, after, hsplit, hlinked, hfails, hafter, heq⟩
      · exact .inl ⟨content :: contents, linked, after, .cons hcontent hlink hlinked, heq⟩
      · refine .inr ⟨e, a :: earlier, failing, later, content :: contents, linked, last, after, ?_,
          .cons hcontent hlink hlinked, hfails, hafter, heq⟩
        rw [hsplit, List.cons_append]

/-! ## Calls -/

variable (opener) (v : Vault) (r)

variable (a) in
/-- Adding an attachment fails and leaves the entries of the directory, or it writes its row. -/
theorem add_cases :
    (∃ e after, v.blobs.Adds after [] ∧ v.add opener r a = (.error e, { v with blobs := after })) ∨
    ∃ content after, (rowFor r a content).fault? = none ∧ v.blobs.Adds after [content] ∧
      v.add opener r a = (.ok ⟨rowFor r a content, v.blobs.pathOf (.digest content)⟩, { v with
        store := v.store.withAttachments (AttachmentRow.put v.store.attachments (rowFor r a content))
        blobs := after }) := by
  rw [add_eq_link]
  split
  · exact .inl ⟨_, v.blobs, .refl _, rfl⟩
  · rcases link_cases opener v.blobs v.store.attachments r a with
      ⟨e, after, hlink, hadds⟩ | ⟨content, after, -, hfault, hadds, hlink⟩
    · rw [hlink]
      exact .inl ⟨e, after, hadds, rfl⟩
    · rw [hlink]
      exact .inr ⟨content, after, hfault, hadds, rfl⟩

/-- Adding several attachments fails and leaves the tables, or it links all of them to a revision that follows. -/
theorem addAll_cases (attachments : List Attachment) :
    (∃ e after contents, v.blobs.Adds after contents ∧
      v.addAll opener r attachments = (.error e, { v with blobs := after })) ∨
    ∃ next s contents table after, succeed v.store r = .ok (next, s) ∧
      Linked opener next v.blobs s.attachments attachments contents table after ∧
      v.addAll opener r attachments = (.ok next, { v with store := s.withAttachments table, blobs := after }) := by
  rw [addAll_eq_linkAll]
  split
  · exact .inl ⟨_, v.blobs, [], .refl _, rfl⟩
  · split
    · exact .inl ⟨_, v.blobs, [], .refl _, rfl⟩
    · next next s hsucceed =>
      rcases linkAll_cases opener v.blobs s.attachments next attachments with
        ⟨contents, table, after, hlinked, hall⟩ | ⟨e, _, _, _, contents, _, _, after, -, hlinked, -, hlast, hall⟩
      · rw [hall]
        exact .inr ⟨next, s, contents, table, after, hsucceed, hlinked, rfl⟩
      · rw [hall]
        exact .inl ⟨e, after, _, hlinked.adds.trans hlast, rfl⟩

end Vault

end Docket
