import Docket.Proofs.Vault.Grounded

/-!
# What adding several attachments does

Attachments that are added together are linked one after the other to the revision that follows, on top of the rows
that it was given. All of them can be linked if each has a name and a type, all of its source is read, and no directory
stands at the path of its content. Of several with one name the last one stays.

* `Blobs.placed`: a directory after content was placed in it.
* `Vault.contents?`: what comes out of the sources of attachments.
* `Vault.Linkable`: attachments that can be linked with these contents.
* `Vault.Linked.linkable`, `Vault.Linkable.exists_linked`: just these are linked.
* `Vault.fill_eq`: a name has the row of the last attachment with it.
* **`Desk.addAll_exact`**: when attachments are added, and what the next revision has then.
-/

namespace Docket

open AttachmentRow (Sheet sheet Gives Keyed rowAt)

/-! ## Content that is placed -/

namespace Blobs

/-- No directory stands at the path of content. -/
def Free (b : Blobs) (content : Bytes) : Prop :=
  ∀ es, b.entries.get? (ContentKey.digest content).hex ≠ some (.directory es)

/-- The directory after content was taken into a staged file that got its name. -/
def placed (b : Blobs) (content : Bytes) : Blobs := ((b.withStaged content).commit (b.staged content)).2

theorem commit_of_free {b : Blobs} {content : Bytes} (h : b.Free content) :
    (b.withStaged content).commit (b.staged content) = (.ok (b.pathOf (.digest content)), b.placed content) ∧
      b.Adds (b.placed content) [content] := by
  rcases b.commit_staged content with ⟨es, hes, -⟩ | ⟨after, -, hcommit, hadds⟩
  · exact absurd hes (h es)
  · rw [placed, hcommit]
    exact ⟨rfl, hadds⟩

theorem Adds.free_iff {b after : Blobs} {contents : List Bytes} (h : b.Adds after contents) {content : Bytes} :
    after.Free content ↔ b.Free content := forall_congr' fun _ => not_congr (h.get?_directory trivial)

end Blobs

/-! ## Attachments that can be linked -/

namespace Vault

/-- What comes out of the sources of attachments. Each of them is read when the contents of those before it are in
place. -/
def contents? (opener : FileOpener) : Blobs → List Attachment → Option (List Bytes)
  | _, [] => some []
  | b, a :: rest => (a.source.content? opener b).bind fun content =>
      (contents? opener (b.placed content) rest).map (content :: ·)

/-- Attachments can be linked with these contents. -/
structure Linkable (opener : FileOpener) (b : Blobs) (attachments : List Attachment) (contents : List Bytes) : Prop where
  ruled : ∀ a ∈ attachments, a.name ≠ "" ∧ a.mediaType ≠ ""
  read : contents? opener b attachments = some contents
  free : ∀ content ∈ contents, b.Free content

section OneByOne

variable {opener : FileOpener} {b after : Blobs} {table linked : AttachmentTable} {r : Revision} {a : Attachment}
  {rest : List Attachment}

theorem linkable_nil (opener : FileOpener) (b : Blobs) : Linkable opener b [] [] :=
  ⟨fun _ ha => absurd ha List.not_mem_nil, rfl, fun _ hcontent => absurd hcontent List.not_mem_nil⟩

theorem linkable_cons_iff {content : Bytes} {contents : List Bytes} :
    Linkable opener b (a :: rest) (content :: contents) ↔
      ((a.name ≠ "" ∧ a.mediaType ≠ "") ∧ a.source.content? opener b = some content ∧ b.Free content) ∧
        Linkable opener (b.placed content) rest contents := by
  constructor
  · rintro ⟨hruled, hread, hfree⟩
    rw [List.forall_mem_cons] at hruled hfree
    obtain ⟨first, hfirst, hmore⟩ := Option.bind_eq_some_iff.1 hread
    obtain ⟨more, hrest, hcons⟩ := Option.map_eq_some_iff.1 hmore
    obtain ⟨rfl, rfl⟩ := List.cons.inj hcons
    -- only files are added, so the paths of the later contents stay free
    have hadds := (Blobs.commit_of_free hfree.1).2
    exact ⟨⟨hruled.1, hfirst, hfree.1⟩, hruled.2, hrest, fun next hnext => hadds.free_iff.2 (hfree.2 next hnext)⟩
  · rintro ⟨⟨hruled, hcontent, hfree⟩, hrest⟩
    have hadds := (Blobs.commit_of_free hfree).2
    refine ⟨List.forall_mem_cons.2 ⟨hruled, hrest.ruled⟩, ?_, List.forall_mem_cons.2 ⟨hfree, fun next hnext => ?_⟩⟩
    · rw [contents?, hcontent, Option.bind_some, hrest.read, Option.map_some]
    · exact hadds.free_iff.1 (hrest.free next hnext)

theorem fault?_rowFor_eq_none_iff {content : Bytes} :
    (rowFor r a content).fault? = none ↔ a.name ≠ "" ∧ a.mediaType ≠ "" := AttachmentRow.fault?_eq_none_iff

theorem link_of_free {content : Bytes} (hruled : a.name ≠ "" ∧ a.mediaType ≠ "")
    (hcontent : a.source.content? opener b = some content) (hfree : b.Free content) :
    link opener b table r a = (.ok (⟨rowFor r a content, b.pathOf (.digest content)⟩,
      AttachmentRow.put table (rowFor r a content)), b.placed content) := by
  rw [link_of_content hcontent, settle, fault?_rowFor_eq_none_iff.2 hruled]
  simp only [(Blobs.commit_of_free hfree).1]

theorem of_link_eq_ok {saved : SavedAttachment} (h : link opener b table r a = (.ok (saved, linked), after)) :
    ∃ content, ((a.name ≠ "" ∧ a.mediaType ≠ "") ∧ a.source.content? opener b = some content ∧ b.Free content) ∧
      after = b.placed content := by
  obtain ⟨content, hcontent, hfault, -⟩ := link_eq_ok h
  have hfree : b.Free content := fun es hes => by
    rw [link_of_directory hcontent hfault hes] at h
    cases h
  have hruled := fault?_rowFor_eq_none_iff.1 hfault
  rw [link_of_free hruled hcontent hfree] at h
  cases h
  exact ⟨content, ⟨hruled, hcontent, hfree⟩, rfl⟩

theorem Linked.linkable {attachments : List Attachment} {contents : List Bytes}
    (h : Linked opener r b table attachments contents linked after) : Linkable opener b attachments contents := by
  induction h with
  | nil b table => exact linkable_nil opener b
  | cons hcontent hlink _ ih =>
    obtain ⟨content, ⟨hruled, hcontent', hfree⟩, rfl⟩ := of_link_eq_ok hlink
    rw [hcontent, Option.some.injEq] at hcontent'
    subst hcontent'
    exact linkable_cons_iff.2 ⟨⟨hruled, hcontent, hfree⟩, ih⟩

theorem Linkable.exists_linked {attachments : List Attachment} {contents : List Bytes}
    (h : Linkable opener b attachments contents) (table : AttachmentTable) (r : Revision) :
    ∃ linked after, Linked opener r b table attachments contents linked after ∧
      linkAll opener b table r attachments = (.ok linked, after) := by
  induction attachments generalizing b table contents with
  | nil =>
    obtain rfl := Option.some.inj h.read
    exact ⟨table, b, .nil b table, rfl⟩
  | cons a rest ih =>
    obtain ⟨content, -, hmore⟩ := Option.bind_eq_some_iff.1 h.read
    obtain ⟨more, -, rfl⟩ := Option.map_eq_some_iff.1 hmore
    obtain ⟨⟨hruled, hcontent, hfree⟩, hrest⟩ := linkable_cons_iff.1 h
    have hlink : link opener b table r a = _ := link_of_free hruled hcontent hfree
    obtain ⟨linked, after, hlinked, hall⟩ := ih hrest (AttachmentRow.put table (rowFor r a content))
    refine ⟨linked, after, .cons hcontent hlink hlinked, ?_⟩
    rw [linkAll, hlink]
    exact hall

end OneByOne

/-! ## The last attachment with a name -/

/-- The last attachment with a name, with its content. -/
def lastNamed (given : List (Attachment × Bytes)) (name : String) : Option (Attachment × Bytes) :=
  given.reverse.find? (·.1.name = name)

theorem lastNamed_cons (a : Attachment) (content : Bytes) (rest : List (Attachment × Bytes)) (name : String) :
    lastNamed ((a, content) :: rest) name =
      (lastNamed rest name).or (if a.name = name then some (a, content) else none) := by
  rw [lastNamed, List.reverse_cons, List.find?_append, List.find?_singleton]
  simp [lastNamed]

/-- A name has the row of the last attachment with it, or else what there was under it before. -/
theorem fill_eq (r : Revision) (sheet : Sheet) (given : List (Attachment × Bytes)) (name : String) :
    fill r sheet given name = ((lastNamed given name).map fun last => rowFor r last.1 last.2).or (sheet name) := by
  -- for any sheet to start with: each row is put on top of those before it
  induction given generalizing sheet with
  | nil => rfl
  | cons first rest ih =>
    obtain ⟨a, content⟩ := first
    rw [fill, ih, lastNamed_cons]
    cases lastNamed rest name with
    | some last => rfl
    | none =>
      by_cases hname : a.name = name
      · subst hname
        simp
      · rw [Function.update_of_ne fun he => hname he.symm]
        simp [hname]

theorem rowAt_of_gives_fill {before after : AttachmentTable} {next : Revision} {sequence : UInt64}
    {given : List (Attachment × Bytes)}
    (h : Gives before after next.sequence (fill (next.moved 0) (sheet before sequence) given)) (hbefore : Keyed before)
    (name : String) : rowAt after next.sequence name =
      match lastNamed given name with
      | some (a, content) => .ok (some (rowFor next a content))
      | none => (rowAt before sequence name).map (·.map (·.moved next.sequence)) := by
  rw [h.rowAt_self, fill_eq, hbefore.rowAt_eq]
  cases lastNamed given name with
  | some last => rfl
  | none => cases sheet before sequence name <;> rfl

/-! ## Adding to a revision that was committed -/

section AddAll

variable {v : Vault} (hopen : v.poisoned = false) {written : List Revision} (h : v.store.Keeps written)
  (opener : FileOpener) {r c : Revision} (hc : v.store.current r.document = .ok c)

include hopen hc

theorem addAll_of_stale (hstale : c.id ≠ r.id) (attachments : List Attachment) :
    v.addAll opener r attachments = (.error (.store (.conflict r.document r.id c.id)), v) := by
  simp [addAll_eq_linkAll, hopen, Store.succeed_of_stale hc hstale]

include h

theorem addAll_of_linkable (hid : c.id = r.id) {attachments : List Attachment} {contents : List Bytes}
    (hlinkable : Linkable opener v.blobs attachments contents) :
    ∃ table after, v.addAll opener r attachments = (.ok (v.store.successor r), { v with
        store := (v.store.append (v.store.successor r)).withAttachments table, blobs := after }) ∧
      Gives v.store.attachments table (v.store.successor r).sequence
        (fill ((v.store.successor r).moved 0) (sheet v.store.attachments r.sequence) (attachments.zip contents)) := by
  obtain ⟨carried, hsucceed, hcarried⟩ := h.succeed_of_current hc hid
  obtain ⟨table, after, hlinked, hall⟩ := hlinkable.exists_linked carried (v.store.successor r)
  have hgives := hlinked.gives hcarried.keyed
  rw [hcarried.self] at hgives
  refine ⟨table, after, ?_, hcarried.trans hgives⟩
  simp [addAll_eq_linkAll, hopen, hsucceed, Store.withAttachments, hall]

/-- Attachments are added if and only if the revision is the current one and they can be linked. -/
theorem exists_addAll_iff (attachments : List Attachment) :
    (∃ next after, v.addAll opener r attachments = (.ok next, after)) ↔
      c.id = r.id ∧ ∃ contents, Linkable opener v.blobs attachments contents := by
  constructor
  · rintro ⟨next, after, hok⟩
    have hid : c.id = r.id := by
      by_contra hstale
      rw [addAll_of_stale hopen opener hc hstale] at hok
      cases hok
    rcases v.addAll_cases opener r attachments with
      ⟨e, blobs, _, -, hfailed⟩ | ⟨n, s, contents, table, blobs, -, hlinked, -⟩
    · rw [hfailed] at hok
      cases hok
    · exact ⟨hid, contents, hlinked.linkable⟩
  · rintro ⟨hid, contents, hlinkable⟩
    obtain ⟨table, after, hok, -⟩ := addAll_of_linkable hopen h opener hc hid hlinkable
    exact ⟨_, _, hok⟩

end AddAll

end Vault

/-! ## Runs -/

namespace Desk

open Vault (contents? lastNamed rowFor)

/-- **After any grounded run from an empty store**, and for every revision that it committed: attachments are added if
and only if the revision is the current one of its document, all attachments have a name and a type, and all of their
sources are read, with no directory in the way. Then the next revision follows this one; a name of the attachments has
the row of the last one with this name, another name has the row that it had; and no other row changes. -/
theorem addAll_exact (d : Desk) (hempty : d.vault.store = .empty) (calls : List (FileOpener × Operation))
    (hgrounded : d.Grounded calls) (hstorable : ∀ r ∈ d.committed calls, r.Storable)
    (hopen : (d.run calls).vault.poisoned = false) (opener : FileOpener) (r : Revision) (hr : r ∈ d.committed calls)
    (attachments : List Attachment) :
    let v := (d.run calls).vault
    ((∃ next after, v.addAll opener r attachments = (.ok next, after)) ↔
      (∃ c, v.store.get r.document = .ok (some c) ∧ c.id = r.id) ∧
      (∀ a ∈ attachments, a.name ≠ "" ∧ a.mediaType ≠ "") ∧
      ∃ contents, contents? opener v.blobs attachments = some contents ∧ ∀ content ∈ contents, v.blobs.Free content) ∧
    ∀ next after, v.addAll opener r attachments = (.ok next, after) →
      r.Succeeds v.store next ∧
      after.store = (v.store.append next).withAttachments after.store.attachments ∧
      ∃ contents, contents? opener v.blobs attachments = some contents ∧ ∀ name,
        (rowAt after.store.attachments next.sequence name =
          match lastNamed (attachments.zip contents) name with
          | some (a, content) => .ok (some (rowFor next a content))
          | none => (rowAt v.store.attachments r.sequence name).map (·.map (·.moved next.sequence))) ∧
        ∀ sequence, sequence ≠ next.sequence →
          rowAt after.store.attachments sequence name = rowAt v.store.attachments sequence name := by
  intro v
  have hkeeps : v.store.Keeps (d.committed calls) := keeps_run hempty hgrounded hstorable
  obtain ⟨c, hget, hc⟩ := hkeeps.exists_current hr
  have hiff := Vault.exists_addAll_iff hopen hkeeps opener hc attachments
  refine ⟨hiff.trans (and_congr ?_ ?_), fun next after hok => ?_⟩
  · rw [hget]
    simp
  · constructor
    · rintro ⟨contents, hruled, hread, hfree⟩
      exact ⟨hruled, contents, hread, hfree⟩
    · rintro ⟨hruled, contents, hread, hfree⟩
      exact ⟨contents, hruled, hread, hfree⟩
  · obtain ⟨hid, contents, hlinkable⟩ := hiff.1 ⟨next, after, hok⟩
    obtain ⟨table, blobs, hadded, hgives⟩ := Vault.addAll_of_linkable hopen hkeeps opener hc hid hlinkable
    rw [hok] at hadded
    cases hadded
    refine ⟨hkeeps.succeeds_successor hr, rfl, contents, hlinkable.read, fun name => ⟨?_, fun sequence hother => ?_⟩⟩
    · exact Vault.rowAt_of_gives_fill hgives hkeeps.keyed name
    · exact hgives.rowAt_of_ne hkeeps.keyed hother name

/-! ## A batch with a name that is given twice -/

/-- Two texts of one name, and another one between them. -/
def repeated : List Attachment :=
  [⟨"n", "text/plain", .bytes [1]⟩, ⟨"m", "text/plain", .bytes [2]⟩, ⟨"n", "text/html", .bytes [3]⟩]

theorem addAll_exact_repeated : Desk.bare.vault.store = .empty ∧ Desk.bare.Grounded lettered ∧
    (∀ r ∈ Desk.bare.committed lettered, r.Storable) ∧ (Desk.bare.run lettered).vault.poisoned = false ∧
    firstNote ∈ Desk.bare.committed lettered ∧
    ∃ next after, (Desk.bare.run lettered).vault.addAll Vault.noFiles firstNote repeated = (.ok next, after) ∧
      next.parent = some firstNote.id ∧ rowAt after.store.attachments next.sequence "n" =
        .ok (some (rowFor next ⟨"n", "text/html", .bytes [3]⟩ [3])) := by
  obtain ⟨blobs, hadds, hrun⟩ := exists_run_lettered
  obtain ⟨hiff, hspec⟩ := addAll_exact Desk.bare rfl lettered grounded_lettered storable_lettered poisoned_lettered
    Vault.noFiles firstNote mem_committed_lettered repeated
  have hread : contents? Vault.noFiles (Desk.bare.run lettered).vault.blobs repeated = some [[1], [2], [3]] := rfl
  have hfree : ∀ content, (Desk.bare.run lettered).vault.blobs.Free content := fun content => by
    rw [hrun]
    exact hadds.free_iff.2 fun _ hes => by cases hes
  obtain ⟨next, after, hok⟩ := hiff.2 ⟨⟨firstNote, get_lettered, rfl⟩, by decide, _, hread, fun content _ => hfree content⟩
  obtain ⟨hsucceeds, -, contents, hcontents, hrows⟩ := hspec next after hok
  rw [hread, Option.some.injEq] at hcontents
  subst hcontents
  exact ⟨rfl, grounded_lettered, storable_lettered, poisoned_lettered, mem_committed_lettered, next, after, hok,
    hsucceeds.parent_eq, (hrows "n").1⟩

end Desk

end Docket
