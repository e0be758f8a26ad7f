import Docket.Cli.Command
import Docket.Proofs.Cli.History
import Docket.Proofs.Vault.Failure
import Docket.Proofs.Vault.Following

/-!
# Tables that tell what happened

The tables chronicle deeds if, for every document, its last page is what its changes make of it: its generation counts
the changes that went on to a new revision, and its sheet has the attachments that the changes show.

* `sheetOf`: the sheet that changes make.
* `Reflects`, `Chronicle`: pages that are what changes made of them, and tables of such pages.
* `Chronicle.follow`: a new page that is what the changes make of it.
* **`Chronicle.create`, `Chronicle.attach`, `Chronicle.remove`**: the tables after a change that succeeds.
-/

namespace Docket

namespace Cli

open AttachmentRow (Sheet sheet Gives)
open Revision (ofDocument placeless)
open Store (nextOf)

/-! ## Sheets -/

/-- The row of an attachment, without a place. -/
def Listing.row (x : Listing) : AttachmentRow where
  sequence := 0
  filename := x.name
  content := .digest x.content
  mediaType := x.mediaType
  encoding := .plain
  length := UInt64.ofNat x.content.length
  encodedLength := UInt64.ofNat x.content.length
  revpos := UInt64.ofNat x.revpos

/-- The sheet that changes make. -/
def sheetOf (changes : List Change) : Sheet := fun name => (listing? changes name).map Listing.row

theorem sheetOf_attach (name mediaType : String) (content : Bytes) (earlier : List Change) :
    sheetOf (.attach name mediaType content :: earlier) = Function.update (sheetOf earlier) name
      (some (Listing.row ⟨name, mediaType, content, 1 + advances (.attach name mediaType content :: earlier)⟩)) := by
  funext other
  unfold sheetOf
  rw [listing?]
  by_cases hname : other = name
  · subst hname
    rw [if_pos rfl, Function.update_self]
    rfl
  · rw [if_neg (Ne.symm hname), Function.update_of_ne hname]

theorem sheetOf_remove (names : List String) (earlier : List Change) :
    sheetOf (.remove names :: earlier) = (sheetOf earlier).without names := by
  funext name
  unfold sheetOf Sheet.without
  rw [listing?]
  split <;> rfl

theorem rowFor_eq_row {r : Revision} (hplace : r.sequence = 0) {revpos : Nat}
    (hgeneration : r.id.generation.toNat = revpos) (a : Attachment) (content : Bytes) :
    Vault.rowFor r a content = Listing.row ⟨a.name, a.mediaType, content, revpos⟩ := by
  unfold Vault.rowFor Vault.rowOf Listing.row
  rw [hplace, ← hgeneration, UInt64.ofNat_toNat]

theorem sheetOf_eq_none_iff {changes : List Change} {name : String} :
    sheetOf changes name = none ↔ ¬ Listed name changes := by
  rw [listed_iff, not_not]
  exact Option.map_eq_none_iff

/-! ## Pages and tables -/

/-- Pages are what these changes made of them. -/
structure Reflects (changes : List Change) (pages : List Page) : Prop where
  blank : pages = [] → changes = []
  created : pages ≠ [] → .create ∈ changes
  last : ∀ page, pages.getLast? = some page → page.revision.Decodes ∧
    page.revision.id.generation.toNat = 1 + advances changes ∧ page.sheet = sheetOf changes

/-- The tables hold these revisions, and the pages of every document are what these deeds made of them. -/
structure Chronicle (deeds : List Deed) (s : Store) (written : List Revision) : Prop where
  records : s.Records written
  length_le : written.length ≤ deeds.length
  reflects : ∀ document, Reflects (changes document deeds) (s.pages written document)

theorem chronicle_empty : Chronicle [] .empty [] where
  records := Store.records_empty
  length_le := Nat.le_refl 0
  reflects _ := ⟨fun _ => rfl, fun h => absurd rfl h, fun _ h => by cases h⟩

variable {deeds : List Deed} {s : Store} {written : List Revision}

/-- The tables with a new page that is what the changes make of it. -/
theorem Chronicle.follow (h : Chronicle deeds s written) (hroom : deeds.length + 1 < UInt64.size) {deed : Deed}
    {base : Store} (hbase : base.Records written)
    (hothers : ∀ other, other ≠ deed.document → base.pages written other = s.pages written other) {r : Revision}
    (hdocument : r.document = deed.document) (hr : r.sequence = base.last + 1) {table : AttachmentTable}
    {given : Sheet} (hgives : Gives base.attachments table r.sequence given)
    (hcreated : .create ∈ deed.change :: changes deed.document deeds) (hdecodes : r.Decodes)
    (hgeneration : r.id.generation.toNat = 1 + advances (deed.change :: changes deed.document deeds))
    (hsheet : given = sheetOf (deed.change :: changes deed.document deeds)) :
    Chronicle (deed :: deeds) ((base.append r).withAttachments table) (written ++ [r]) := by
  obtain ⟨subject, change⟩ := deed
  have hwritten : written.length + 1 < UInt64.size := by
    have hle := h.length_le
    omega
  refine ⟨hbase.follow hgives hr hwritten, ?_, fun document => ?_⟩
  · rw [List.length_append, List.length_cons]
    exact Nat.succ_le_succ h.length_le
  · by_cases hd : document = subject
    · subst hd
      have hpages := hbase.pages_follow hgives hr hwritten
      rw [show r.document = document from hdocument] at hpages
      rw [changes_cons_self, hpages]
      refine ⟨fun hnil => absurd hnil (by simp), fun _ => hcreated, fun page hpage => ?_⟩
      rw [List.getLast?_concat, Option.some.injEq] at hpage
      subst hpage
      exact ⟨hdecodes.moved 0, hgeneration, hsheet⟩
    · rw [changes_cons_of_ne hd, hbase.pages_follow_of_ne hgives hr hwritten (hdocument.symm ▸ hd), hothers document hd]
      exact h.reflects document

/-! ## The current revision -/

/-- The revision that follows another one with the same body, at a place. -/
def following (r : Revision) (sequence : UInt64) : Revision :=
  ⟨r.document, .derive (some r.id) r.body, some r.id, sequence, r.body⟩

theorem moved_following (r : Revision) (s t : UInt64) : (following r s).moved t = following r t := rfl

/-- The current revision of a document, and what the changes of the document say about it. -/
structure Chronicle.Current (deeds : List Deed) (v : Vault) (written : List Revision) (document : String)
    (r : Revision) : Prop where
  current_eq : current v document = .ok r
  mem : r ∈ written
  document_eq : r.document = document
  created : .create ∈ changes document deeds
  decodes : r.Decodes
  generation_eq : r.id.generation.toNat = 1 + advances (changes document deeds)
  sheet_eq : sheet v.store.attachments r.sequence = sheetOf (changes document deeds)
  nextOf_eq : nextOf r.document (placeless r.document written) r.id r.body = .ok (following r 0)

theorem Chronicle.current {v : Vault} (h : Chronicle deeds v.store written) (document : String) :
    (.create ∉ changes document deeds ∧ Cli.current v document = .error (.noDocument document)) ∨
      ∃ r, Chronicle.Current deeds v written document r := by
  have hreflects := h.reflects document
  have hdocuments := h.records.documents document
  unfold Cli.current Store.get
  cases hlast : (ofDocument document written).getLast? with
  | none =>
    rw [hlast] at hdocuments
    have hpages : v.store.pages written document = [] := by
      rw [Store.pages, List.getLast?_eq_none_iff.1 hlast, List.map_nil]
    refine .inl ⟨?_, by rw [hdocuments]; rfl⟩
    rw [hreflects.blank hpages]
    exact List.not_mem_nil
  | some r =>
    rw [hlast] at hdocuments
    obtain ⟨hmem, hdocument⟩ : r ∈ written ∧ r.document = document :=
      Store.mem_ofDocument.1 (List.mem_of_getLast? hlast)
    have hpage : (v.store.pages written document).getLast? =
        some ⟨r.moved 0, sheet v.store.attachments r.sequence⟩ := by
      rw [Store.pages, List.getLast?_map, hlast]
      rfl
    obtain ⟨hdecodes, hgeneration, hsheet⟩ := hreflects.last _ hpage
    have hr : r.Decodes := hdecodes.moved r.sequence
    have hpages : v.store.pages written document ≠ [] := fun hnil => by
      rw [hnil] at hpage
      cases hpage
    refine .inr ⟨r, ?_, hmem, hdocument, hreflects.created hpages, hr, hgeneration, hsheet, ?_⟩
    · have hread : Revision.ofText? r.text = some r := hr
      simp only [Cli.current, Store.get, hdocuments, Option.map_some, Store.revision, h.records.rows r hmem, hread]
    · have hplaceless : (placeless r.document written).getLast? = some (r.moved 0) := by
        rw [placeless, List.getLast?_map, hdocument, hlast]
        rfl
      have hread : Revision.ofText? (r.moved 0).text = some (r.moved 0) := hdecodes
      simp only [nextOf, Store.currentOf, hplaceless, hread]
      exact if_pos rfl

theorem Chronicle.Current.following {v : Vault} {document : String} {r : Revision}
    (h : Chronicle.Current deeds v written document r) (hroom : deeds.length + 1 < UInt64.size) (sequence : UInt64) :
    (Cli.following r sequence).Decodes ∧
      (Cli.following r sequence).id.generation.toNat = 1 + (advances (changes document deeds) + 1) := by
  have hlt := advances_lt_length h.created
  have hle := length_changes_le document deeds
  have hgeneration := h.generation_eq
  have hfits : r.id.generation.toNat + 1 < UInt64.size := by omega
  have htoNat := RevisionId.toNat_nextGeneration_some hfits
  have hne : RevisionId.nextGeneration (some r.id) ≠ 0 := fun he => by
    rw [he] at htoNat
    exact absurd htoNat.symm (Nat.succ_ne_zero _)
  obtain ⟨-, -, hbody⟩ := Revision.decodes_iff.1 h.decodes
  refine ⟨Revision.decodes_derived hne h.decodes.parentRead? hbody r.document sequence, ?_⟩
  show (RevisionId.nextGeneration (some r.id)).toNat = _
  omega

/-! ## Changes that succeed -/

/-- **The tables after a document was created.** -/
theorem Chronicle.create (h : Chronicle deeds s written) (hroom : deeds.length + 1 < UInt64.size) {document : String}
    {body : Json} (hbody : (s.next document none body).Decodes) {r : Revision} {after : Store}
    (hcreate : s.create document body = .ok (r, after)) :
    Chronicle (⟨document, .create⟩ :: deeds) after (written ++ [r]) := by
  unfold Store.create at hcreate
  split at hcreate
  · cases hcreate
  · next hnone =>
    cases hcreate
    have hpages : s.pages written document = [] := by
      rw [h.records.documents, Option.map_eq_none_iff, List.getLast?_eq_none_iff] at hnone
      rw [Store.pages, hnone, List.map_nil]
    have hchanges : changes document deeds = [] := (h.reflects document).blank hpages
    have hwritten : written.length + 1 < UInt64.size := by
      have hle := h.length_le
      omega
    refine h.follow hroom h.records (fun _ _ => rfl) rfl rfl
      (h.records.gives_next hwritten) List.mem_cons_self hbody ?_ ?_
    · rw [hchanges]
      rfl
    · rw [hchanges]
      rfl

section OnCurrent

variable {v : Vault} (h : Chronicle deeds v.store written) (hroom : deeds.length + 1 < UInt64.size)
  {document : String} {r : Revision} (hcurrent : Chronicle.Current deeds v written document r)

include h hroom hcurrent

/-- **The tables after something was attached**, with the content that came out of its source. -/
theorem Chronicle.attach {opener : FileOpener} {a : Attachment} {next : Revision} {after : Vault}
    (hadd : v.addAll opener r [a] = (.ok next, after)) :
    ∃ content, a.source.content? opener v.blobs = some content ∧
      Chronicle (⟨document, .attach a.name a.mediaType content⟩ :: deeds) after.store (written ++ [next]) := by
  have hwritten : written.length + 1 < UInt64.size := by
    have hle := h.length_le
    omega
  obtain ⟨carried, hsucceed, hkeyed, hgives⟩ := Vault.succeed_of_ok h.records hcurrent.nextOf_eq
  have hcarried := hgives hwritten
  obtain ⟨hdecodes, hgeneration⟩ := hcurrent.following hroom (v.store.last + 1)
  rw [moved_following] at hsucceed
  obtain ⟨store, content, blobs, hnext, hcontent, -, rfl⟩ := Vault.addAll_singleton_eq_ok hadd
  rw [hsucceed] at hnext
  obtain ⟨rfl, rfl⟩ := Prod.mk.inj (Except.ok.inj hnext)
  refine ⟨content, hcontent, ?_⟩
  have hgiven : Gives v.store.attachments
      (AttachmentRow.put carried (Vault.rowFor (following r (v.store.last + 1)) a content)) (v.store.last + 1)
      (Function.update (sheet carried (v.store.last + 1)) a.name
        (some (Vault.rowFor (following r 0) a content))) :=
    hcarried.trans (AttachmentRow.gives_put hkeyed (Vault.rowFor (following r (v.store.last + 1)) a content))
  have hrow := rowFor_eq_row (r := following r 0) rfl hgeneration a content
  rw [hcarried.self, hcurrent.sheet_eq, hrow] at hgiven
  show Chronicle _ ((v.store.append (following r (v.store.last + 1))).withAttachments
    (AttachmentRow.put carried (Vault.rowFor (following r (v.store.last + 1)) a content))) _
  refine h.follow hroom h.records (fun _ _ => rfl) hcurrent.document_eq rfl hgiven
    (List.mem_cons_of_mem _ hcurrent.created) hdecodes hgeneration ?_
  exact (sheetOf_attach a.name a.mediaType content (changes document deeds)).symm

omit hroom in
/-- Removing names that the document does not have changes nothing. -/
theorem Chronicle.keep {names : List String} (hnames : ¬ ∃ name ∈ names, Listed name (changes document deeds)) :
    Chronicle (⟨document, .remove names⟩ :: deeds) v.store written := by
  refine ⟨h.records, Nat.le_succ_of_le h.length_le, fun other => ?_⟩
  have hreflects := h.reflects other
  by_cases hother : other = document
  · subst hother
    have hadvances : advances (.remove names :: changes other deeds) = advances (changes other deeds) := by
      rw [advances, if_neg hnames, Nat.add_zero]
    have hsheet : sheetOf (.remove names :: changes other deeds) = sheetOf (changes other deeds) := by
      rw [sheetOf_remove]
      funext name
      unfold Sheet.without
      split
      · next hname => exact (sheetOf_eq_none_iff.2 fun hlisted => hnames ⟨name, hname, hlisted⟩).symm
      · rfl
    rw [changes_cons_self]
    refine ⟨fun hnil => ?_, fun hne => List.mem_cons_of_mem _ (hreflects.created hne), fun page hpage => ?_⟩
    · have hcreated := hcurrent.created
      rw [hreflects.blank hnil] at hcreated
      exact absurd hcreated List.not_mem_nil
    · rw [hadvances, hsheet]
      exact hreflects.last page hpage
  · rw [changes_cons_of_ne hother]
    exact hreflects

/-- **The tables after names were removed.** -/
theorem Chronicle.remove (hopen : v.poisoned = false) {names : List String} {next : Revision} {after : Vault}
    (hremove : v.remove r names = (.ok next, after)) :
    ∃ written, Chronicle (⟨document, .remove names⟩ :: deeds) after.store written := by
  have hwritten : written.length + 1 < UInt64.size := by
    have hle := h.length_le
    omega
  have hlisted : (∀ name ∈ names, sheet v.store.attachments r.sequence name = none) ↔
      ¬ ∃ name ∈ names, Listed name (changes document deeds) := by
    rw [hcurrent.sheet_eq]
    simp only [sheetOf_eq_none_iff, not_exists, not_and]
  rcases Vault.remove_cases hopen h.records hcurrent.mem names with
    ⟨hnone, hkept⟩ | ⟨hsome, ⟨e, hnext, hfailed⟩ | ⟨later, dropped, table, hnext, hdropped, hdone, hgives⟩⟩
  · rw [hkept] at hremove
    obtain ⟨-, rfl⟩ := Prod.mk.inj hremove
    exact ⟨written, h.keep hcurrent (hlisted.1 hnone)⟩
  · rw [hfailed] at hremove
    cases hremove
  · rw [hcurrent.nextOf_eq] at hnext
    obtain rfl := Except.ok.inj hnext
    rw [hdone] at hremove
    obtain ⟨-, rfl⟩ := Prod.mk.inj hremove
    have hgiven := hgives hwritten
    rw [hcurrent.sheet_eq, ← sheetOf_remove] at hgiven
    have hpresent : ∃ name ∈ names, Listed name (changes document deeds) := by
      by_contra hnone
      exact hsome (hlisted.2 hnone)
    obtain ⟨hdecodes, hgeneration⟩ := hcurrent.following hroom (v.store.last + 1)
    have hbase : (v.store.withAttachments dropped).Records written :=
      h.records.give hdropped (h.records.below r hcurrent.mem)
    refine ⟨written ++ [following r (v.store.last + 1)], ?_⟩
    refine h.follow hroom hbase (fun other hother => ?_) hcurrent.document_eq rfl hgiven
      (List.mem_cons_of_mem _ hcurrent.created) hdecodes ?_ rfl
    · refine h.records.pages_give_of_ne hdropped hcurrent.mem ?_
      rw [hcurrent.document_eq]
      exact hother
    · rw [advances, if_pos hpresent]
      exact hgeneration

end OnCurrent

end Cli

end Docket
