import Docket.Proofs.Vault.Following
import Docket.Proofs.Vault.Operations

/-!
# Scripts of calls

A script names documents and gives a revision by its number among those of its document, so it can be run from
any state. What a call on a document answers, and what it makes of the pages of the document, depends on these
pages alone; and a call leaves the pages of other documents as they are.

* `Script.Call`, `Script.Step`, `Script.Stage`: calls, steps and the states they lead through.
* `Script.Call.act`: what a call makes of the pages of its document.
* **`Script.Stage.takes_on`**: a call does to the tables what it makes of the pages.
-/

namespace Docket.Script

open AttachmentRow (Sheet sheet Gives Keyed)
open Revision (ofDocument placeless)
open Store (firstOf nextOf)
open Vault (rowFor fill link linkAll Linked)

/-! ## Calls -/

/-- An attachment given by its content. -/
structure Offer where
  name : String
  mediaType : String
  content : Bytes

def Offer.attachment (o : Offer) : Attachment := ⟨o.name, o.mediaType, .bytes o.content⟩

/-- A call on a document. A revision is given by its number among those of the document. -/
inductive Call where
  | create (body : Json)
  | update (parent : RevisionId) (body : Json)
  | add (n : Nat) (o : Offer)
  | addAll (n : Nat) (offers : List Offer)
  | remove (n : Nat) (names : List String)

/-- A call on a document, or a collection. -/
inductive Step where
  | on (document : String) (call : Call)
  | collect

/-- A revision, or the row of a saved attachment. -/
inductive Reply where
  | revision (r : Revision)
  | row (row : AttachmentRow)

/-- What a call answers; nothing if it is on a revision that is not there. -/
abbrev Answer := Option (Except AttachmentError Reply)

namespace Call

/-- The contents that a call gives. -/
def contents : Call → List Bytes
  | .add _ o => [o.content]
  | .addAll _ offers => offers.map (·.content)
  | _ => []

/-- The operation that a call is on a document with these revisions. -/
def operation? (document : String) (revisions : List Revision) : Call → Option Operation
  | .create body => some (.create document body)
  | .update parent body => some (.update document parent body)
  | .add n o => revisions[n]?.map fun r => .add r o.attachment
  | .addAll n offers => revisions[n]?.map fun r => .addAll r (offers.map Offer.attachment)
  | .remove n names => revisions[n]?.map fun r => .remove r names

/-- The answer of a write. -/
def ofWrite : Except StoreError (Revision × Store) → Except AttachmentError Reply
  | .error e => .error (.store e)
  | .ok (r, _) => .ok (.revision r)

/-- What a call answers on a document with these revisions. -/
def answer (opener : FileOpener) (v : Vault) (document : String) (revisions : List Revision) : Call → Answer
  | .create body => some (ofWrite (v.store.create document body))
  | .update parent body => some (ofWrite (v.store.advance document parent body))
  | .add n o => revisions[n]?.map fun r => (v.add opener r o.attachment).1.map fun saved => .row saved.row
  | .addAll n offers => revisions[n]?.map fun r =>
      (v.addAll opener r (offers.map Offer.attachment)).1.map .revision
  | .remove n names => revisions[n]?.map fun r => (v.remove r names).1.map .revision

end Call

/-- The contents that a step gives. -/
def Step.contents : Step → List Bytes
  | .on _ call => call.contents
  | .collect => []

/-! ## States -/

/-- A desk with the revisions that were written on it. -/
structure Stage where
  desk : Desk
  written : List Revision

namespace Stage

/-- No document, and an empty blob directory. -/
def start (directory : String) : Stage := ⟨⟨⟨.empty, .ofEntries directory [], false⟩, []⟩, []⟩

/-- The revisions of a document, in the order in which they were written. -/
def revisions (s : Stage) (document : String) : List Revision := ofDocument document s.written

/-- The pages of a document. -/
def pages (s : Stage) (document : String) : List Page := s.desk.vault.store.pages s.written document

/-- The state after an operation. -/
def perform (opener : FileOpener) (s : Stage) (op : Operation) : Stage :=
  ⟨(op.perform opener s.desk).2, s.written ++ (op.perform opener s.desk).1⟩

/-- The state after a step. -/
def step (opener : FileOpener) (s : Stage) : Step → Stage
  | .on document call =>
    match call.operation? document (s.revisions document) with
    | none => s
    | some op => s.perform opener op
  | .collect => s.perform opener .collect

/-- What a call on a document answers. -/
def answer (opener : FileOpener) (s : Stage) (document : String) (call : Call) : Answer :=
  call.answer opener s.desk.vault document (s.revisions document)

end Stage

/-! ## Without places -/

/-- A broken rule without the place of the row. -/
def placelessFault : RowFault → RowFault
  | .emptyFilename _ => .emptyFilename 0
  | .emptyType filename _ => .emptyType filename 0

/-- A failure without the place of a row. -/
def placelessError : AttachmentError → AttachmentError
  | .invalidRow fault => .invalidRow (placelessFault fault)
  | e => e

/-- A reply without its place. -/
def Reply.placeless : Reply → Reply
  | .revision r => .revision (r.moved 0)
  | .row saved => .row (saved.moved 0)

/-- An answer without places. -/
def placelessAnswer : Answer → Answer :=
  Option.map fun
    | .error e => .error (placelessError e)
    | .ok reply => .ok reply.placeless

/-! ## What a call makes of pages -/

/-- An answer with the pages that there were, and perhaps a new one. -/
structure Act where
  answer : Answer
  kept : List Page
  added : Option Page

namespace Act

/-- All pages. -/
def pages (act : Act) : List Page := act.kept ++ act.added.toList

/-- A write that adds a page with this sheet, or fails and leaves the pages as they were. -/
def write (before kept : List Page) (sheet : Sheet) : Except StoreError Revision → Act
  | .error e => ⟨some (.error (.store e)), before, none⟩
  | .ok r => ⟨some (.ok (.revision r)), kept, some ⟨r, sheet⟩⟩

end Act

/-- The rule that the first faulty attachment breaks. -/
def firstFault? (r : Revision) (offers : List Offer) : Option RowFault :=
  offers.findSome? fun o => (rowFor r o.attachment o.content).fault?

/-- What a call on a document answers and makes of its pages. -/
def Call.act (document : String) (pages : List Page) : Call → Act
  | .create body =>
    .write pages pages Sheet.blank (firstOf document (pages.map (·.revision)) body)
  | .update parent body =>
    .write pages pages Sheet.blank (nextOf document (pages.map (·.revision)) parent body)
  | .add n o =>
    match pages[n]? with
    | none => ⟨none, pages, none⟩
    | some page =>
      let row := rowFor page.revision o.attachment o.content
      match row.fault? with
      | some fault => ⟨some (.error (.invalidRow fault)), pages, none⟩
      | none =>
        ⟨some (.ok (.row row)), pages.set n ⟨page.revision, Function.update page.sheet o.name (some row)⟩, none⟩
  | .addAll n offers =>
    match pages[n]? with
    | none => ⟨none, pages, none⟩
    | some page =>
      match nextOf document (pages.map (·.revision)) page.revision.id page.revision.body with
      | .error e => ⟨some (.error (.store e)), pages, none⟩
      | .ok next =>
        match firstFault? next offers with
        | some fault => ⟨some (.error (.invalidRow fault)), pages, none⟩
        | none =>
          ⟨some (.ok (.revision next)), pages,
            some ⟨next, fill next page.sheet (offers.map fun o => (o.attachment, o.content))⟩⟩
  | .remove n names =>
    match pages[n]? with
    | none => ⟨none, pages, none⟩
    | some page =>
      if ∀ name ∈ names, page.sheet name = none then ⟨some (.ok (.revision page.revision)), pages, none⟩
      else
        .write pages (pages.set n ⟨page.revision, page.sheet.without names⟩) (page.sheet.without names)
          (nextOf document (pages.map (·.revision)) page.revision.id page.revision.body)

/-! ## Attachments given by their contents -/

/-- No entry is a directory. -/
def Flat (b : Blobs) : Prop := ∀ name es, b.entries.get? name ≠ some (.directory es)

section Offers

variable {opener : FileOpener} {b : Blobs} {table : AttachmentTable} {r : Revision}

theorem Flat.adds (h : Flat b) {after : Blobs} {contents : List Bytes} (hadds : b.Adds after contents) :
    Flat after := fun name es hnode => by
  rcases hadds.new name _ hnode with hold | ⟨content, -, -, hfile⟩
  · exact h name es hold
  · cases hfile

theorem content?_offer (opener : FileOpener) (b : Blobs) (o : Offer) :
    o.attachment.source.content? opener b = some o.content := Arrival.content?_whole o.content

variable (opener table r) in
theorem link_offer (hflat : Flat b) (o : Offer) :
    (∃ fault after, (rowFor r o.attachment o.content).fault? = some fault ∧ b.Adds after [] ∧
      link opener b table r o.attachment = (.error (.invalidRow fault), after)) ∨
    ((rowFor r o.attachment o.content).fault? = none ∧ ∃ saved linked after, b.Adds after [o.content] ∧
      link opener b table r o.attachment = (.ok (saved, linked), after)) := by
  have hcontent := content?_offer opener b o
  cases hfault : (rowFor r o.attachment o.content).fault? with
  | some fault =>
    exact .inl ⟨fault, _, rfl, b.adds_touched o.content [], Vault.link_of_fault hcontent hfault⟩
  | none =>
    obtain ⟨after, hadds, hlink⟩ := Vault.link_of_placed table hcontent hfault fun es => hflat _ es
    exact .inr ⟨rfl, _, _, after, hadds, hlink⟩

variable (opener table r) in
theorem linkAll_offers (hflat : Flat b) (offers : List Offer) :
    (∃ fault after contents, firstFault? r offers = some fault ∧ b.Adds after contents ∧
      linkAll opener b table r (offers.map Offer.attachment) = (.error (.invalidRow fault), after)) ∨
    (firstFault? r offers = none ∧ ∃ linked after,
      Linked opener r b table (offers.map Offer.attachment) (offers.map (·.content)) linked after ∧
      linkAll opener b table r (offers.map Offer.attachment) = (.ok linked, after)) := by
  induction offers generalizing b table with
  | nil => exact .inr ⟨rfl, table, b, .nil b table, rfl⟩
  | cons o rest ih =>
    rw [List.map_cons, linkAll, firstFault?, List.findSome?_cons]
    rcases link_offer opener table r hflat o with
      ⟨fault, after, hfault, hadds, hlink⟩ | ⟨hfault, saved, linked, middle, hadds, hlink⟩
    · rw [hfault, hlink]
      exact .inl ⟨fault, after, [], rfl, hadds, rfl⟩
    · rw [hfault, hlink]
      rcases ih linked (hflat.adds hadds) with
        ⟨fault, after, contents, hrest, hadds', hall⟩ | ⟨hrest, all, after, hlinked, hall⟩
      · exact .inl ⟨fault, after, o.content :: contents, hrest, hadds.trans hadds', hall⟩
      · exact .inr ⟨hrest, all, after, .cons (content?_offer opener b o) hlink hlinked, hall⟩

end Offers

section Vaults

variable (opener : FileOpener) {v : Vault} (hopen : v.poisoned = false) (hflat : Flat v.blobs) (r : Revision)

include hopen hflat

theorem add_offer (o : Offer) :
    (∃ fault after, (rowFor r o.attachment o.content).fault? = some fault ∧ v.blobs.Adds after [] ∧
      v.add opener r o.attachment = (.error (.invalidRow fault), { v with blobs := after })) ∨
    ((rowFor r o.attachment o.content).fault? = none ∧ ∃ path after, v.blobs.Adds after [o.content] ∧
      v.add opener r o.attachment = (.ok ⟨rowFor r o.attachment o.content, path⟩, { v with
        store := v.store.withAttachments
          (AttachmentRow.put v.store.attachments (rowFor r o.attachment o.content))
        blobs := after })) := by
  rcases link_offer opener v.store.attachments r hflat o with
    ⟨fault, after, hfault, hadds, hlink⟩ | ⟨hfault, saved, linked, after, hadds, hlink⟩
  · refine .inl ⟨fault, after, hfault, hadds, ?_⟩
    simp [Vault.add_eq_link, hopen, hlink]
  · obtain ⟨content, hcontent, -, -, rfl, rfl⟩ := Vault.link_eq_ok hlink
    rw [content?_offer, Option.some.injEq] at hcontent
    subst hcontent
    refine .inr ⟨hfault, v.blobs.pathOf (.digest o.content), after, hadds, ?_⟩
    simp [Vault.add_eq_link, hopen, hlink]

/-- Attachments given by their contents are added unless the revision is not the current one or one of them breaks
a rule. -/
theorem addAll_offers {written : List Revision} (h : v.store.Records written) (offers : List Offer) :
    (∃ e, nextOf r.document (placeless r.document written) r.id r.body = .error e ∧
      v.addAll opener r (offers.map Offer.attachment) = (.error (.store e), v)) ∨
    ∃ next, nextOf r.document (placeless r.document written) r.id r.body = .ok next ∧
      ((∃ fault after contents, firstFault? (next.moved (v.store.last + 1)) offers = some fault ∧
        v.blobs.Adds after contents ∧ v.addAll opener r (offers.map Offer.attachment) =
          (.error (.invalidRow fault), { v with blobs := after })) ∨
      firstFault? (next.moved (v.store.last + 1)) offers = none ∧ ∃ table after,
        v.blobs.Adds after (offers.map (·.content)) ∧
        v.addAll opener r (offers.map Offer.attachment) = (.ok (next.moved (v.store.last + 1)), { v with
          store := (v.store.append (next.moved (v.store.last + 1))).withAttachments table
          blobs := after }) ∧
        (written.length + 1 < UInt64.size → Gives v.store.attachments table (v.store.last + 1)
          (fill (next.moved 0) (sheet v.store.attachments r.sequence)
            (offers.map fun o => (o.attachment, o.content))))) := by
  cases hnext : nextOf r.document (placeless r.document written) r.id r.body with
  | error e =>
    refine .inl ⟨e, rfl, ?_⟩
    simp [Vault.addAll_eq_linkAll, hopen, Vault.succeed_of_error h hnext]
  | ok next =>
    obtain ⟨carried, hsucceed, hkeyed, hgives⟩ := Vault.succeed_of_ok h hnext
    refine .inr ⟨next, rfl, ?_⟩
    rcases linkAll_offers opener carried (next.moved (v.store.last + 1)) hflat offers with
      ⟨fault, after, contents, hfault, hadds, hall⟩ | ⟨hfault, linked, after, hlinked, hall⟩
    · refine .inl ⟨fault, after, contents, hfault, hadds, ?_⟩
      simp [Vault.addAll_eq_linkAll, hopen, hsucceed, Store.withAttachments, hall]
    · refine .inr ⟨hfault, linked, after, hlinked.adds, ?_, fun hroom => ?_⟩
      · simp [Vault.addAll_eq_linkAll, hopen, hsucceed, Store.withAttachments, hall]
      · have hcarried := hgives hroom
        have hfilled : Gives carried linked (v.store.last + 1) _ := hlinked.gives hkeyed
        rw [List.zip_map', Revision.moved_moved] at hfilled
        have hself : sheet carried (next.moved (v.store.last + 1)).sequence = _ := hcarried.self
        rw [hself] at hfilled
        exact hcarried.trans hfilled

end Vaults

theorem fault?_placeless (r : Revision) (a : Attachment) (content : Bytes) :
    (rowFor r a content).fault?.map placelessFault = (rowFor (r.moved 0) a content).fault? := by
  unfold AttachmentRow.fault?
  show Option.map placelessFault (if a.name = "" then _ else if a.mediaType = "" then _ else _) =
    if a.name = "" then _ else if a.mediaType = "" then _ else _
  split
  · rfl
  · split <;> rfl

theorem firstFault?_placeless (r : Revision) (offers : List Offer) :
    (firstFault? r offers).map placelessFault = firstFault? (r.moved 0) offers := by
  induction offers with
  | nil => rfl
  | cons o rest ih =>
    have hfirst := fault?_placeless r o.attachment o.content
    rw [firstFault?, firstFault?, List.findSome?_cons, List.findSome?_cons, ← hfirst]
    cases (rowFor r o.attachment o.content).fault? with
    | some fault => rfl
    | none => exact ih

/-! ## One call -/

/-- A call answers this and makes this of the pages of its document, as far as there is room for a new revision.
The pages of other documents stay. -/
structure Takes (s after : Stage) (document : String) (answer : Answer) (act : Act) : Prop where
  answer_eq : placelessAnswer answer = act.answer
  written_eq : after.written = s.written ++
    (act.added.map fun page => page.revision.moved (s.desk.vault.store.last + 1)).toList
  flat : Flat after.desk.vault.blobs
  isOpen : after.desk.vault.poisoned = false
  follows : s.written.length + act.added.toList.length < UInt64.size →
    after.desk.vault.store.Records after.written ∧ after.pages document = act.pages ∧
      ∀ other, other ≠ document → after.pages other = s.pages other

/-- The tables hold the revisions that were written, and the blob directory holds no directory. -/
structure Stage.Ready (s : Stage) : Prop where
  records : s.desk.vault.store.Records s.written
  flat : Flat s.desk.vault.blobs
  isOpen : s.desk.vault.poisoned = false

section OneCall

variable {s after : Stage} {document : String}

theorem takes_of_stay (hs : s.Ready) (hstore : after.desk.vault.store = s.desk.vault.store)
    (hwritten : after.written = s.written) (hflat : Flat after.desk.vault.blobs)
    (hopen : after.desk.vault.poisoned = false) {answer placeless : Answer}
    (hanswer : placelessAnswer answer = placeless) :
    Takes s after document answer ⟨placeless, s.pages document, none⟩ where
  answer_eq := hanswer
  written_eq := by
    rw [hwritten]
    exact (List.append_nil _).symm
  flat := hflat
  isOpen := hopen
  follows _ := by
    unfold Stage.pages Act.pages
    rw [hstore, hwritten]
    exact ⟨hs.records, (List.append_nil _).symm, fun _ _ => rfl⟩

theorem takes_of_follow {base : Store} (hbase : base.Records s.written)
    (hlast : base.last = s.desk.vault.store.last)
    (hothers : ∀ other, other ≠ document → base.pages s.written other = s.pages other) {next : Revision}
    (hnext : next.document = document ∧ next.moved 0 = next) {table : AttachmentTable} {given : Sheet}
    (hgives : s.written.length + 1 < UInt64.size → Gives base.attachments table (base.last + 1) given)
    (hstore : after.desk.vault.store = (base.append (next.moved (base.last + 1))).withAttachments table)
    (hwritten : after.written = s.written ++ [next.moved (base.last + 1)])
    (hflat : Flat after.desk.vault.blobs) (hopen : after.desk.vault.poisoned = false) :
    Takes s after document (some (.ok (.revision (next.moved (base.last + 1)))))
      ⟨some (.ok (.revision next)), base.pages s.written document, some ⟨next, given⟩⟩ where
  answer_eq := by
    show some (Except.ok (Reply.revision ((next.moved (base.last + 1)).moved 0))) = _
    rw [Revision.moved_moved, hnext.2]
  written_eq := by
    rw [hwritten, hlast]
    rfl
  flat := hflat
  isOpen := hopen
  follows hroom := by
    obtain ⟨rfl, hmoved⟩ := hnext
    have hgives := hgives hroom
    have hpages := hbase.pages_follow (r := next.moved (base.last + 1)) hgives rfl hroom
    rw [Revision.moved_moved, hmoved] at hpages
    unfold Stage.pages
    rw [hstore, hwritten]
    refine ⟨hbase.follow hgives rfl hroom, hpages, fun other hother => ?_⟩
    exact (hbase.pages_follow_of_ne (r := next.moved (base.last + 1)) hgives rfl hroom hother).trans
      (hothers other hother)

theorem nextOf_eq_ok {revisions : List Revision} {parent : RevisionId} {body : Json} {next : Revision}
    (h : nextOf document revisions parent body = .ok next) : next.document = document ∧ next.moved 0 = next := by
  unfold nextOf at h
  split at h
  · cases h
  · split at h <;> cases h
    exact ⟨rfl, rfl⟩

theorem firstOf_eq_ok {revisions : List Revision} {body : Json} {first : Revision}
    (h : firstOf document revisions body = .ok first) : first.document = document ∧ first.moved 0 = first := by
  unfold firstOf at h
  split at h <;> cases h
  exact ⟨rfl, rfl⟩

theorem takes_write (hs : s.Ready) {result : Except StoreError Revision}
    (hresult : ∀ r, result = .ok r → r.document = document ∧ r.moved 0 = r)
    {write : Except StoreError (Revision × Store)}
    (hwrite : write = result.map fun r => (r.moved (s.desk.vault.store.last + 1),
      s.desk.vault.store.append (r.moved (s.desk.vault.store.last + 1))))
    (hafter : after = ⟨(s.desk.written write).2, s.written ++ (s.desk.written write).1⟩) :
    Takes s after document (some (Call.ofWrite write))
      (.write (s.pages document) (s.pages document) Sheet.blank result) := by
  subst hwrite
  cases result with
  | error e =>
    have hstays : after = s := by
      rw [hafter]
      show (⟨s.desk, s.written ++ []⟩ : Stage) = s
      rw [List.append_nil]
    rw [hstays]
    exact takes_of_stay hs rfl rfl hs.flat hs.isOpen rfl
  | ok r =>
    subst hafter
    exact takes_of_follow hs.records rfl (fun _ _ => rfl) (hresult r rfl) (fun hroom => hs.records.gives_next hroom)
      rfl rfl hs.flat hs.isOpen

variable (opener : FileOpener) (document)

theorem takes_create (hs : s.Ready) (body : Json) :
    Takes s (s.step opener (.on document (.create body))) document (s.answer opener document (.create body))
      (Call.act document (s.pages document) (.create body)) := by
  rw [Call.act, Stage.pages, Store.map_revision_pages]
  exact takes_write hs (fun _ => firstOf_eq_ok) (hs.records.create_eq document body) rfl

theorem takes_update (hs : s.Ready) (parent : RevisionId) (body : Json) :
    Takes s (s.step opener (.on document (.update parent body))) document
      (s.answer opener document (.update parent body))
      (Call.act document (s.pages document) (.update parent body)) := by
  rw [Call.act, Stage.pages, Store.map_revision_pages]
  exact takes_write hs (fun _ => nextOf_eq_ok) (hs.records.advance_eq document parent body) rfl

theorem getElem?_pages (s : Stage) (n : Nat) : (s.pages document)[n]? =
    (s.revisions document)[n]?.map fun r => ⟨r.moved 0, sheet s.desk.vault.store.attachments r.sequence⟩ :=
  List.getElem?_map

theorem takes_missing (hs : s.Ready) {call : Call}
    (hoperation : call.operation? document (s.revisions document) = none)
    (hanswer : s.answer opener document call = none)
    (hact : call.act document (s.pages document) = ⟨none, s.pages document, none⟩) :
    Takes s (s.step opener (.on document call)) document (s.answer opener document call)
      (call.act document (s.pages document)) := by
  have hstep : s.step opener (.on document call) = s := by
    rw [Stage.step, hoperation]
  rw [hstep, hanswer, hact]
  exact takes_of_stay hs rfl rfl hs.flat hs.isOpen rfl

theorem takes_add (hs : s.Ready) (n : Nat) (o : Offer) :
    Takes s (s.step opener (.on document (.add n o))) document (s.answer opener document (.add n o))
      (Call.act document (s.pages document) (.add n o)) := by
  have hpage := getElem?_pages document s n
  cases hr : (s.revisions document)[n]? with
  | none =>
    rw [hr] at hpage
    refine takes_missing document opener hs ?_ ?_ ?_
    · simp [Call.operation?, hr]
    · simp [Stage.answer, Call.answer, hr]
    · simp [Call.act, hpage]
  | some r =>
    rw [hr] at hpage
    have hmem : r ∈ s.written ∧ r.document = document := Store.mem_ofDocument.1 (List.mem_of_getElem? hr)
    have hfault := fault?_placeless r o.attachment o.content
    have hstep : s.step opener (.on document (.add n o)) =
        ⟨{ s.desk with vault := (s.desk.vault.add opener r o.attachment).2 }, s.written⟩ := by
      simp [Stage.step, Call.operation?, hr, Stage.perform, Operation.perform]
    have hanswer : s.answer opener document (.add n o) =
        some ((s.desk.vault.add opener r o.attachment).1.map fun saved => .row saved.row) := by
      simp [Stage.answer, Call.answer, hr]
    rw [hstep, hanswer]
    rcases add_offer opener hs.isOpen hs.flat r o with
      ⟨fault, after, hbroken, hadds, hadd⟩ | ⟨hbroken, path, after, hadds, hadd⟩
    · rw [hbroken] at hfault
      have hact : Call.act document (s.pages document) (.add n o) =
          ⟨some (.error (.invalidRow (placelessFault fault))), s.pages document, none⟩ := by
        simp [Call.act, hpage, ← hfault]
      rw [hadd, hact]
      refine takes_of_stay hs ?_ ?_ ?_ ?_ ?_
      exacts [rfl, rfl, hs.flat.adds hadds, hs.isOpen, rfl]
    · rw [hbroken] at hfault
      have hact : Call.act document (s.pages document) (.add n o) =
          ⟨some (.ok (.row (rowFor (r.moved 0) o.attachment o.content))), (s.pages document).set n ⟨r.moved 0,
            Function.update (sheet s.desk.vault.store.attachments r.sequence) o.name
              (some (rowFor (r.moved 0) o.attachment o.content))⟩, none⟩ := by
        simp [Call.act, hpage, ← hfault]
      have hput : Gives s.desk.vault.store.attachments _ r.sequence _ :=
        AttachmentRow.gives_put hs.records.keyed (rowFor r o.attachment o.content)
      rw [hadd, hact]
      refine ⟨rfl, (List.append_nil _).symm, hs.flat.adds hadds, hs.isOpen, fun _ => ?_⟩
      refine ⟨hs.records.give hput (hs.records.below r hmem.1), ?_, fun other hother => ?_⟩
      · rw [Act.pages, Option.toList_none, List.append_nil]
        exact hs.records.pages_give hput hr
      · exact hs.records.pages_give_of_ne hput hmem.1 (hmem.2.symm ▸ hother)

theorem takes_addAll (hs : s.Ready) (n : Nat) (offers : List Offer) :
    Takes s (s.step opener (.on document (.addAll n offers))) document
      (s.answer opener document (.addAll n offers)) (Call.act document (s.pages document) (.addAll n offers)) := by
  have hpage := getElem?_pages document s n
  cases hr : (s.revisions document)[n]? with
  | none =>
    rw [hr] at hpage
    refine takes_missing document opener hs ?_ ?_ ?_
    · simp [Call.operation?, hr]
    · simp [Stage.answer, Call.answer, hr]
    · simp [Call.act, hpage]
  | some r =>
    rw [hr] at hpage
    obtain ⟨hmem, hdocument⟩ : r ∈ s.written ∧ r.document = document :=
      Store.mem_ofDocument.1 (List.mem_of_getElem? hr)
    have hrevisions : (s.pages document).map (·.revision) = placeless document s.written :=
      Store.map_revision_pages _ _ _
    have hstep : s.step opener (.on document (.addAll n offers)) =
        ⟨(s.desk.followed (s.desk.vault.addAll opener r (offers.map Offer.attachment))).2,
          s.written ++ (s.desk.followed (s.desk.vault.addAll opener r (offers.map Offer.attachment))).1⟩ := by
      simp [Stage.step, Call.operation?, hr, Stage.perform, Operation.perform]
    have hanswer : s.answer opener document (.addAll n offers) =
        some ((s.desk.vault.addAll opener r (offers.map Offer.attachment)).1.map .revision) := by
      simp [Stage.answer, Call.answer, hr]
    have hsame : nextOf document (placeless document s.written) (r.moved 0).id (r.moved 0).body =
        nextOf r.document (placeless r.document s.written) r.id r.body := by rw [hdocument]; rfl
    rw [hstep, hanswer, Call.act, hpage, Option.map_some]
    simp only [hrevisions, hsame]
    rcases addAll_offers opener hs.isOpen hs.flat r hs.records offers with
      ⟨e, hnext, hadd⟩ | ⟨next, hnext, ⟨fault, after, contents, hbroken, hadds, hadd⟩ |
        ⟨hbroken, table, after, hadds, hadd, hgives⟩⟩
    · rw [hadd, hnext]
      refine takes_of_stay hs ?_ ?_ ?_ ?_ ?_
      exacts [rfl, List.append_nil _, hs.flat, hs.isOpen, rfl]
    · have hfault := firstFault?_placeless (next.moved (s.desk.vault.store.last + 1)) offers
      rw [hbroken, Revision.moved_moved, (nextOf_eq_ok hnext).2] at hfault
      rw [hadd, hnext]
      simp only [← hfault]
      refine takes_of_stay hs ?_ ?_ ?_ ?_ ?_
      exacts [rfl, List.append_nil _, hs.flat.adds hadds, hs.isOpen, rfl]
    · have hfault := firstFault?_placeless (next.moved (s.desk.vault.store.last + 1)) offers
      obtain ⟨hnextdocument, hmoved⟩ := nextOf_eq_ok hnext
      rw [hbroken, Revision.moved_moved, hmoved] at hfault
      rw [hmoved] at hgives
      rw [hadd, hnext]
      simp only [← hfault]
      exact takes_of_follow hs.records rfl (fun _ _ => rfl) ⟨hnextdocument.trans hdocument, hmoved⟩ hgives rfl rfl
        (hs.flat.adds hadds) hs.isOpen

theorem takes_remove (hs : s.Ready) (n : Nat) (names : List String) :
    Takes s (s.step opener (.on document (.remove n names))) document
      (s.answer opener document (.remove n names)) (Call.act document (s.pages document) (.remove n names)) := by
  have hpage := getElem?_pages document s n
  cases hr : (s.revisions document)[n]? with
  | none =>
    rw [hr] at hpage
    refine takes_missing document opener hs ?_ ?_ ?_
    · simp [Call.operation?, hr]
    · simp [Stage.answer, Call.answer, hr]
    · simp [Call.act, hpage]
  | some r =>
    rw [hr] at hpage
    obtain ⟨hmem, hdocument⟩ : r ∈ s.written ∧ r.document = document :=
      Store.mem_ofDocument.1 (List.mem_of_getElem? hr)
    have hrevisions : (s.pages document).map (·.revision) = placeless document s.written :=
      Store.map_revision_pages _ _ _
    have hstep : s.step opener (.on document (.remove n names)) =
        if (AttachmentRow.drop s.desk.vault.store.attachments r.sequence names).2 = 0 then s
        else ⟨(s.desk.followed (s.desk.vault.remove r names)).2,
          s.written ++ (s.desk.followed (s.desk.vault.remove r names)).1⟩ := by
      simp only [Stage.step, Call.operation?, hr, Option.map_some, Stage.perform, Operation.perform]
      split
      · rw [List.append_nil]
      · rfl
    have hanswer : s.answer opener document (.remove n names) =
        some ((s.desk.vault.remove r names).1.map .revision) := by
      simp [Stage.answer, Call.answer, hr]
    have hsame : nextOf document (placeless document s.written) (r.moved 0).id (r.moved 0).body =
        nextOf r.document (placeless r.document s.written) r.id r.body := by rw [hdocument]; rfl
    have hzero := AttachmentRow.drop_eq_zero_iff hs.records.keyed r.sequence names
    rw [hstep, hanswer, Call.act, hpage, Option.map_some]
    simp only [hrevisions, hsame, hzero]
    rcases Vault.remove_cases hs.isOpen hs.records hmem names with
      ⟨habsent, hremove⟩ | ⟨hpresent, ⟨e, hnext, hremove⟩ |
        ⟨next, dropped, table, hnext, hdropped, hremove, hgives⟩⟩
    · rw [if_pos habsent, if_pos habsent, hremove]
      exact takes_of_stay hs rfl rfl hs.flat hs.isOpen rfl
    · rw [if_neg hpresent, if_neg hpresent, hremove, hnext]
      refine takes_of_stay hs ?_ ?_ ?_ ?_ ?_
      exacts [rfl, List.append_nil _, hs.flat, hs.isOpen, rfl]
    · obtain ⟨hnextdocument, hmoved⟩ := nextOf_eq_ok hnext
      have hbase := hs.records.give hdropped (hs.records.below r hmem)
      have hkept : (s.desk.vault.store.withAttachments dropped).pages s.written document = (s.pages document).set n _ :=
        hs.records.pages_give hdropped hr
      rw [if_neg hpresent, if_neg hpresent, hremove, hnext, Act.write, ← hkept]
      refine takes_of_follow hbase rfl (fun other hother => ?_) ⟨hnextdocument.trans hdocument, hmoved⟩ hgives rfl
        rfl hs.flat hs.isOpen
      exact hs.records.pages_give_of_ne hdropped hmem (hdocument.symm ▸ hother)

/-- **A call does to the tables what it makes of the pages of its document.** -/
theorem Stage.takes_on (hs : s.Ready) (call : Call) :
    Takes s (s.step opener (.on document call)) document (s.answer opener document call)
      (call.act document (s.pages document)) := by
  cases call with
  | create body => exact takes_create document opener hs body
  | update parent body => exact takes_update document opener hs parent body
  | add n o => exact takes_add document opener hs n o
  | addAll n offers => exact takes_addAll document opener hs n offers
  | remove n names => exact takes_remove document opener hs n names

end OneCall

end Docket.Script
