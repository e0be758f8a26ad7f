import Docket.Proofs.Session.Places
import Docket.Proofs.Vault.Backing

/-!
# Runs on a disk

A world is a session with the staged files that somebody holds. It goes on by a call, by a change elsewhere on
the disk, or by closing the session and opening it again, which leaves staged files to those who hold them. In a run from
an empty store with an empty blob directory, every row of the table of attachments has its content on the disk at every
point.

* `World.Step`, `World.Run`: the steps of a world with the contents that they take in.
* `World.Sound`: the session is in place and its desk is safe.
* **`World.attachments_readable`**: over any run, every row has its file and every attachment can be read.
-/

namespace Docket

/-- A session with the staged files that are held. -/
structure World where
  session : Session
  held : List Staged
deriving Inhabited

namespace World

/-- The vault as it stands, with the files that are held. -/
def desk (w : World) : Desk := ⟨w.session.vault, w.held⟩

/-- A call in a session, while files are opened in this way. -/
def perform (w : World) (opener : FileOpener) (op : Operation) : World :=
  let d := (op.perform opener w.desk).2
  ⟨w.session.resume d.vault, d.held⟩

/-- The world with another tree on its disk. -/
def onDisk (w : World) (root : Node) : World :=
  { w with session := { w.session with disk := { w.session.disk with root } } }

/-- A step with the contents that it takes in. A call may be given any file, also the database or one that is being
staged, so files are opened in any way, and not only in that of the session. What changes elsewhere leaves the blob
directory as it is, and the database file stays open, but its bytes are not told by the tables and may change. Staged files
that are held when a session is closed are held when it is open again. -/
inductive Step : World → List Bytes → World → Prop
  | call (w : World) (opener : FileOpener) (op : Operation) : Step w (op.supplied opener w.desk) (w.perform opener op)
  | elsewhere (w : World) (root : Node)
      (hdatabase : ∃ image, Node.get? w.session.databasePlace root = some (.busy image))
      (hblobs : Node.get? w.session.blobPlace root = Node.get? w.session.blobPlace w.session.disk.root) :
      Step w [] (w.onDisk root)
  | reopen (w : World) {s : Session} (hopen : w.session.reopen?.1 = .ok s) : Step w [] ⟨s, w.held⟩

/-- Steps in order, with all contents that they take in. -/
inductive Run : World → List Bytes → World → Prop
  | refl (w : World) : Run w [] w
  | step {u v w : World} {early late : List Bytes} (hrun : Run u early v) (hstep : Step v late w) :
      Run u (early ++ late) w

/-! ## One step -/

variable {S : Bytes → Prop}

/-- The session is in place and its desk is safe. -/
structure Sound (S : Bytes → Prop) (w : World) : Prop where
  inPlace : w.session.InPlace
  safe : w.desk.Safe S

theorem extends_directory (b : Blobs) (directory : String) : b.Extends S { b with directory } :=
  ⟨id, fun _ _ => id, fun _ hs => ⟨hs.ticket_lt, hs.content_of⟩⟩

theorem Sound.perform {w : World} (h : w.Sound S) {opener : FileOpener} {op : Operation}
    (hS : ∀ content ∈ op.supplied opener w.desk, S content) : (w.perform opener op).Sound S where
  inPlace := h.inPlace.resume _
  safe := by
    have hsafe := h.safe.perform opener op hS
    have hdesk : (w.perform opener op).desk = (op.perform opener w.desk).2.withBlobs
        { (op.perform opener w.desk).2.vault.blobs with directory := w.session.blobDirectory } := by
      show Desk.mk (w.session.resume (op.perform opener w.desk).2.vault).vault _ = _
      rw [h.inPlace.vault_resume]
      rfl
    rw [hdesk]
    exact hsafe.withBlobs (extends_directory _ _)

theorem Sound.onDisk {w : World} (h : w.Sound S) {root : Node}
    (hdatabase : ∃ image, Node.get? w.session.databasePlace root = some (.busy image))
    (hblobs : Node.get? w.session.blobPlace root = Node.get? w.session.blobPlace w.session.disk.root) :
    (w.onDisk root).Sound S where
  inPlace :=
    { databasePlace_eq := h.inPlace.databasePlace_eq
      blobPlace_eq := h.inPlace.blobPlace_eq
      database := hdatabase
      blobs := by
        obtain ⟨entries, hentries, hascending⟩ := h.inPlace.blobs
        exact ⟨entries, hblobs.trans hentries, hascending⟩
      apart := h.inPlace.apart }
  safe := by
    have hvault : (w.onDisk root).session.vault = w.session.vault := by
      unfold Session.vault
      rw [World.onDisk, hblobs]
      rfl
    show Desk.Safe S ⟨(w.onDisk root).session.vault, w.held⟩
    rw [hvault]
    exact h.safe

/-- Opening the layout again finds the files of all rows, and what was staged stays staged. -/
theorem Sound.reopen {w : World} (h : w.Sound S) {s : Session} (hopen : w.session.reopen?.1 = .ok s) :
    Sound S ⟨s, w.held⟩ := by
  obtain ⟨hplace, hstore, hstaging, hnext, hfiles⟩ := h.inPlace.reopen hopen
  have hkeeps : w.session.vault.blobs.Keeps s.vault.blobs := fun key content hfile => (hfiles _ _ id).2 hfile
  refine ⟨hplace, fun key node hnode => ?_, ?_, fun staged hstaged => ?_⟩
  · by_cases hdirectory : node.IsDirectory
    · exact .inl hdirectory
    · exact h.safe.sound key node ((hfiles _ _ hdirectory).1 hnode)
  · show AllBacked S s.vault.blobs s.store.attachments
    rw [hstore]
    exact h.safe.rows.mono hkeeps
  · have hgenuine := h.safe.held staged hstaged
    refine ⟨?_, fun content hcontent => hgenuine.content_of content ?_⟩
    · exact Nat.lt_of_lt_of_eq hgenuine.ticket_lt hnext.symm
    · show w.session.staging.get? staged.ticket = some content
      rw [← hstaging]
      exact hcontent

theorem Sound.step {w v : World} {contents : List Bytes} (h : w.Sound S) (hstep : Step w contents v)
    (hS : ∀ content ∈ contents, S content) : v.Sound S := by
  cases hstep with
  | call opener op => exact h.perform hS
  | elsewhere root hdatabase hblobs => exact h.onDisk hdatabase hblobs
  | reopen hopen => exact h.reopen hopen

/-! ## Runs -/

theorem Sound.run {w v : World} {contents : List Bytes} (h : w.Sound S) (hrun : Run w contents v)
    (hS : ∀ content ∈ contents, S content) : v.Sound S := by
  induction hrun with
  | refl => exact h
  | step hrun hstep ih =>
    rw [List.forall_mem_append] at hS
    exact (ih hS.1).step hstep hS.2

theorem sound_start {d : Disk} {config : Config} {s : Session} (hopen : (Session.open? d config).1 = .ok s)
    (hstore : s.store = .empty) (hblobs : Node.get? s.blobPlace s.disk.root = some .emptyDirectory) :
    Sound S ⟨s, []⟩ := by
  obtain ⟨before, hopens⟩ := Session.exists_opens hopen
  -- the database file is somewhere, so it is not in an empty directory
  have hapart : ¬ s.blobPlace <+: s.databasePlace := by
    rintro ⟨rest, hrest⟩
    obtain ⟨image, hdatabase⟩ := hopens.database
    rw [← hrest, Node.get?_append, hblobs, Option.bind_some] at hdatabase
    cases rest with
    | nil => cases hdatabase
    | cons name more => cases hdatabase
  have hplace : s.InPlace := hopens.inPlace ⟨[], hblobs, List.Pairwise.nil⟩ hapart
  refine ⟨hplace, fun key node hnode => ?_, fun e he => ?_, fun _ hs => absurd hs List.not_mem_nil⟩
  · have hget := hplace.get?_file key.hex
    have hnode : s.vault.blobs.entries.get? key.hex = some node := hnode
    rw [Node.get?_append, hblobs, hnode] at hget
    cases hget
  · have he : e ∈ s.store.attachments.entries := he
    rw [hstore] at he
    exact absurd he List.not_mem_nil

/-- No two of these contents have the same digest. -/
def Collisionless (contents : List Bytes) : Prop :=
  ∀ x ∈ contents, ∀ y ∈ contents, Sha256.digest x = Sha256.digest y → x = y

/-- **Over any run from an empty store**, every row of the table of attachments can be read, there is a file in the
blob directory under the text of its key whose content has that digest, and the lengths of the row are that of the
file if no two contents that were taken in have the same digest. So the attachments of a revision are always found,
and each of them can be read. -/
theorem attachments_readable {d : Disk} {config : Config} {s : Session} (hopen : (Session.open? d config).1 = .ok s)
    (hstore : s.store = .empty) (hblobs : Node.get? s.blobPlace s.disk.root = some .emptyDirectory)
    {contents : List Bytes} {w : World} (hrun : Run ⟨s, []⟩ contents w) :
    (∀ e ∈ w.session.store.attachments.entries, ∃ row content, AttachmentRow.ofText? e.2 = some row ∧
      Node.get? (w.session.blobPlace ++ [row.content.hex]) w.session.disk.root = some (.file content) ∧
      Sha256.digest content = row.content.bytes ∧
      (Collisionless contents →
        row.length = UInt64.ofNat content.length ∧ row.encodedLength = UInt64.ofNat content.length)) ∧
    (∀ r name, ∃ found, w.session.vault.attachment r name = .ok found ∧
      ∀ a ∈ found, ∃ content, w.session.vault.read a = .ok content) ∧
    ∀ r, ∃ found, w.session.vault.attachments r = .ok found ∧
      ∀ a ∈ found, ∃ content, w.session.vault.read a = .ok content := by
  have hsound : w.Sound (· ∈ contents) := (sound_start hopen hstore hblobs).run hrun fun _ => id
  refine ⟨fun e he => ?_, fun r name => hsound.safe.attachment r name, fun r => hsound.safe.attachments r⟩
  obtain ⟨row, htext, ⟨content, hfile⟩, measure, hmem, hdigest, hlength, hencoded⟩ := hsound.safe.rows e he
  obtain ⟨hcontent, hkey⟩ := hsound.safe.sound.digest_eq hfile
  refine ⟨row, content, ?_, ?_, congrArg ContentKey.bytes hkey, fun hcollisionless => ?_⟩
  · rw [htext, AttachmentRow.ofText?_text]
  · rw [hsound.inPlace.get?_file]
    exact hfile
  · have heq : measure = content :=
      hcollisionless measure hmem content hcontent (congrArg ContentKey.bytes (hdigest.trans hkey.symm))
    rw [← heq]
    exact ⟨hlength, hencoded⟩

/-! ## A run with one attachment -/

/-- A new layout on a blank disk. -/
def fresh : Session where
  disk := ⟨.directory [("work", .directory [("data", .directory [("docsync.redb", .busy []),
    ("extensions", .directory [("attachments", .emptyDirectory)])])])], ["work"]⟩
  config := .under "data"
  databasePlace := ["work", "data", "docsync.redb"]
  blobPlace := ["work", "data", "extensions", "attachments"]
  store := .empty
  staging := ∅
  nextTicket := 0
  poisoned := false

theorem open?_blank : (Session.open? .blank (.under "data")).1 = .ok fresh := (rfl)

/-- A call while files are opened in the way of the session. -/
def call (w : World) (op : Operation) : World := w.perform w.session.opener op

/-- A byte is staged. -/
def withStaged : World := call ⟨fresh, []⟩ (.stage .full [.piece [9]])

/-- The layout is closed and opened again while the staged file is held. -/
def reopened : World := ⟨{ fresh with staging := .insert ∅ 0 [9], nextTicket := 1 }, withStaged.held⟩

theorem reopen?_withStaged : withStaged.session.reopen?.1 = .ok reopened.session := (rfl)

/-- The staged file is given its name, and a document is made. -/
def withDocument : World := (reopened.call (.place 0)).call (.create "a" .null)

/-- Three bytes are attached to its revision. -/
def attaching : Operation := .add (Store.empty.next "a" none .null) ⟨"n", "text/plain", .bytes [1, 2, 3]⟩

/-- The world after that. -/
def withAttachment : World := withDocument.call attaching

theorem run_withAttachment : Run ⟨fresh, []⟩ [[9], [1, 2, 3]] withAttachment := by
  have hstaged : Step ⟨fresh, []⟩ [[9]] withStaged := .call _ _ (.stage .full [.piece [9]])
  have hreopened : Step withStaged [] reopened := .reopen withStaged reopen?_withStaged
  have hplaced : Step reopened [] (reopened.call (.place 0)) := .call _ _ (.place 0)
  have hdocument : Step (reopened.call (.place 0)) [] withDocument := .call _ _ (.create "a" .null)
  have hattachment : Step withDocument [[1, 2, 3]] withAttachment := .call _ _ attaching
  exact .step (.step (.step (.step (.step (.refl _) hstaged) hreopened) hplaced) hdocument) hattachment

theorem attachments_readable_withAttachment :
    withAttachment.session.vault.blobs.entries.entries.length = 2 ∧
      withAttachment.session.store.attachments.entries.length = 1 ∧
      ∀ e ∈ withAttachment.session.store.attachments.entries, ∃ row content,
        AttachmentRow.ofText? e.2 = some row ∧ Sha256.digest content = row.content.bytes ∧
          row.length = UInt64.ofNat content.length := by
  have hcollisionless : Collisionless [[9], [1, 2, 3]] := by
    unfold Collisionless
    decide +kernel
  obtain ⟨hrows, -⟩ := attachments_readable open?_blank rfl rfl run_withAttachment
  refine ⟨by decide +kernel, by decide +kernel, fun e he => ?_⟩
  obtain ⟨row, content, hread, -, hdigest, hlength⟩ := hrows e he
  exact ⟨row, content, hread, hdigest, (hlength hcollisionless).1⟩

end World

end Docket
