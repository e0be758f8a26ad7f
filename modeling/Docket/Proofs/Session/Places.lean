import Docket.Proofs.FileTree
import Docket.Session

/-!
# Where a session stands

A session is in place if its database file is held, its blob directory is there and its two places are where
its configuration puts them. Changes of the vault keep it in place, and closing and opening it again bring back
the same places, the same tables and the same files.

* `Session.InPlace`: the database file and the blob directory are where they should be.
* `Session.InPlace.resume`: a changed vault is what the session has afterwards.
* **`Session.InPlace.reopen`**: opening a closed session again.
-/

namespace Docket

namespace Session

theorem vault_entries {s : Session} {entries : List (String × Node)}
    (hentries : Node.get? s.blobPlace s.disk.root = some (.directory entries)) (hascending : Ascending entries) :
    s.vault.blobs.entries = ⟨entries, hascending⟩ := by
  unfold Session.vault
  simp only [hentries]
  exact Table.ofList_of_ascending hascending

/-- The database file is held, the blob directory is there, its names are in order, the database is not in it,
and both are where the configuration puts them. -/
structure InPlace (s : Session) : Prop where
  databasePlace_eq : s.databasePlace = Disk.placeFrom s.disk.directory s.config.databasePath
  blobPlace_eq : s.blobPlace = Disk.placeFrom s.disk.directory s.blobDirectory
  database : ∃ image, Node.get? s.databasePlace s.disk.root = some (.busy image)
  blobs : ∃ entries, Node.get? s.blobPlace s.disk.root = some (.directory entries) ∧ Ascending entries
  apart : ¬ s.blobPlace <+: s.databasePlace

namespace InPlace

variable {s : Session} (h : s.InPlace)

include h

theorem not_above : ¬ s.databasePlace <+: s.blobPlace := by
  obtain ⟨image, hdatabase⟩ := h.database
  obtain ⟨entries, hentries, -⟩ := h.blobs
  exact Node.not_above_of_get? hdatabase id hentries trivial

theorem get?_blobPlace : Node.get? s.blobPlace s.disk.root = some (.directory s.vault.blobs.entries.entries) := by
  obtain ⟨entries, hentries, hascending⟩ := h.blobs
  rw [vault_entries hentries hascending, hentries]

theorem get?_file (name : String) :
    Node.get? (s.blobPlace ++ [name]) s.disk.root = s.vault.blobs.entries.get? name := by
  rw [Node.get?_append, h.get?_blobPlace, Option.bind_some, Node.get?_cons_directory, Table.get?]
  cases Table.find? name s.vault.blobs.entries.entries <;> rfl

theorem get?_diskWith (entries : Table String Node) :
    Node.get? s.blobPlace (s.diskWith entries).root = some (.directory entries.entries) :=
  Node.get?_set_self _ (by rw [h.get?_blobPlace]; rfl)

theorem resume (v : Vault) : (s.resume v).InPlace where
  databasePlace_eq := h.databasePlace_eq
  blobPlace_eq := h.blobPlace_eq
  database := by
    obtain ⟨image, hdatabase⟩ := h.database
    exact ⟨image, (Node.get?_set_of_apart _ h.not_above h.apart _).trans hdatabase⟩
  blobs := ⟨_, h.get?_diskWith _, v.blobs.entries.ascending⟩
  apart := h.apart

/-- A changed vault is what the session has afterwards; only the path of its directory is that of the layout. -/
theorem vault_resume (v : Vault) :
    (s.resume v).vault = { v with blobs := { v.blobs with directory := s.blobDirectory } } := by
  have hentries : (s.resume v).vault.blobs.entries = v.blobs.entries :=
    vault_entries (h.get?_diskWith _) v.blobs.entries.ascending
  show Vault.mk v.store ⟨s.blobDirectory, (s.resume v).vault.blobs.entries, v.blobs.staging, v.blobs.next⟩
    v.poisoned = _
  rw [hentries]

end InPlace

/-! ## Opening -/

theorem makeDirectories_eq_ok_iff {d made : Disk} {path : String} :
    makeDirectories d path = (.ok (), made) ↔ d.makeDirectories path = (.ok (), made) := by
  unfold makeDirectories
  split
  · next h =>
    rw [h]
    exact iff_of_false nofun nofun
  · next h =>
    rw [h]
    constructor <;> rintro ⟨⟩ <;> rfl

theorem makeDirectories_eq_error_iff {d made : Disk} {path : String} {e : StoreError} :
    makeDirectories d path = (.error e, made) ↔
      ∃ reason, e = .io reason ∧ d.makeDirectories path = (.error reason, made) := by
  unfold makeDirectories
  split
  · next reason between h =>
    rw [h]
    constructor
    · rintro ⟨⟩
      exact ⟨reason, rfl, rfl⟩
    · rintro ⟨_, rfl, ⟨⟩⟩
      rfl
  · next h =>
    rw [h]
    exact iff_of_false nofun fun ⟨_, _, heq⟩ => nomatch heq

theorem grown_makeDirectories (d : Disk) (path : String) : d.Grown (makeDirectories d path).2 := by
  have hgrown := d.grown_makeDirectories path
  unfold makeDirectories
  split
  · next hmade =>
    rw [hmade] at hgrown
    exact hgrown
  · next hmade =>
    rw [hmade] at hgrown
    exact hgrown

/-- What taking hold of a database file does: it is held afterwards, and the tables are those that it had. -/
theorem openDatabase_eq_ok {d after : Disk} {path : String} {here : Place} {store : Store}
    (h : openDatabase d path = (.ok (here, store), after)) :
    here = Disk.placeFrom d.directory path ∧ after = d.hold here ∧
      Node.get? here after.root = some (.busy (d.imageAt here)) ∧
      ∀ tables image, Node.get? here d.root = some (.database tables image) → store = tables := by
  unfold openDatabase at h
  split at h
  · cases h
  · next place hplace =>
    have heq := Disk.place_eq hplace
    split at h
    · cases h
    · split at h
      · next hnone =>
        cases h
        obtain ⟨above, name, entries, hhere, habove⟩ := Disk.exists_parent_of_place hplace hnone
        refine ⟨heq, rfl, ?_, fun tables image htables => by rw [hnone] at htables; cases htables⟩
        rw [hhere]
        exact Node.get?_set_concat _ habove
      · next hfile =>
        cases h
        refine ⟨heq, rfl, Node.get?_set_self _ ?_, fun tables image htables => by rw [hfile] at htables; cases htables⟩
        rw [hfile]
        rfl
      · next tables bytes hdatabase =>
        cases h
        refine ⟨heq, rfl, Node.get?_set_self _ ?_, fun others image hothers => ?_⟩
        · rw [hdatabase]
          rfl
        · rw [hdatabase] at hothers
          cases hothers
          rfl
      · cases h

theorem openDocuments_eq_ok {d after : Disk} {config : Config} {here : Place} {store : Store}
    (h : openDocuments d config = (.ok (here, store), after)) :
    ∃ before, d.Grown before ∧ openDatabase before config.databasePath = (.ok (here, store), after) := by
  unfold openDocuments at h
  have hroot := grown_makeDirectories d config.root
  split at h
  · cases h
  · next first hfirst =>
    rw [hfirst] at hroot
    have hextensions := grown_makeDirectories first config.extensionsPath
    split at h
    · cases h
    · next before hbefore =>
      rw [hbefore] at hextensions
      exact ⟨before, hroot.trans hextensions, h⟩

theorem openExtension_eq_ok {d after : Disk} {config : Config} {name : String} {here : Place}
    (h : openExtension d config name = (.ok here, after)) :
    d.Grown after ∧ here = Disk.placeFrom d.directory (config.extensionPath name) := by
  unfold openExtension at h
  have hgrown := grown_makeDirectories d (config.extensionPath name)
  split at h
  · cases h
  · next made hmade =>
    rw [hmade] at hgrown
    split at h
    · cases h
    · next place hplace =>
      cases h
      exact ⟨hgrown, hgrown.directory ▸ Disk.place_eq hplace⟩

/-- What opening a layout does: the directories on the way are made, the database file is held, and the
directory of blobs is made. -/
structure Opens (d : Disk) (config : Config) (s : Session) (before : Disk) : Prop where
  config_eq : s.config = config
  databasePlace_eq : s.databasePlace = Disk.placeFrom d.directory config.databasePath
  blobPlace_eq : s.blobPlace = Disk.placeFrom d.directory (config.extensionPath extensionName)
  grown_before : d.Grown before
  held : Node.get? s.databasePlace (before.hold s.databasePlace).root =
    some (.busy (before.imageAt s.databasePlace))
  grown_after : (before.hold s.databasePlace).Grown s.disk
  store_eq : ∀ tables image, Node.get? s.databasePlace before.root = some (.database tables image) → s.store = tables

theorem exists_opens {d : Disk} {config : Config} {s : Session} (h : (open? d config).1 = .ok s) :
    ∃ before, Opens d config s before := by
  unfold open? at h
  split at h
  · cases h
  · next databasePlace store middle hdocuments =>
    obtain ⟨before, hbefore, hdatabase⟩ := openDocuments_eq_ok hdocuments
    obtain ⟨hplace, rfl, hheld, hstore⟩ := openDatabase_eq_ok hdatabase
    split at h
    · cases h
    · next blobPlace disk hextension =>
      obtain ⟨hafter, hblobPlace⟩ := openExtension_eq_ok hextension
      cases h
      refine ⟨before, rfl, ?_, ?_, hbefore, hheld, hafter, hstore⟩
      · rw [← hbefore.directory]
        exact hplace
      · rw [← hbefore.directory]
        exact hblobPlace

theorem Opens.directory_eq {d before : Disk} {config : Config} {s : Session} (h : Opens d config s before) :
    s.disk.directory = d.directory := h.grown_after.directory.trans h.grown_before.directory

theorem Opens.database {d before : Disk} {config : Config} {s : Session} (h : Opens d config s before) :
    ∃ image, Node.get? s.databasePlace s.disk.root = some (.busy image) :=
  ⟨_, ((h.grown_after.root _).1 _ id).2 h.held⟩

theorem Opens.inPlace {d before : Disk} {config : Config} {s : Session} (h : Opens d config s before)
    (hblobs : ∃ entries, Node.get? s.blobPlace s.disk.root = some (.directory entries) ∧ Ascending entries)
    (hapart : ¬ s.blobPlace <+: s.databasePlace) : s.InPlace where
  databasePlace_eq := by rw [h.directory_eq, h.config_eq, h.databasePlace_eq]
  blobPlace_eq := by rw [blobDirectory, h.directory_eq, h.config_eq, h.blobPlace_eq]
  database := h.database
  blobs := hblobs
  apart := hapart

/-! ## Closing and opening again -/

namespace InPlace

variable {s : Session} (h : s.InPlace)

include h

theorem close_eq : s.close = s.disk.release s.databasePlace s.store := by
  obtain ⟨image, hdatabase⟩ := h.database
  rw [close, hdatabase]

theorem get?_databasePlace_close :
    Node.get? s.databasePlace s.close.root = some (.database s.store (s.disk.imageAt s.databasePlace)) := by
  obtain ⟨image, hdatabase⟩ := h.database
  rw [h.close_eq]
  exact Node.get?_set_self _ (by rw [hdatabase]; rfl)

theorem apart_concat (name : String) :
    ¬ s.blobPlace ++ [name] <+: s.databasePlace ∧ ¬ s.databasePlace <+: s.blobPlace ++ [name] := by
  have habove : s.blobPlace <+: s.blobPlace ++ [name] := List.prefix_append _ _
  refine ⟨fun hle => h.apart (habove.trans hle), fun hle => ?_⟩
  rcases List.prefix_concat_iff.1 hle with heq | hle
  · exact h.apart (heq ▸ habove)
  · exact h.not_above hle

section Opens

variable {t : Session} {before : Disk} (hopens : Opens s.close s.config t before)

include hopens

theorem databasePlace_opens : t.databasePlace = s.databasePlace := by
  rw [hopens.databasePlace_eq, h.databasePlace_eq, h.close_eq]
  rfl

theorem blobPlace_opens : t.blobPlace = s.blobPlace := by
  rw [hopens.blobPlace_eq, h.blobPlace_eq, h.close_eq]
  rfl

/-- Making directories leaves the database file alone, so its tables are found again. -/
theorem store_opens : t.store = s.store := by
  have hclosed := ((hopens.grown_before.root _).1 _ id).2 h.get?_databasePlace_close
  rw [← h.databasePlace_opens hopens] at hclosed
  exact hopens.store_eq s.store _ hclosed

/-- A place apart from the database file is not touched by closing and holding it. -/
theorem get?_opens_of_apart {p : Place} (hleft : ¬ p <+: s.databasePlace) (hright : ¬ s.databasePlace <+: p) :
    Node.get? p s.close.root = Node.get? p s.disk.root ∧
      Node.get? p (before.hold t.databasePlace).root = Node.get? p before.root := by
  rw [h.databasePlace_opens hopens, h.close_eq]
  exact ⟨Node.get?_set_of_apart _ hleft hright _, Node.get?_set_of_apart _ hleft hright _⟩

theorem get?_file_opens (name : String) {node : Node} (hnode : ¬ node.IsDirectory) :
    Node.get? (s.blobPlace ++ [name]) t.disk.root = some node ↔
      Node.get? (s.blobPlace ++ [name]) s.disk.root = some node := by
  obtain ⟨hleft, hright⟩ := h.apart_concat name
  obtain ⟨hclose, hbusy⟩ := h.get?_opens_of_apart hopens hleft hright
  rw [(hopens.grown_after.root _).1 node hnode, hbusy, (hopens.grown_before.root _).1 node hnode, hclose]

theorem exists_blobs_opens :
    ∃ entries, Node.get? t.blobPlace t.disk.root = some (.directory entries) ∧ Ascending entries := by
  obtain ⟨hclose, hbusy⟩ := h.get?_opens_of_apart hopens h.apart h.not_above
  have hclosed := hclose.trans h.get?_blobPlace
  obtain ⟨entries, hentries, hascending⟩ := (hopens.grown_before.root _).2 _ hclosed
  obtain ⟨others, hothers, hascending'⟩ := (hopens.grown_after.root _).2 _ (hbusy.trans hentries)
  rw [h.blobPlace_opens hopens]
  exact ⟨others, hothers, hascending' (hascending s.vault.blobs.entries.ascending)⟩

theorem inPlace_opens : t.InPlace := by
  refine hopens.inPlace (h.exists_blobs_opens hopens) ?_
  rw [h.blobPlace_opens hopens, h.databasePlace_opens hopens]
  exact h.apart

theorem get?_entries_opens (name : String) {node : Node} (hnode : ¬ node.IsDirectory) :
    t.vault.blobs.entries.get? name = some node ↔ s.vault.blobs.entries.get? name = some node := by
  rw [← (h.inPlace_opens hopens).get?_file, ← h.get?_file, h.blobPlace_opens hopens]
  exact h.get?_file_opens hopens name hnode

end Opens

/-- **Opening a closed session again** brings back its places, its tables and its files, and what was staged. -/
theorem reopen {t : Session} (hopen : s.reopen?.1 = .ok t) :
    t.InPlace ∧ t.store = s.store ∧ t.staging = s.staging ∧ t.nextTicket = s.nextTicket ∧
      ∀ name node, ¬ node.IsDirectory →
        (t.vault.blobs.entries.get? name = some node ↔ s.vault.blobs.entries.get? name = some node) := by
  unfold reopen? at hopen
  split at hopen
  · cases hopen
  · next opened after hopened =>
    cases hopen
    obtain ⟨before, hopens⟩ := exists_opens (congrArg Prod.fst hopened)
    obtain ⟨hdatabasePlace, hblobPlace, hdatabase, hblobs, hapart⟩ := h.inPlace_opens hopens
    have hstore : opened.store = s.store := h.store_opens hopens
    refine ⟨⟨hdatabasePlace, hblobPlace, hdatabase, hblobs, hapart⟩, hstore, rfl, rfl, fun name node hnode => ?_⟩
    have hentries := h.get?_entries_opens hopens name hnode
    exact hentries

end InPlace

end Session

end Docket
