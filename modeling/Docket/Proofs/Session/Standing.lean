import Docket.Proofs.Reach
import Docket.Proofs.Session.Places

/-!
# Layouts that stand

What a root directory holds between two sessions: the tables in its database file, and whether the layout is
complete. A session takes over the tables and leaves its own behind; once a session has been opened the layout is
complete, and a complete layout can always be opened again.

* `Layout.Holds`, `Layout.Stands`: the tables under a root, and a layout that is complete.
* **`Layout.Stands.open?`**: a complete layout can be opened.
* `Layout.Holds.of_open?_error`: a layout that could not be opened holds the same tables.
* `Layout.Launched`: what a session has that was opened.
* **`Layout.Launched.close`**: what a session leaves behind.
-/

namespace Docket

/-- The tables of the database file at a place; they are empty if there is none. -/
def Disk.tablesAt (d : Disk) (here : Place) : Store :=
  match Node.get? here d.root with
  | some (.database tables _) => tables
  | _ => .empty

theorem Disk.tablesAt_of_database {d : Disk} {here : Place} {tables : Store} {image : Bytes}
    (h : Node.get? here d.root = some (.database tables image)) : d.tablesAt here = tables := by
  rw [tablesAt, h]

theorem Disk.tablesAt_of_no_database {d : Disk} {here : Place}
    (h : ∀ tables image, Node.get? here d.root ≠ some (.database tables image)) : d.tablesAt here = .empty := by
  unfold tablesAt
  split
  · next tables image htables => exact absurd htables (h tables image)
  · rfl

theorem Disk.Grown.tablesAt {d grown : Disk} (h : Grown d grown) (here : Place) :
    grown.tablesAt here = d.tablesAt here := by
  by_cases hdatabase : ∃ tables image, Node.get? here d.root = some (.database tables image)
  · obtain ⟨tables, image, htables⟩ := hdatabase
    rw [tablesAt_of_database htables, tablesAt_of_database (((h.root here).1 _ id).2 htables)]
  · simp only [not_exists] at hdatabase
    rw [tablesAt_of_no_database hdatabase, tablesAt_of_no_database fun tables image htables =>
      hdatabase tables image (((h.root here).1 _ id).1 htables)]

theorem Disk.imageAt_eq {d : Disk} {here : Place} {node : Node} {image : Bytes}
    (h : Node.get? here d.root = some node) (hcontent : node.content? = some image) : d.imageAt here = image := by
  rw [imageAt, h, Option.bind_some, hcontent, Option.getD_some]

/-- A database file that was opened, closed and opened again is as it was before it was closed. -/
theorem Disk.hold_release {d : Disk} {here : Place} {image : Bytes} (h : Node.get? here d.root = some (.busy image))
    (store : Store) : (d.release here store).hold here = d.set here (.busy image) := by
  have hclosed : Node.get? here (d.release here store).root = some (.database store (d.imageAt here)) :=
    Node.get?_set_self _ (by rw [h]; rfl)
  rw [hold, imageAt_eq hclosed rfl, release, imageAt_eq h rfl]
  simp only [set, Node.set_set]

namespace Layout

open Disk (placeFrom)
open Session (openDatabase openDocuments openExtension extensionName)

/-! ## Places of a layout -/

/-- The database file under a place. -/
def databasePlace (root : Place) : Place := root ++ [Config.standard.databaseFile]

/-- The directory of blobs under a place. -/
def blobPlace (root : Place) : Place := root ++ [Config.standard.extensionsDirectory, extensionName]

theorem plain_databaseFile : Path.Plain Config.standard.databaseFile := ⟨by decide, by decide, by decide, by decide⟩

theorem plain_extensionsDirectory : Path.Plain Config.standard.extensionsDirectory :=
  ⟨by decide, by decide, by decide, by decide⟩

theorem plain_extensionName : Path.Plain extensionName := ⟨by decide, by decide, by decide, by decide⟩

theorem placeFrom_blobDirectory (directory : Place) (root : String) :
    placeFrom directory ((Config.under root).extensionPath extensionName) = blobPlace (placeFrom directory root) := by
  have hextensions : placeFrom directory (Config.under root).extensionsPath = _ :=
    Disk.placeFrom_join root plain_extensionsDirectory directory
  have hblobs : placeFrom directory ((Config.under root).extensionPath extensionName) = _ :=
    Disk.placeFrom_join _ plain_extensionName directory
  rw [hblobs, hextensions, List.append_assoc]
  rfl

theorem root_above_database (root : Place) : root <+: databasePlace root := List.prefix_append _ _

theorem root_above_blobs (root : Place) : root <+: blobPlace root := List.prefix_append _ _

theorem database_apart_blobs (root : Place) :
    ¬ databasePlace root <+: blobPlace root ∧ ¬ blobPlace root <+: databasePlace root := by
  rw [databasePlace, blobPlace, List.prefix_append_right_inj, List.prefix_append_right_inj]
  decide

/-! ## Between sessions -/

/-- The tables under a root, which is a path. The names in its directory of blobs are in order. -/
structure Holds (root : String) (d : Disk) (store : Store) : Prop where
  tables : d.tablesAt (databasePlace (placeFrom d.directory root)) = store
  order : Node.InOrder (blobPlace (placeFrom d.directory root)) d.root

/-- A layout is complete: its root can be reached, and its database file and its directory of blobs are there. -/
structure Stands (root : String) (d : Disk) : Prop where
  leads : d.Leads root
  database : ∃ tables image,
    Node.get? (databasePlace (placeFrom d.directory root)) d.root = some (.database tables image)
  blobs : Node.HasDirectory (blobPlace (placeFrom d.directory root)) d.root

theorem Holds.grown {root : String} {d grown : Disk} {store : Store} (h : Holds root d store)
    (hgrown : d.Grown grown) : Holds root grown store where
  tables := by rw [hgrown.directory, hgrown.tablesAt, h.tables]
  order := by
    rw [hgrown.directory]
    exact hgrown.order _ h.order

/-! ## Opening -/

theorem leads_extensionsPath {root : String} {d : Disk} (hleads : d.Leads root)
    (hblobs : Node.HasDirectory (blobPlace (placeFrom d.directory root)) d.root) :
    d.Leads (Config.under root).extensionsPath := by
  obtain ⟨entries, hentries⟩ := hblobs
  rw [blobPlace, ← List.singleton_append, ← List.append_assoc] at hentries
  exact (Disk.leads_join_iff plain_extensionsDirectory).2 ⟨hleads, Node.hasDirectory_of_above hentries⟩

theorem leads_blobDirectory {root : String} {d : Disk} (hleads : d.Leads root)
    (hblobs : Node.HasDirectory (blobPlace (placeFrom d.directory root)) d.root) :
    d.Leads ((Config.under root).extensionPath extensionName) := by
  refine (Disk.leads_join_iff plain_extensionName).2 ⟨leads_extensionsPath hleads hblobs, ?_⟩
  have hextensions : placeFrom d.directory (Config.under root).extensionsPath = _ :=
    Disk.placeFrom_join root plain_extensionsDirectory d.directory
  rw [hextensions, List.append_assoc]
  exact hblobs

theorem makeDirectories_of_leads {d : Disk} {path : String} (h : d.Leads path) :
    Session.makeDirectories d path = (.ok (), d) := by
  rw [Session.makeDirectories_eq_ok_iff, Disk.makeDirectories_of_leads h]

theorem openDatabase_of_database {d : Disk} {path : String} {here : Place} {tables : Store} {image : Bytes}
    (hplace : d.place path = .ok here) (hslash : ¬ Path.EndsInSlash path)
    (htables : Node.get? here d.root = some (.database tables image)) :
    openDatabase d path = (.ok (here, tables), d.hold here) := by
  rw [openDatabase, hplace]
  simp only [if_neg hslash, htables]

theorem openExtension_of_leads {d : Disk} {config : Config} {name : String} (hne : config.extensionPath name ≠ "")
    (h : d.Leads (config.extensionPath name)) :
    openExtension d config name = (.ok (placeFrom d.directory (config.extensionPath name)), d) := by
  unfold openExtension
  rw [makeDirectories_of_leads h]
  simp only [h.place hne]

theorem openDocuments_of_leads {root : String} {d : Disk} (h : d.Leads (Config.under root).extensionsPath) :
    openDocuments d (.under root) = openDatabase d (Config.under root).databasePath := by
  have hroot : Session.makeDirectories d (Config.under root).root = (.ok (), d) :=
    makeDirectories_of_leads ((Disk.leads_join_iff plain_extensionsDirectory).1 h).1
  rw [openDocuments, hroot]
  simp only [makeDirectories_of_leads h]

/-- A session that has just been opened. -/
def opened (root : String) (disk : Disk) (store : Store) : Session where
  disk := disk
  config := .under root
  databasePlace := databasePlace (placeFrom disk.directory root)
  blobPlace := blobPlace (placeFrom disk.directory root)
  store := store
  staging := ∅
  nextTicket := 0
  poisoned := false

theorem Stands.open?_eq {root : String} {d : Disk} (h : Stands root d) :
    Session.open? d (.under root) =
      (.ok (opened root (d.hold (databasePlace (placeFrom d.directory root)))
          (d.tablesAt (databasePlace (placeFrom d.directory root)))),
        d.hold (databasePlace (placeFrom d.directory root))) := by
  obtain ⟨tables, image, htables⟩ := h.database
  have hdocuments : openDocuments d (.under root) = (.ok (databasePlace (placeFrom d.directory root), tables),
      d.hold (databasePlace (placeFrom d.directory root))) := by
    have hplace : d.place (Config.under root).databasePath = .ok (databasePlace (placeFrom d.directory root)) :=
      (Disk.place_join_eq_ok_iff plain_databaseFile).2 ⟨h.leads, rfl⟩
    have hslash : ¬ Path.EndsInSlash (Config.under root).databasePath :=
      Path.not_endsInSlash_join root plain_databaseFile
    rw [openDocuments_of_leads (leads_extensionsPath h.leads h.blobs)]
    exact openDatabase_of_database hplace hslash htables
  have hspares : d.Spares (d.hold (databasePlace (placeFrom d.directory root))) :=
    Disk.spares_set (Node.not_hasDirectory htables id) _
  have hblobs := hspares.leads (leads_blobDirectory h.leads h.blobs)
  have hextension := openExtension_of_leads (Path.join_ne_empty _ plain_extensionName) hblobs
  rw [placeFrom_blobDirectory] at hextension
  rw [Session.open?, hdocuments, Disk.tablesAt_of_database htables]
  simp only [hextension]
  rfl

/-- **A complete layout can be opened.** -/
theorem Stands.open? {root : String} {d : Disk} (h : Stands root d) :
    ∃ s, Session.open? d (.under root) = (.ok s, s.disk) := ⟨_, h.open?_eq⟩

theorem openDatabase_spec {d after : Disk} {path : String} {here : Place} {store : Store}
    (h : openDatabase d path = (.ok (here, store), after)) :
    d.place path = .ok here ∧ ¬ Node.HasDirectory here d.root ∧ store = d.tablesAt here := by
  unfold openDatabase at h
  cases hplace : d.place path with
  | error reason =>
    simp only [hplace] at h
    cases h
  | ok place =>
    simp only [hplace] at h
    split at h
    · cases h
    · split at h
      · next hnone =>
        cases h
        refine ⟨rfl, Node.not_hasDirectory_of_none hnone, ?_⟩
        rw [Disk.tablesAt, hnone]
      · next hfile =>
        cases h
        refine ⟨rfl, Node.not_hasDirectory hfile id, ?_⟩
        rw [Disk.tablesAt, hfile]
      · next tables image hdatabase =>
        cases h
        refine ⟨rfl, Node.not_hasDirectory hdatabase id, ?_⟩
        rw [Disk.tablesAt, hdatabase]
      · cases h

theorem eq_of_openDatabase_error {d after : Disk} {path : String} {e : StoreError}
    (h : openDatabase d path = (.error e, after)) : after = d := by
  unfold openDatabase at h
  split at h
  · cases h
    rfl
  · split at h
    · cases h
      rfl
    · split at h <;> cases h
      rfl

theorem grown_openDocuments_error {d after : Disk} {config : Config} {e : StoreError}
    (h : openDocuments d config = (.error e, after)) : d.Grown after := by
  unfold openDocuments at h
  have hroot := Session.grown_makeDirectories d config.root
  split at h
  · next hfirst =>
    cases h
    rw [hfirst] at hroot
    exact hroot
  · next first hfirst =>
    rw [hfirst] at hroot
    have hextensions := Session.grown_makeDirectories first config.extensionsPath
    split at h
    · next hsecond =>
      cases h
      rw [hsecond] at hextensions
      exact hroot.trans hextensions
    · next before hbefore =>
      rw [hbefore] at hextensions
      rw [eq_of_openDatabase_error h]
      exact hroot.trans hextensions

/-- A disk on which the database file of a layout is held. Outside the root there are the files of the disk before. -/
structure Held (root : String) (d held : Disk) : Prop where
  directory : held.directory = d.directory
  busy : ∃ image, Node.get? (databasePlace (placeFrom d.directory root)) held.root = some (.busy image)
  leads : held.Leads root
  order : ∀ p, Node.InOrder p d.root → Node.InOrder p held.root
  outside : ∀ p node, ¬ node.IsDirectory → ¬ placeFrom d.directory root <+: p →
    Node.get? p held.root = some node → Node.get? p d.root = some node

theorem Held.grown {root : String} {d held grown : Disk} (h : Held root d held) (hgrown : held.Grown grown) :
    Held root d grown where
  directory := hgrown.directory.trans h.directory
  busy := by
    obtain ⟨image, hbusy⟩ := h.busy
    exact ⟨image, ((hgrown.root _).1 _ id).2 hbusy⟩
  leads := hgrown.spares.leads h.leads
  order p hp := hgrown.order p (h.order p hp)
  outside p node hnode hp hget := h.outside p node hnode hp (((hgrown.root p).1 node hnode).1 hget)

theorem Held.ordered {root : String} {d held : Disk} (h : Held root d held) (hordered : d.root.Ordered) :
    held.root.Ordered := fun p => h.order p (hordered p)

theorem not_above_of_below {root here p : Place} {tree node other : Node} (hp : Node.get? p tree = some node)
    (hnode : ¬ node.IsDirectory) (hhere : Node.get? here tree = some other) (hroot : root <+: here)
    (houtside : ¬ root <+: p) : ¬ p <+: here := by
  intro hle
  obtain ⟨rest, rfl⟩ := hroot
  -- `p` is above `root`, so it is a directory
  rcases List.prefix_or_prefix_of_prefix hle (List.prefix_append root rest) with habove | hbelow
  · obtain ⟨more, rfl⟩ := habove
    cases more with
    | nil =>
      rw [List.append_nil] at houtside
      exact houtside List.prefix_rfl
    | cons name more =>
      rw [List.append_assoc, List.cons_append] at hhere
      obtain ⟨entries, hentries⟩ := Node.hasDirectory_of_above hhere
      rw [hp, Option.some.injEq] at hentries
      rw [hentries] at hnode
      exact hnode trivial
  · exact houtside hbelow

theorem openDocuments_spec {root : String} {d held : Disk} {here : Place} {store : Store}
    (h : openDocuments d (.under root) = (.ok (here, store), held)) :
    Held root d held ∧ here = databasePlace (placeFrom d.directory root) ∧ store = d.tablesAt here := by
  obtain ⟨before, hbefore, hdatabase⟩ := Session.openDocuments_eq_ok h
  obtain ⟨hplace, hdirectory, hstore⟩ := openDatabase_spec hdatabase
  obtain ⟨-, rfl, hbusy, -⟩ := Session.openDatabase_eq_ok hdatabase
  obtain ⟨hleads, hhere⟩ := (Disk.place_join_eq_ok_iff plain_databaseFile).1 hplace
  have hhere : here = databasePlace (placeFrom d.directory root) := by
    rw [← hbefore.directory]
    exact hhere
  have hspares : before.Spares (before.hold here) := Disk.spares_set hdirectory _
  refine ⟨⟨hbefore.directory, ?_, hspares.leads hleads, fun p hp => ?_, fun p node hnode hp hget => ?_⟩, hhere, ?_⟩
  · rw [← hhere]
    exact ⟨_, hbusy⟩
  · exact Node.inOrder_set (Node.inOrder_of_not_isDirectory id) (hbefore.order p hp) here
  · have hroot : placeFrom d.directory root <+: here := hhere ▸ root_above_database _
    have habove : ¬ p <+: here := not_above_of_below hget hnode hbusy hroot hp
    have hsame := Node.get?_set_of_apart (.busy (before.imageAt here)) habove (fun hle => hp (hroot.trans hle))
      before.root
    exact ((hbefore.root p).1 node hnode).1 (hsame.symm.trans hget)
  · rw [hstore, hbefore.tablesAt]

theorem grown_openExtension {d after : Disk} {config : Config} {name : String} {answer : Except StoreError Place}
    (h : openExtension d config name = (answer, after)) : d.Grown after := by
  have hgrown := Session.grown_makeDirectories d (config.extensionPath name)
  unfold openExtension at h
  split at h
  · next hmade =>
    cases h
    rw [hmade] at hgrown
    exact hgrown
  · next made hmade =>
    rw [hmade] at hgrown
    split at h <;> cases h <;> exact hgrown

theorem openExtension_spec {root : String} {d after : Disk} {here : Place}
    (h : openExtension d (.under root) extensionName = (.ok here, after)) :
    here = blobPlace (placeFrom d.directory root) ∧ Node.HasDirectory here after.root := by
  obtain ⟨hgrown, hhere⟩ := Session.openExtension_eq_ok h
  have hblobs := placeFrom_blobDirectory d.directory root
  refine ⟨hhere.trans hblobs, ?_⟩
  unfold openExtension at h
  split at h
  · cases h
  · next made hmade =>
    have hleads := Disk.leads_of_makeDirectories (Path.join_ne_empty _ plain_extensionName)
      (Session.makeDirectories_eq_ok_iff.1 hmade)
    split at h
    · cases h
    · cases h
      rw [hhere, ← hgrown.directory]
      exact hleads.hasDirectory

/-- **A layout that could not be opened** holds the same tables. -/
theorem Holds.of_open?_error {root : String} {d after : Disk} {store : Store} {e : OpenError}
    (h : Holds root d store) (hopen : Session.open? d (.under root) = (.error e, after)) : Holds root after store := by
  unfold Session.open? at hopen
  split at hopen
  · next hdocuments =>
    cases hopen
    exact h.grown (grown_openDocuments_error hdocuments)
  · next here tables held hdocuments =>
    obtain ⟨hheld, rfl, rfl⟩ := openDocuments_spec hdocuments
    split at hopen
    · next grown hextension =>
      cases hopen
      have hgrown := hheld.grown (grown_openExtension hextension)
      refine ⟨?_, ?_⟩
      · show Disk.tablesAt _ (databasePlace (placeFrom grown.directory root)) = store
        obtain ⟨image, hbusy⟩ := hgrown.busy
        rw [hgrown.directory, h.tables]
        refine Disk.tablesAt_of_database (Node.get?_set_self _ ?_)
        rw [hbusy]
        rfl
      · show Node.InOrder (blobPlace (placeFrom grown.directory root)) _
        rw [hgrown.directory]
        exact Node.inOrder_set (Node.inOrder_of_not_isDirectory id) (hgrown.order _ h.order) _
    · cases hopen

/-! ## Sessions -/

/-- A session that was opened on a disk. -/
structure Launched (root : String) (d : Disk) (s : Session) : Prop where
  held : Held root d s.disk
  config_eq : s.config = .under root
  databasePlace_eq : s.databasePlace = databasePlace (placeFrom d.directory root)
  blobPlace_eq : s.blobPlace = blobPlace (placeFrom d.directory root)
  store_eq : s.store = d.tablesAt (databasePlace (placeFrom d.directory root))
  blobs : Node.HasDirectory s.blobPlace s.disk.root
  isOpen : s.poisoned = false

theorem launched_of_open? {root : String} {d after : Disk} {s : Session}
    (hopen : Session.open? d (.under root) = (.ok s, after)) : Launched root d s := by
  unfold Session.open? at hopen
  split at hopen
  · cases hopen
  · next here tables held hdocuments =>
    obtain ⟨hheld, rfl, rfl⟩ := openDocuments_spec hdocuments
    split at hopen
    · cases hopen
    · next blobs disk hextension =>
      obtain ⟨rfl, hblobs⟩ := openExtension_spec hextension
      rw [hheld.directory] at hblobs
      cases hopen
      refine ⟨hheld.grown (grown_openExtension hextension), rfl, rfl, ?_, rfl, ?_, rfl⟩
      · rw [hheld.directory]
      · rw [hheld.directory]
        exact hblobs

theorem spares_diskWith {s : Session} {entries : List (String × Node)}
    (hentries : Node.get? s.blobPlace s.disk.root = some (.directory entries)) {kept : Table String Node}
    (hkept : ∀ name child, child.IsDirectory → Table.find? name entries = some child → kept.get? name = some child) :
    s.disk.Spares (s.diskWith kept) where
  directory := rfl
  kept p hp := by
    have hself : Node.get? s.blobPlace (s.diskWith kept).root = some (.directory kept.entries) :=
      Node.get?_set_self _ (by rw [hentries]; rfl)
    by_cases hbelow : s.blobPlace <+: p
    · obtain ⟨rest, rfl⟩ := hbelow
      unfold Node.HasDirectory at hp ⊢
      rw [Node.get?_append, hself, Option.bind_some]
      rw [Node.get?_append, hentries, Option.bind_some] at hp
      cases rest with
      | nil => exact ⟨_, rfl⟩
      | cons name more =>
        obtain ⟨es, hes⟩ := hp
        rw [Node.get?_cons_directory] at hes
        obtain ⟨child, hchild, hmore⟩ := Option.bind_eq_some_iff.1 hes
        have hnew : Table.find? name kept.entries = some child :=
          hkept name child (Node.isDirectory_of_get? hmore) hchild
        rw [Node.get?_cons_directory, hnew]
        exact ⟨es, hmore⟩
    · exact Node.hasDirectory_set _ hp hbelow

namespace Launched

variable {root : String} {d : Disk} {s : Session} (h : Launched root d s)

include h

theorem get?_blobPlace (entries : Table String Node) :
    Node.get? s.blobPlace (s.diskWith entries).root = some (.directory entries.entries) := by
  obtain ⟨es, hes⟩ := h.blobs
  exact Node.get?_set_self _ (by rw [hes]; rfl)

theorem apart : ¬ s.databasePlace <+: s.blobPlace ∧ ¬ s.blobPlace <+: s.databasePlace := by
  rw [h.databasePlace_eq, h.blobPlace_eq]
  exact database_apart_blobs _

theorem exists_busy (entries : Table String Node) :
    ∃ image, Node.get? s.databasePlace (s.diskWith entries).root = some (.busy image) := by
  obtain ⟨image, hbusy⟩ := h.held.busy
  refine ⟨image, (Node.get?_set_of_apart _ h.apart.1 h.apart.2 _).trans ?_⟩
  rw [h.databasePlace_eq]
  exact hbusy

theorem close_eq (v : Vault) :
    (s.resume v).close = (s.diskWith v.blobs.entries).release s.databasePlace v.store := by
  obtain ⟨image, hbusy⟩ := h.exists_busy v.blobs.entries
  have hheld : Node.get? (s.resume v).databasePlace (s.resume v).disk.root = some (.busy image) := hbusy
  rw [Session.close, hheld]
  rfl

/-- **What a session leaves behind**: a complete layout with its tables, if it keeps the directories among its
blobs. -/
theorem close (horder : Node.InOrder (blobPlace (placeFrom d.directory root)) d.root) {v : Vault}
    (hkept : ∀ name child, child.IsDirectory → s.vault.blobs.entries.get? name = some child →
      v.blobs.entries.get? name = some child) :
    Holds root (s.resume v).close v.store ∧ Stands root (s.resume v).close := by
  obtain ⟨entries, hentries⟩ := h.blobs
  have hascending : Ascending entries := by
    refine h.held.order _ horder entries ?_
    rw [← h.blobPlace_eq]
    exact hentries
  rw [Session.vault_entries hentries hascending] at hkept
  obtain ⟨image, hbusy⟩ := h.exists_busy v.blobs.entries
  have hspares : s.disk.Spares (s.resume v).close := by
    rw [h.close_eq]
    exact (spares_diskWith hentries hkept).trans (Disk.spares_set (Node.not_hasDirectory hbusy id) _)
  have hdirectory : (s.resume v).close.directory = d.directory := hspares.directory.trans h.held.directory
  have hdatabase : Node.get? s.databasePlace (s.resume v).close.root =
      some (.database v.store ((s.diskWith v.blobs.entries).imageAt s.databasePlace)) := by
    rw [h.close_eq]
    exact Node.get?_set_self _ (by rw [hbusy]; rfl)
  have hblobs : Node.get? s.blobPlace (s.resume v).close.root = some (.directory v.blobs.entries.entries) := by
    rw [h.close_eq]
    exact (Node.get?_set_of_apart _ h.apart.2 h.apart.1 _).trans (h.get?_blobPlace _)
  rw [h.databasePlace_eq, ← hdirectory] at hdatabase
  rw [h.blobPlace_eq, ← hdirectory] at hblobs
  refine ⟨⟨Disk.tablesAt_of_database hdatabase, fun es hes => ?_⟩, hspares.leads h.held.leads, ⟨v.store, _, hdatabase⟩,
    ⟨_, hblobs⟩⟩
  rw [hblobs] at hes
  cases hes
  exact v.blobs.entries.ascending

/-- A file outside the root that is found in a session was there before. -/
theorem get?_of_outside (entries : Table String Node) {p : Place} {node : Node} (hnode : ¬ node.IsDirectory)
    (hp : ¬ placeFrom d.directory root <+: p) (hget : Node.get? p (s.diskWith entries).root = some node) :
    Node.get? p d.root = some node := by
  have hroot : placeFrom d.directory root <+: s.blobPlace := h.blobPlace_eq ▸ root_above_blobs _
  have habove : ¬ p <+: s.blobPlace := not_above_of_below hget hnode (h.get?_blobPlace entries) hroot hp
  refine h.held.outside p node hnode hp ?_
  rw [← hget]
  exact (Node.get?_set_of_apart _ habove (fun hle => hp (hroot.trans hle)) _).symm

end Launched

end Layout

end Docket
