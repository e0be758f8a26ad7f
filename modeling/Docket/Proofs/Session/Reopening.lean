import Docket.Proofs.Remaking
import Docket.Proofs.Session.Standing

/-!
# Opening a layout again

A session that changed nothing leaves a layout that is opened again as it was. A layout that could not be opened cannot
be opened the next time either, and after the first attempt the disk stays as it is. The failure is the same, unless a
directory on the way to the root cannot be made.

* `Layout.open?_close`: a session that changed neither the tables nor the blobs.
* `Layout.openDocuments_again`, **`Layout.open?_again`**: the second attempt.
* `Layout.Agree`: disks on which a layout is opened alike, or never.
-/

namespace Docket

/-- The failure without the reason for which a directory of the documents could not be made. -/
def OpenError.blurred : OpenError → OpenError
  | .documents (.io _) => .documents (.io .other)
  | e => e

namespace Layout

open Disk (placeFrom)
open Session (openDatabase openDocuments openExtension extensionName)

variable {root : String} {d after : Disk} {s : Session}

/-! ## Sessions -/

theorem eq_opened_of_open? (hopen : Session.open? d (.under root) = (.ok s, after)) :
    after = s.disk ∧ s = opened root s.disk s.store := by
  have hlaunched := launched_of_open? hopen
  have hdatabase := hlaunched.databasePlace_eq
  have hblobs := hlaunched.blobPlace_eq
  rw [← hlaunched.held.directory] at hdatabase hblobs
  unfold Session.open? at hopen
  split at hopen
  · cases hopen
  · split at hopen
    · cases hopen
    · cases hopen
      refine ⟨rfl, ?_⟩
      rw [opened, Session.mk.injEq]
      exact ⟨rfl, rfl, hdatabase, hblobs, rfl, rfl, rfl, rfl⟩

/-- **A session that changed neither the tables nor the blobs** is opened again as it was. -/
theorem open?_close (hordered : d.root.Ordered) (hopen : Session.open? d (.under root) = (.ok s, after)) {v : Vault}
    (hstore : v.store = s.vault.store) (hentries : v.blobs.entries = s.vault.blobs.entries) :
    Session.open? (s.resume v).close (.under root) = (.ok s, s.disk) := by
  have hlaunched := launched_of_open? hopen
  have hordered' := hlaunched.held.ordered hordered
  obtain ⟨-, hopened⟩ := eq_opened_of_open? hopen
  obtain ⟨hholds, hstands⟩ := hlaunched.close (hordered _) (v := v) (by rw [hentries]; exact fun _ _ _ => id)
  obtain ⟨entries, hblobs⟩ := hlaunched.blobs
  have hdisk : s.diskWith v.blobs.entries = s.disk := by
    rw [hentries, Session.vault_entries hblobs (hordered' _ _ hblobs), Session.diskWith, Disk.set,
      Node.set_of_get? hordered' hblobs]
  obtain ⟨image, hbusy⟩ := hlaunched.held.busy
  rw [← hlaunched.databasePlace_eq] at hbusy
  have hclose : (s.resume v).close = s.disk.release s.databasePlace s.store := by
    rw [hlaunched.close_eq, hdisk, hstore]
    rfl
  have hplace : databasePlace (placeFrom (s.resume v).close.directory root) = s.databasePlace := by
    rw [hclose, hlaunched.databasePlace_eq, ← hlaunched.held.directory]
    rfl
  have hagain : (s.resume v).close.hold s.databasePlace = s.disk := by
    rw [hclose, Disk.hold_release hbusy, Disk.set, Node.set_of_get? hordered' hbusy]
  have htables : (s.resume v).close.tablesAt s.databasePlace = s.store := by
    rw [← hplace, hholds.tables, hstore]
    rfl
  rw [hstands.open?_eq, hplace, hagain, htables, ← hopened]

/-! ## Failures -/

theorem eq_of_makeDirectories_join {base name : String} (hname : Path.Plain name) (hleads : d.Leads base)
    {e : StoreError} (h : Session.makeDirectories d (Path.join base name) = (.error e, after)) : after = d := by
  obtain ⟨reason, -, hmade⟩ := Session.makeDirectories_eq_error_iff.1 h
  exact Disk.eq_of_makeDirectories_join hname hleads hmade

theorem openDocuments_again (hne : root ≠ "") {e : StoreError}
    (h : openDocuments d (.under root) = (.error e, after)) :
    Session.makeDirectories d root = (.error e, after) ∨ openDocuments after (.under root) = (.error e, after) := by
  unfold openDocuments at h
  split at h
  · next hroot =>
    cases h
    exact .inl hroot
  · next first hroot =>
    refine .inr ?_
    have hleads : first.Leads root := Disk.leads_of_makeDirectories hne (Session.makeDirectories_eq_ok_iff.1 hroot)
    split at h
    · next hextensions =>
      cases h
      obtain rfl := eq_of_makeDirectories_join plain_extensionsDirectory hleads hextensions
      have hroot : Session.makeDirectories after (Config.under root).root = (.ok (), after) :=
        makeDirectories_of_leads hleads
      rw [openDocuments, hroot]
      simp only [hextensions]
    · next before hextensions =>
      obtain rfl := eq_of_openDatabase_error h
      have hthere := Disk.leads_of_makeDirectories (Path.join_ne_empty _ plain_extensionsDirectory)
        (Session.makeDirectories_eq_ok_iff.1 hextensions)
      rw [openDocuments_of_leads hthere]
      exact h

theorem exists_of_openDocuments {here : Place} {store : Store} {held : Disk}
    (h : openDocuments d (.under root) = (.ok (here, store), held)) :
    ∃ before, before.Leads (Config.under root).extensionsPath ∧
      openDatabase before (Config.under root).databasePath = (.ok (here, store), held) := by
  unfold openDocuments at h
  split at h
  · cases h
  · split at h
    · cases h
    · next before hextensions =>
      exact ⟨before, Disk.leads_of_makeDirectories (Path.join_ne_empty _ plain_extensionsDirectory)
        (Session.makeDirectories_eq_ok_iff.1 hextensions), h⟩

theorem eq_of_openExtension_error (hleads : d.Leads (Config.under root).extensionsPath) {e : StoreError}
    (h : openExtension d (.under root) extensionName = (.error e, after)) : after = d := by
  unfold openExtension at h
  split at h
  · next hmade =>
    cases h
    exact eq_of_makeDirectories_join plain_extensionName hleads hmade
  · next made hmade =>
    have hne : (Config.under root).extensionPath extensionName ≠ "" := Path.join_ne_empty _ plain_extensionName
    have hthere := Disk.leads_of_makeDirectories hne (Session.makeDirectories_eq_ok_iff.1 hmade)
    split at h
    · next hplace =>
      rw [hthere.place hne] at hplace
      cases hplace
    · cases h

theorem openDocuments_of_released {here : Place} {store : Store} {held : Disk}
    (h : openDocuments d (.under root) = (.ok (here, store), held)) :
    held.Leads (Config.under root).extensionsPath ∧
      openDocuments (held.release here store) (.under root) = (.ok (here, store), held) := by
  obtain ⟨before, hleads, hdatabase⟩ := exists_of_openDocuments h
  obtain ⟨hplace, hdirectory, -⟩ := openDatabase_spec hdatabase
  obtain ⟨-, rfl, hbusy, -⟩ := Session.openDatabase_eq_ok hdatabase
  have hheld : before.Spares (before.hold here) := Disk.spares_set hdirectory _
  have hreleased : before.Spares ((before.hold here).release here store) :=
    hheld.trans (Disk.spares_set (Node.not_hasDirectory hbusy id) _)
  refine ⟨hheld.leads hleads, ?_⟩
  have hplace' : ((before.hold here).release here store).place (Config.under root).databasePath = .ok here := by
    obtain ⟨hroot, hhere⟩ := (Disk.place_join_eq_ok_iff plain_databaseFile).1 hplace
    exact (Disk.place_join_eq_ok_iff plain_databaseFile).2 ⟨hreleased.leads hroot, hhere⟩
  have htables : Node.get? here ((before.hold here).release here store).root =
      some (.database store ((before.hold here).imageAt here)) :=
    Node.get?_set_self _ (by rw [hbusy]; rfl)
  rw [openDocuments_of_leads (hreleased.leads hleads),
    openDatabase_of_database hplace' (Path.not_endsInSlash_join root plain_databaseFile) htables,
    Disk.hold_release hbusy]
  simp only [Disk.hold, Disk.set, Node.set_set]

/-- **A layout that could not be opened cannot be opened the second time**, and nothing more is made. The failure is the
same if the root can be made or its path does not step up. -/
theorem open?_again (hne : root ≠ "") {e : OpenError} (h : Session.open? d (.under root) = (.error e, after)) :
    ∃ second, Session.open? after (.under root) = (.error second, after) ∧ second.blurred = e.blurred ∧
      (".." ∉ Path.segments root ∨ (d.makeDirectories root).1 = .ok () → second = e) := by
  unfold Session.open? at h
  split at h
  · next cause made hdocuments =>
    cases h
    rcases openDocuments_again hne hdocuments with hroot | hagain
    · obtain ⟨reason, rfl, hmade⟩ := Session.makeDirectories_eq_error_iff.1 hroot
      obtain ⟨second, hsecond, hsame⟩ := Disk.makeDirectories_again hmade
      have hagain : Session.makeDirectories after (Config.under root).root = (.error (.io second), after) :=
        Session.makeDirectories_eq_error_iff.2 ⟨second, rfl, hsecond⟩
      refine ⟨.documents (.io second), ?_, rfl, ?_⟩
      · rw [Session.open?, openDocuments, hagain]
      · rintro (hdots | hok)
        · rw [hsame hdots]
        · rw [hmade] at hok
          cases hok
    · refine ⟨.documents cause, ?_, rfl, fun _ => rfl⟩
      rw [Session.open?, hagain]
  · next here store held hdocuments =>
    obtain ⟨hleads, hagain⟩ := openDocuments_of_released hdocuments
    split at h
    · next cause made hextension =>
      cases h
      obtain rfl := eq_of_openExtension_error hleads hextension
      refine ⟨.attachments cause, ?_, rfl, fun _ => rfl⟩
      rw [Session.open?, hagain]
      simp only [hextension]
    · cases h

/-! ## Disks on which a layout is opened alike -/

/-- A layout cannot be opened, and the attempt makes nothing that helps. `told` is what is told of a failure, and it is
the same for every attempt. -/
def Fails (told : OpenError → OpenError) (root : String) (failure : OpenError) (d : Disk) : Prop :=
  ∃ first second after, Session.open? d (.under root) = (.error first, after) ∧
    Session.open? after (.under root) = (.error second, after) ∧ told first = failure ∧ told second = failure

theorem Fails.again {told : OpenError → OpenError} {failure : OpenError} (h : Fails told root failure d) :
    ∃ first after, Session.open? d (.under root) = (.error first, after) ∧ told first = failure ∧
      Fails told root failure after := by
  obtain ⟨first, second, after, hopen, hagain, hfirst, hsecond⟩ := h
  exact ⟨first, after, hopen, hfirst, second, second, after, hagain, hagain, hsecond, hsecond⟩

/-- On two disks a layout is opened to the same session, or on neither. -/
inductive Agree (told : OpenError → OpenError) (root : String) (d d' : Disk) : Prop
  | opens (s : Session) (hordered : d.root.Ordered) (h : Session.open? d (.under root) = (.ok s, s.disk))
      (h' : Session.open? d' (.under root) = (.ok s, s.disk))
  | fails (failure : OpenError) (h : Fails told root failure d) (h' : Fails told root failure d')

theorem Stands.agree (h : Stands root d) (hordered : d.root.Ordered) (told : OpenError → OpenError) :
    Agree told root d d := .opens _ hordered h.open?_eq h.open?_eq

/-- A disk agrees with itself if the second attempt to open the layout fails as the first. -/
theorem agree_self (hordered : d.root.Ordered) {told : OpenError → OpenError}
    (hagain : ∀ e after, Session.open? d (.under root) = (.error e, after) →
      ∃ second, Session.open? after (.under root) = (.error second, after) ∧ told second = told e) :
    Agree told root d d := by
  cases hopen : Session.open? d (.under root) with
  | mk answer after =>
    cases answer with
    | ok s =>
      obtain ⟨rfl, -⟩ := eq_opened_of_open? hopen
      exact .opens s hordered hopen hopen
    | error e =>
      obtain ⟨second, hsecond, hsame⟩ := hagain e after hopen
      have hfails : Fails told root (told e) d := ⟨e, second, after, hopen, hsecond, rfl, hsame⟩
      exact .fails _ hfails hfails

/-- A session leaves the names of all directories in order, if it adds no directory among its blobs. -/
theorem ordered_close (hordered : d.root.Ordered) (hopen : Session.open? d (.under root) = (.ok s, after)) {v : Vault}
    (hdirectories : ∀ name child, child.IsDirectory → v.blobs.entries.get? name = some child →
      s.vault.blobs.entries.get? name = some child) : (s.resume v).close.root.Ordered := by
  have hlaunched := launched_of_open? hopen
  have hordered' := hlaunched.held.ordered hordered
  obtain ⟨entries, hentries⟩ := hlaunched.blobs
  have hascending : Ascending entries := hordered' _ _ hentries
  rw [Session.vault_entries hentries hascending] at hdirectories
  have hblobs : (Node.directory v.blobs.entries.entries).Ordered := by
    refine Node.ordered_directory v.blobs.entries.ascending fun name child hchild => ?_
    by_cases hdirectory : child.IsDirectory
    · have hold : Table.find? name entries = some child := hdirectories name child hdirectory hchild
      refine hordered'.of_get? (p := s.blobPlace ++ [name]) ?_
      rw [Node.get?_append, hentries, Option.bind_some, Node.get?_cons_directory, hold]
      rfl
    · exact Node.inOrder_of_not_isDirectory hdirectory
  rw [hlaunched.close_eq]
  exact (hordered'.set hblobs _).set (Node.inOrder_of_not_isDirectory id) _

end Layout

end Docket
