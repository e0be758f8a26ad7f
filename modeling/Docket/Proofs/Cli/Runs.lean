import Docket.Proofs.Cli.Enacting
import Docket.Proofs.Session.Standing

/-!
# Runs of commands on a disk

Commands are run one after another with the same root, and in between other things may change on the disk, but not under
the root. The deeds of the commands that succeeded say what the store holds, and what is listed of a document.

* `Disk.contentOf?`: the content of the file that a path names.
* `Invocation.deed?`: what a command on a disk does, if it succeeds.
* `Run`: commands and changes elsewhere, with the deeds so far.
* `Tells`: what is under a root is what the deeds made of it.
* **`Run.tells`**: over any run.
* **`list_after_run`**: what is listed after a run.
-/

namespace Docket

/-! ## Files -/

/-- The content of the file that a path names. -/
def Disk.contentOf? (d : Disk) (path : String) : Option Bytes :=
  (Node.get? (placeFrom d.directory path) d.root).bind Node.content?

theorem Disk.locate_eq_ok {d : Disk} {path : String} {here : Place} {node : Node}
    (h : d.locate path = .ok (here, node)) :
    here = placeFrom d.directory path ∧ Node.get? here d.root = some node := by
  unfold locate at h
  cases hplace : d.place path with
  | error reason =>
    rw [hplace] at h
    cases h
  | ok place =>
    rw [hplace] at h
    simp only [bind, Except.bind] at h
    split at h
    · cases h
    · next found hfound =>
      split at h
      · cases h
      · cases h
        exact ⟨place_eq hplace, hfound⟩

theorem Disk.exists_of_openFile {d : Disk} {path : String} {arrivals : List Arrival} {content : Bytes}
    (h : d.openFile path = .ok arrivals) (hcontent : Arrival.content? arrivals = some content) :
    ∃ node, Node.get? (placeFrom d.directory path) d.root = some node ∧ ¬ node.IsDirectory ∧
      node.content? = some content := by
  unfold openFile at h
  cases hlocate : d.locate path with
  | error reason =>
    rw [hlocate] at h
    cases h
  | ok found =>
    obtain ⟨here, node⟩ := found
    obtain ⟨rfl, hnode⟩ := locate_eq_ok hlocate
    simp only [hlocate, bind, Except.bind] at h
    cases hread : node.content? with
    | none =>
      rw [hread] at h
      cases h
      cases hcontent
    | some bytes =>
      rw [hread] at h
      cases h
      rw [Arrival.content?_whole, Option.some.injEq] at hcontent
      exact ⟨node, hnode, Node.not_isDirectory_of_content? hread, hcontent ▸ hread⟩

namespace Cli

open Disk (placeFrom)
open Layout (Holds Stands Launched databasePlace blobPlace)

/-! ## Runs -/

/-- What a command on a disk does, if it succeeds. -/
def Invocation.deed? (i : Invocation) (d : Disk) : Option Deed :=
  match (i.run d).1 with
  | .ok _ => i.command.deed? d.contentOf?
  | .error _ => none

/-- A command with this root. A file that it attaches is outside the root, and a body that it stores is read back. -/
structure Admissible (root : String) (d : Disk) (i : Invocation) : Prop where
  root_eq : i.root = some root
  config_eq : i.config = none
  outside : ∀ document file name mediaType, i.command = .attach document file name mediaType →
    ¬ placeFrom d.directory root <+: placeFrom d.directory file
  decodesBack : i.command.DecodesBack

/-- A change of the disk that leaves alone what is under the root, and the way there. -/
structure Elsewhere (root : String) (d after : Disk) : Prop where
  place_eq : placeFrom after.directory root = placeFrom d.directory root
  node_eq : Node.get? (placeFrom d.directory root) after.root = Node.get? (placeFrom d.directory root) d.root
  leads : d.Leads root → after.Leads root

/-- Commands with one root, and changes elsewhere, with the deeds of the commands that succeeded, the latest first. -/
inductive Run (root : String) (start : Disk) : List Deed → Disk → Prop
  | refl : Run root start [] start
  | command {deeds : List Deed} {d : Disk} (hrun : Run root start deeds d) (i : Invocation)
      (hi : Admissible root d i) : Run root start ((i.deed? d).toList ++ deeds) (i.run d).2
  | elsewhere {deeds : List Deed} {d : Disk} (hrun : Run root start deeds d) {after : Disk}
      (h : Elsewhere root d after) : Run root start deeds after

/-- No store stands under a root: there is no database, and the names in a directory of blobs are in order, if there is
one. -/
structure Vacant (root : String) (d : Disk) : Prop where
  no_database : ∀ tables image,
    Node.get? (databasePlace (placeFrom d.directory root)) d.root ≠ some (.database tables image)
  order : Node.InOrder (blobPlace (placeFrom d.directory root)) d.root

theorem vacant_of_none {root : String} {d : Disk} (h : Node.get? (placeFrom d.directory root) d.root = none) :
    Vacant root d := by
  refine ⟨fun tables image htables => ?_, fun entries hentries => ?_⟩
  · rw [databasePlace, Node.get?_append, h] at htables
    cases htables
  · rw [blobPlace, Node.get?_append, h] at hentries
    cases hentries

/-! ## One step -/

/-- What is under a root is what these deeds made of it. After a deed the layout is complete. -/
structure Tells (root : String) (deeds : List Deed) (d : Disk) : Prop where
  chronicle : ∃ store written, Holds root d store ∧ Chronicle deeds store written
  stands : deeds ≠ [] → Stands root d

theorem Vacant.tells {root : String} {d : Disk} (h : Vacant root d) : Tells root [] d where
  chronicle := ⟨.empty, [], ⟨Disk.tablesAt_of_no_database h.no_database, h.order⟩, chronicle_empty⟩
  stands hne := absurd rfl hne

variable {root : String} {deeds : List Deed} {d : Disk}

theorem Elsewhere.get?_below {after : Disk} (h : Elsewhere root d after) (rest : Place) :
    Node.get? (placeFrom d.directory root ++ rest) after.root = Node.get? (placeFrom d.directory root ++ rest) d.root := by
  rw [Node.get?_append, Node.get?_append, h.node_eq]

theorem Tells.elsewhere (h : Tells root deeds d) {after : Disk} (helsewhere : Elsewhere root d after) :
    Tells root deeds after := by
  have hdatabase : Node.get? (databasePlace (placeFrom d.directory root)) after.root =
      Node.get? (databasePlace (placeFrom d.directory root)) d.root := helsewhere.get?_below _
  have hblobs : Node.get? (blobPlace (placeFrom d.directory root)) after.root =
      Node.get? (blobPlace (placeFrom d.directory root)) d.root := helsewhere.get?_below _
  obtain ⟨store, written, hholds, hchronicle⟩ := h.chronicle
  refine ⟨⟨store, written, ⟨?_, ?_⟩, hchronicle⟩, fun hne => ?_⟩
  · rw [← hholds.tables, Disk.tablesAt, Disk.tablesAt, helsewhere.place_eq, hdatabase]
  · rw [helsewhere.place_eq]
    intro entries hentries
    rw [hblobs] at hentries
    exact hholds.order entries hentries
  · have hstands := h.stands hne
    refine ⟨helsewhere.leads hstands.leads, ?_, ?_⟩
    · rw [helsewhere.place_eq, hdatabase]
      exact hstands.database
    · obtain ⟨entries, hentries⟩ := hstands.blobs
      refine ⟨entries, ?_⟩
      rw [helsewhere.place_eq, hblobs]
      exact hentries

theorem within_of_error {action : Action} {e : OpenError} {after : Disk}
    (h : Session.open? d (.under root) = (.error e, after)) :
    within d (.under root) action = (.error (.opening root e), after) := by
  rw [within, h]
  rfl

theorem within_of_ok {action : Action} {s : Session} {after : Disk}
    (h : Session.open? d (.under root) = (.ok s, after)) : within d (.under root) action =
      ((action s.opener s.vault).1, (s.resume (action s.opener s.vault).2).close) := by
  rw [within, h]
  rfl

/-- An action in a session on the disk. -/
theorem Tells.within (h : Tells root deeds d) {action : Action} {deed? : Option Deed}
    (henacts : ∀ s, Launched root d s → ∀ written, Chronicle deeds s.vault.store written →
      Enacts deeds deed? s.vault (action s.opener s.vault)) :
    (∀ e, (within d (.under root) action).1 = .error e → Tells root deeds (within d (.under root) action).2) ∧
      ∀ text, (within d (.under root) action).1 = .ok text → (deed?.toList ++ deeds).length < UInt64.size →
        Tells root (deed?.toList ++ deeds) (within d (.under root) action).2 := by
  obtain ⟨store, written, hholds, hchronicle⟩ := h.chronicle
  cases hopen : Session.open? d (.under root) with
  | mk answer after =>
    cases answer with
    | error e =>
      rw [within_of_error hopen]
      refine ⟨fun _ _ => ⟨⟨store, written, hholds.of_open?_error hopen, hchronicle⟩, fun hne => ?_⟩,
        fun _ htext => by cases htext⟩
      obtain ⟨s, hs⟩ := (h.stands hne).open?
      rw [hopen] at hs
      cases hs
    | ok s =>
      have hlaunched := Layout.launched_of_open? hopen
      have hstore : s.vault.store = store := hlaunched.store_eq.trans hholds.tables
      have hdone := henacts s hlaunched written (hstore.symm ▸ hchronicle)
      obtain ⟨hheld, hstands⟩ := hlaunched.close hholds.order hdone.directories
      rw [within_of_ok hopen]
      refine ⟨fun e he => ⟨⟨_, written, hheld, ?_⟩, fun _ => hstands⟩, fun text htext hroom => ?_⟩
      · rw [hdone.failed e he, hstore]
        exact hchronicle
      · obtain ⟨written, hwritten⟩ := hdone.done text htext hroom
        exact ⟨⟨_, written, hheld, hwritten⟩, fun _ => hstands⟩

theorem contentOf?_of_launched {s : Session} (h : Launched root d s) {file : String}
    (houtside : ¬ placeFrom d.directory root <+: placeFrom d.directory file) {content : Bytes}
    (hcontent : (Source.file file).content? s.opener s.vault.blobs = some content) :
    d.contentOf? file = some content := by
  unfold Source.content? at hcontent
  split at hcontent
  · cases hcontent
  · next arrivals harrivals =>
    obtain ⟨node, hnode, hfile, hread⟩ := Disk.exists_of_openFile harrivals hcontent
    have hplace : (s.diskWith s.vault.blobs.entries).directory = d.directory := h.held.directory
    rw [hplace] at hnode
    rw [Disk.contentOf?, h.get?_of_outside _ hfile houtside hnode]
    exact hread

/-- With a root and no configuration an invocation is about a selector, it cannot be carried out, or it is an action in a
session. -/
theorem Invocation.run_cases {i : Invocation} {root : String} (hroot : i.root = some root) (hconfig : i.config = none) :
    (∃ text, i.command = .normalize text) ∨ (∃ e, ∀ d, i.run d = (.error e, d)) ∨
      ∃ action, i.command.action i.format = .ok action ∧ ∀ d, i.run d = Cli.within d (.under root) action := by
  have hlayout : ∀ d, layout d i.root i.config = .ok (.under root) := fun d => by rw [hroot, hconfig, layout]
  simp only [Invocation.run]
  split
  · next text htext => exact .inl ⟨text, htext⟩
  · refine .inr ?_
    cases haction : i.command.action i.format with
    | error e => exact .inl ⟨e, fun _ => rfl⟩
    | ok action => exact .inr ⟨action, rfl, fun d => by simp only [hlayout]⟩

/-- A command is an action in a session, or it does nothing. -/
theorem Admissible.run_cases {i : Invocation} (hi : Admissible root d i) :
    ((i.run d).2 = d ∧ i.deed? d = none) ∨
      ∃ action, i.command.action i.format = .ok action ∧ i.run d = Cli.within d (.under root) action := by
  rcases Invocation.run_cases hi.root_eq hi.config_eq with ⟨text, htext⟩ | ⟨e, he⟩ | ⟨action, haction, hrun⟩
  · refine .inl ⟨by rw [Invocation.run, htext], ?_⟩
    rw [Invocation.deed?, htext]
    split <;> rfl
  · exact .inl ⟨by rw [he], by rw [Invocation.deed?, he]⟩
  · exact .inr ⟨action, haction, hrun d⟩

/-- **A command keeps track of its deed.** -/
theorem Tells.command (h : Tells root deeds d) {i : Invocation} (hi : Admissible root d i)
    (hroom : ((i.deed? d).toList ++ deeds).length < UInt64.size) :
    Tells root ((i.deed? d).toList ++ deeds) (i.run d).2 := by
  rcases hi.run_cases with ⟨hdisk, hdeed⟩ | ⟨action, haction, hrun⟩
  · rw [hdisk, hdeed]
    exact h
  · have henacts : ∀ s, Launched root d s → ∀ written, Chronicle deeds s.vault.store written →
        Enacts deeds (i.command.deed? d.contentOf?) s.vault (action s.opener s.vault) := fun s hs written hs' =>
      Command.enacts hs' hs.isOpen haction hi.decodesBack fun document file name mediaType hcommand content =>
        contentOf?_of_launched hs (hi.outside document file name mediaType hcommand)
    obtain ⟨hfailed, hdone⟩ := h.within henacts
    unfold Invocation.deed? at hroom ⊢
    rw [hrun] at hroom ⊢
    cases houtcome : (Cli.within d (.under root) action).1 with
    | error e => exact hfailed e houtcome
    | ok text =>
      rw [houtcome] at hroom
      exact hdone text houtcome hroom

/-! ## Runs -/

/-- **Over any run** what is under the root is what the deeds made of it. -/
theorem Run.tells {start : Disk} (hrun : Run root start deeds d) (hstart : Vacant root start)
    (hroom : deeds.length < UInt64.size) : Tells root deeds d := by
  induction hrun with
  | refl => exact hstart.tells
  | command hrun i hi ih =>
    rw [List.length_append] at hroom
    refine (ih (by omega)).command hi ?_
    rw [List.length_append]
    exact hroom
  | elsewhere hrun h ih => exact (ih hroom).elsewhere h

/-! ## What is listed -/

/-- An attachment as it is printed. -/
def Listing.toJson (x : Listing) : Json :=
  .obj [("name", .str x.name), ("type", .str x.mediaType), ("length", .ofUInt64 (UInt64.ofNat x.content.length)),
    ("revpos", .ofUInt64 (UInt64.ofNat x.revpos)), ("digest", .str (ContentKey.digest x.content).hex)]

theorem exists_listings {changes : List Change} {rows : List AttachmentRow}
    (h : ∀ row ∈ rows, sheetOf changes row.filename = some row) :
    ∃ xs : List Listing, rows = xs.map Listing.row ∧ ∀ x ∈ xs, Shows changes x := by
  induction rows with
  | nil => exact ⟨[], rfl, fun _ h => absurd h List.not_mem_nil⟩
  | cons row rest ih =>
    rw [List.forall_mem_cons] at h
    obtain ⟨hrow, hrest⟩ := h
    obtain ⟨xs, rfl, hxs⟩ := ih hrest
    obtain ⟨x, hx, rfl⟩ := Option.map_eq_some_iff.1 hrow
    exact ⟨x :: xs, rfl, List.forall_mem_cons.2 ⟨shows_iff.2 hx, hxs⟩⟩

theorem exists_listings_of_lists {changes : List Change} {rows : List AttachmentRow}
    (h : (sheetOf changes).Lists rows) : ∃ xs : List Listing, rows = xs.map Listing.row ∧
      xs.Pairwise (fun x y => compare (Text.bytes x.name) (Text.bytes y.name) = .lt) ∧
      ∀ x, x ∈ xs ↔ Shows changes x := by
  obtain ⟨xs, rfl, hxs⟩ := exists_listings fun row hrow => (h.mem_iff row).1 hrow
  refine ⟨xs, rfl, List.pairwise_map.1 h.ascending, fun x => ⟨hxs x, fun hx => ?_⟩⟩
  have hlisting := shows_iff.1 hx
  have hrow : x.row ∈ xs.map Listing.row := by
    rw [h.mem_iff]
    show (listing? changes x.name).map Listing.row = some x.row
    rw [hlisting]
    rfl
  obtain ⟨y, hy, heq⟩ := List.mem_map.1 hrow
  have hname : y.name = x.name := congrArg AttachmentRow.filename heq
  have hother := shows_iff.1 (hxs y hy)
  rw [hname, hlisting, Option.some.injEq] at hother
  rw [hother]
  exact hy

/-- Listing the attachments of a document as JSON. -/
def ls (root document : String) : Invocation := ⟨some root, none, .json, .list document⟩

theorem list_of_current {v : Vault} {written : List Revision} (h : Chronicle deeds v.store written) {document : String}
    {r : Revision} (hr : Chronicle.Current deeds v written document r) (opener : FileOpener) :
    ∃ xs : List Listing, (Action.list .json document opener v).1 = .ok (Json.indented (.arr (xs.map Listing.toJson))) ∧
      xs.Pairwise (fun x y => compare (Text.bytes x.name) (Text.bytes y.name) = .lt) ∧
      ∀ x, x ∈ xs ↔ Shows (changes document deeds) x := by
  obtain ⟨rows, hrows, hlists⟩ := AttachmentRow.rowsAt_spec h.records.keyed r.sequence
  rw [hr.sheet_eq] at hlists
  obtain ⟨xs, rfl, hascending, hmem⟩ := exists_listings_of_lists hlists
  refine ⟨xs, ?_, hascending, hmem⟩
  unfold Action.list onCurrent
  rw [hr.current_eq]
  simp only [Vault.attachments, hrows, Except.map, Format.attachments, List.map_map]
  rfl

/-- **What is listed after a run** that starts without a store. A document can be listed just if it was created. Its
attachments are printed in the order of their names, each name once: those that were attached under a name that no
later change concerns, with the type, the length and the digest of what was attached, and the number of the revision
that it came in with. There may be no more deeds than can be counted, so this number is printed as it is. -/
theorem list_after_run {start : Disk} (hstart : Vacant root start) (hrun : Run root start deeds d)
    (hroom : deeds.length < UInt64.size) (document : String) :
    (⟨document, .create⟩ ∈ deeds → ∃ xs : List Listing,
      ((ls root document).run d).1 = .ok (Json.indented (.arr (xs.map Listing.toJson))) ∧
      xs.Pairwise (fun x y => compare (Text.bytes x.name) (Text.bytes y.name) = .lt) ∧
      (∀ x, x ∈ xs ↔ Shows (changes document deeds) x) ∧ ∀ x ∈ xs, x.revpos < UInt64.size) ∧
    (⟨document, .create⟩ ∉ deeds → ∃ e, ((ls root document).run d).1 = .error e) := by
  obtain ⟨⟨store, written, hholds, hchronicle⟩, hstands⟩ := hrun.tells hstart hroom
  have hls : (ls root document).run d = within d (.under root) (Action.list .json document) := rfl
  rw [hls, ← create_mem_changes]
  refine ⟨fun hcreated => ?_, fun hnever => ?_⟩
  · have hne : deeds ≠ [] := fun hnil => by
      rw [hnil] at hcreated
      exact absurd hcreated List.not_mem_nil
    obtain ⟨s, hopen⟩ := (hstands hne).open?
    have hstore : s.vault.store = store := (Layout.launched_of_open? hopen).store_eq.trans hholds.tables
    rw [within_of_ok hopen]
    rw [← hstore] at hchronicle
    rcases hchronicle.current document with ⟨hnever, -⟩ | ⟨r, hr⟩
    · exact absurd hcreated hnever
    · obtain ⟨xs, houtcome, hascending, hmem⟩ := list_of_current hchronicle hr s.opener
      refine ⟨xs, houtcome, hascending, hmem, fun x hx => ?_⟩
      have hrevpos := ((hmem x).1 hx).revpos_le hcreated
      exact Nat.lt_of_le_of_lt (hrevpos.trans (length_changes_le document deeds)) hroom
  · cases hopen : Session.open? d (.under root) with
    | mk answer after =>
      cases answer with
      | error e =>
        rw [within_of_error hopen]
        exact ⟨_, rfl⟩
      | ok s =>
        have hstore : s.vault.store = store := (Layout.launched_of_open? hopen).store_eq.trans hholds.tables
        rw [within_of_ok hopen, Action.list, onCurrent]
        rw [← hstore] at hchronicle
        rcases hchronicle.current document with ⟨-, hnone⟩ | ⟨r, hr⟩
        · rw [hnone]
          exact ⟨_, rfl⟩
        · exact absurd hr.created hnever

/-! ## A run with an attachment -/

theorem Run.deed {start : Disk} (hrun : Run root start deeds d) {i : Invocation} (hi : Admissible root d i)
    {deed : Deed} (hdeed : i.deed? d = some deed) : Run root start (deed :: deeds) (i.run d).2 := by
  have hstep := hrun.command i hi
  rw [hdeed] at hstep
  exact hstep

/-- A disk with a file beside the place of a store. -/
def beside : Disk := ⟨.directory [("work", .directory [("notes", .file [104, 105])])], ["work"]⟩

/-- A new document with an empty body. -/
def making : Invocation := ⟨some "data", none, .json, .create "a" "\x7b\x7d"⟩

/-- The file under another name. -/
def attaching : Invocation := ⟨some "data", none, .table, .attach "a" "notes" (some "n") "text/plain"⟩

/-- The disk after that. -/
def withNotes : Disk := (attaching.run (making.run beside).2).2

theorem admissible_making : Admissible "data" beside making where
  root_eq := rfl
  config_eq := rfl
  outside _ _ _ _ h := by cases h
  decodesBack := by
    have hread : Json.ofText? "\x7b\x7d" = some (.obj []) := rfl
    exact decodesBack_create hread rfl

theorem admissible_attaching : Admissible "data" (making.run beside).2 attaching where
  root_eq := rfl
  config_eq := rfl
  outside document file name mediaType h := by
    have hdirectory : (making.run beside).2.directory = ["work"] := by decide +kernel
    cases h
    rw [hdirectory]
    decide
  decodesBack := trivial

theorem run_withNotes :
    Run "data" beside [⟨"a", .attach "n" "text/plain" [104, 105]⟩, ⟨"a", .create⟩] withNotes := by
  have hmaking : making.deed? beside = some ⟨"a", .create⟩ := by decide +kernel
  have hattaching : attaching.deed? (making.run beside).2 = some ⟨"a", .attach "n" "text/plain" [104, 105]⟩ := by
    decide +kernel
  exact (Run.refl.deed admissible_making hmaking).deed admissible_attaching hattaching

theorem list_after_run_withNotes : Vacant "data" beside ∧
    Run "data" beside [⟨"a", .attach "n" "text/plain" [104, 105]⟩, ⟨"a", .create⟩] withNotes ∧
    ∃ xs : List Listing, ((ls "data" "a").run withNotes).1 = .ok (Json.indented (.arr (xs.map Listing.toJson))) ∧
      ⟨"n", "text/plain", [104, 105], 2⟩ ∈ xs := by
  have hstart : Vacant "data" beside := vacant_of_none rfl
  obtain ⟨xs, houtcome, -, hmem, -⟩ := (list_after_run hstart run_withNotes (by decide) "a").1 (by decide)
  exact ⟨hstart, run_withNotes, xs, houtcome, (hmem _).2 (shows_iff.2 rfl)⟩

end Cli

end Docket
