import Docket.Proofs.Attachment.Codec
import Docket.Proofs.Attachment.Contents
import Docket.Vault

/-!
# What a collection does

A collection goes through a listing of the directory, one name after the other. What it does with a name depends
on what stands there and on the rows alone, never on the names before it, so the order of the listing does not
matter.

* `Vault.visit_eq`: one name.
* **`Vault.pass_of_perm`**: a listing in whatever order.
* `Vault.collect_eq`: a collection as a survey of the directory and a sweep.
* `Vault.Refers`, `Vault.Readable`: the names that rows refer to, and a table whose rows can be read.
* **`Vault.collect_exact`**: what is removed, kept and counted.
-/

namespace Docket

/-! ## Removal of many -/

namespace Blobs

theorem found?_foldl_without (b : Blobs) (xs : List Listed) (y : Listed) :
    (xs.foldl without b).found? y = if y ∈ xs then none else b.found? y := by
  induction xs generalizing b with
  | nil => rfl
  | cons x rest ih =>
    rw [List.foldl_cons, ih, found?_without]
    by_cases hrest : y ∈ rest
    · rw [if_pos hrest, if_pos (List.mem_cons_of_mem _ hrest)]
    · rw [if_neg hrest]
      simp only [List.mem_cons, hrest, or_false]

theorem directory_foldl_without (b : Blobs) (xs : List Listed) :
    (xs.foldl without b).directory = b.directory ∧ (xs.foldl without b).next = b.next := by
  induction xs generalizing b with
  | nil => exact ⟨rfl, rfl⟩
  | cons x rest ih =>
    rw [List.foldl_cons, (ih _).1, (ih _).2]
    cases x <;> exact ⟨rfl, rfl⟩

end Blobs

namespace Vault

open Blobs (Listed)

variable (keys : List ContentKey)

/-! ## One name -/

/-- A file that is not live. -/
def isLoose (b : Blobs) (x : Listed) : Bool := !live keys x && (b.found? x).any fun node => !decide node.IsDirectory

/-- A directory that is not live. -/
def isStuck (b : Blobs) (x : Listed) : Bool := !live keys x && (b.found? x).any fun node => decide node.IsDirectory

theorem visit_eq {b : Blobs} {x : Listed} (hx : (b.found? x).isSome) (before : CollectReport) :
    visit keys (before, b) x =
      ({ scanned := before.scanned + 1
         retained := before.retained + if live keys x then 1 else 0
         deleted := before.deleted + if isLoose keys b x then 1 else 0
         failed := before.failed + if isStuck keys b x then 1 else 0 },
        if isLoose keys b x then b.without x else b) := by
  obtain ⟨node, hnode⟩ := Option.isSome_iff_exists.1 hx
  by_cases hlive : live keys x = true
  · simp [visit, isLoose, isStuck, hlive]
  · by_cases hdirectory : node.IsDirectory
    · simp [visit, isLoose, isStuck, Blobs.unlink, hlive, hnode, hdirectory]
    · simp [visit, isLoose, isStuck, Blobs.unlink, hlive, hnode, hdirectory]

variable {keys} in
theorem isLoose_congr {b c : Blobs} {x : Listed} (h : b.found? x = c.found? x) :
    isLoose keys b x = isLoose keys c x := by rw [isLoose, isLoose, h]

variable {keys} in
theorem isStuck_congr {b c : Blobs} {x : Listed} (h : b.found? x = c.found? x) :
    isStuck keys b x = isStuck keys c x := by rw [isStuck, isStuck, h]

/-! ## A listing -/

/-- **A pass counts by what stood in the directory at its start**, and removes the loose files. -/
theorem foldl_visit {b : Blobs} {xs : List Listed} (hnodup : xs.Nodup) (hfound : ∀ x ∈ xs, (b.found? x).isSome)
    (before : CollectReport) :
    xs.foldl (visit keys) (before, b) =
      ({ scanned := before.scanned + xs.length
         retained := before.retained + xs.countP (live keys)
         deleted := before.deleted + xs.countP (isLoose keys b)
         failed := before.failed + xs.countP (isStuck keys b) },
        (xs.filter (isLoose keys b)).foldl Blobs.without b) := by
  induction xs generalizing b before with
  | nil => rfl
  | cons x rest ih =>
    rw [List.nodup_cons] at hnodup
    rw [List.forall_mem_cons] at hfound
    rw [List.foldl_cons, visit_eq keys hfound.1]
    generalize hafter : (if isLoose keys b x then b.without x else b) = after
    -- the names still to come stand as they did
    have hkeep : ∀ y ∈ rest, after.found? y = b.found? y := by
      intro y hy
      have hne : y ≠ x := fun h => hnodup.1 (h ▸ hy)
      rw [← hafter]
      split
      · rw [Blobs.found?_without, if_neg hne]
      · rfl
    have hloose : ∀ y ∈ rest, isLoose keys after y = isLoose keys b y := fun y hy => isLoose_congr (hkeep y hy)
    have hdeleted : rest.countP (isLoose keys after) = rest.countP (isLoose keys b) :=
      List.countP_congr fun y hy => by rw [hloose y hy]
    have hfailed : rest.countP (isStuck keys after) = rest.countP (isStuck keys b) :=
      List.countP_congr fun y hy => by rw [isStuck_congr (hkeep y hy)]
    have hremoved : ((x :: rest).filter (isLoose keys b)).foldl Blobs.without b =
        (rest.filter (isLoose keys b)).foldl Blobs.without after := by
      rw [List.filter_cons, ← hafter]
      split <;> rfl
    rw [ih hnodup.2 (fun y hy => by rw [hkeep y hy]; exact hfound.2 y hy), hremoved, hdeleted, hfailed,
      List.filter_congr hloose]
    simp only [List.length_cons, List.countP_cons, Prod.mk.injEq, CollectReport.mk.injEq, and_true]
    omega

/-- What there is to find in a directory. -/
def survey (b : Blobs) : CollectReport where
  scanned := b.listing.length
  retained := b.listing.countP (live keys)
  deleted := b.listing.countP (isLoose keys b)
  failed := b.listing.countP (isStuck keys b)

variable {keys}

theorem found?_sweep {b : Blobs} {x : Listed} {node : Node} :
    (b.sweep fun key => decide (key ∈ keys)).found? x = some node ↔
      b.found? x = some node ∧ (live keys x = true ∨ node.IsDirectory) := by
  cases x with
  | entry name => exact Blobs.get?_sweep
  | staged ticket =>
    refine iff_of_false nofun ?_
    rintro ⟨hstaged, hlive | hdirectory⟩
    · cases hlive
    · obtain ⟨content, -, rfl⟩ := Option.map_eq_some_iff.1 hstaged
      exact hdirectory

theorem isLoose_of_found {b : Blobs} {x : Listed} {node : Node} (h : b.found? x = some node) :
    isLoose keys b x = true ↔ ¬ (live keys x = true ∨ node.IsDirectory) := by simp [isLoose, h]

theorem isStuck_of_found {b : Blobs} {x : Listed} {node : Node} (h : b.found? x = some node) :
    isStuck keys b x = true ↔ ¬ live keys x = true ∧ node.IsDirectory := by simp [isStuck, h]

theorem mem_listing_sweep {b : Blobs} {x : Listed} :
    x ∈ (b.sweep fun key => decide (key ∈ keys)).listing ↔ x ∈ b.listing ∧ isLoose keys b x = false := by
  simp only [Blobs.mem_listing, Option.isSome_iff_exists, found?_sweep]
  constructor
  · rintro ⟨node, hnode, hstays⟩
    exact ⟨⟨node, hnode⟩, Bool.eq_false_iff.2 fun h => (isLoose_of_found hnode).1 h hstays⟩
  · rintro ⟨⟨node, hnode⟩, hloose⟩
    refine ⟨node, hnode, ?_⟩
    by_contra hstays
    exact Bool.eq_false_iff.1 hloose ((isLoose_of_found hnode).2 hstays)

variable (keys) in
/-- **The order in which the directory is listed does not matter.** -/
theorem pass_of_perm {b : Blobs} {listing : List Listed} (h : listing.Perm b.listing) :
    pass keys b listing = (survey keys b, b.sweep fun key => decide (key ∈ keys)) := by
  have hnodup : listing.Nodup := h.nodup_iff.2 b.nodup_listing
  have hmem : ∀ x, x ∈ listing ↔ (b.found? x).isSome := fun x => h.mem_iff.trans Blobs.mem_listing
  rw [pass, foldl_visit keys hnodup fun x => (hmem x).1, survey]
  simp only [Nat.zero_add, h.length_eq, h.countP_eq]
  obtain ⟨hdirectory, hnext⟩ := b.directory_foldl_without (listing.filter (isLoose keys b))
  refine congrArg _ (Blobs.ext_found? hdirectory hnext fun x => Option.ext fun node => ?_)
  rw [Blobs.found?_foldl_without, found?_sweep]
  split
  · next hremoved =>
    have hloose := (List.mem_filter.1 hremoved).2
    refine iff_of_false nofun ?_
    rintro ⟨hnode, hstays⟩
    exact (isLoose_of_found hnode).1 hloose hstays
  · next hkept =>
    refine (and_iff_left_of_imp fun hnode => ?_).symm
    by_contra hstays
    exact hkept (List.mem_filter.2
      ⟨(hmem x).2 (Option.isSome_of_eq_some hnode), (isLoose_of_found hnode).2 hstays⟩)

/-! ## Counts -/

theorem length_eq_countP {b : Blobs} {xs : List Listed} (h : ∀ x ∈ xs, (b.found? x).isSome) :
    xs.length = xs.countP (live keys) + xs.countP (isLoose keys b) + xs.countP (isStuck keys b) := by
  induction xs with
  | nil => rfl
  | cons x rest ih =>
    rw [List.forall_mem_cons] at h
    obtain ⟨node, hnode⟩ := Option.isSome_iff_exists.1 h.1
    rw [List.length_cons, ih h.2, List.countP_cons, List.countP_cons, List.countP_cons]
    by_cases hlive : live keys x = true
    · simp [isLoose, isStuck, hlive]
      omega
    · by_cases hdirectory : node.IsDirectory
      · simp [isLoose, isStuck, hlive, hnode, hdirectory]
        omega
      · simp [isLoose, isStuck, hlive, hnode, hdirectory]
        omega

theorem length_listing (b : Blobs) : b.listing.length =
    (survey keys b).retained + (survey keys b).deleted + (survey keys b).failed :=
  length_eq_countP fun _ => Blobs.mem_listing.1

theorem sweep_sweep (b : Blobs) : (b.sweep fun key => decide (key ∈ keys)).sweep (fun key => decide (key ∈ keys)) =
    b.sweep fun key => decide (key ∈ keys) := by
  refine Blobs.ext_found? rfl rfl fun x => Option.ext fun node => ?_
  rw [found?_sweep, found?_sweep, and_assoc, and_self]

/-- After a sweep there is nothing left to delete, and the rest counts as before. -/
theorem survey_sweep (b : Blobs) : survey keys (b.sweep fun key => decide (key ∈ keys)) =
    { scanned := (survey keys b).retained + (survey keys b).failed
      retained := (survey keys b).retained
      deleted := 0
      failed := (survey keys b).failed } := by
  generalize hswept : (b.sweep fun key => decide (key ∈ keys)) = swept
  have hmem : ∀ x, x ∈ swept.listing ↔ x ∈ b.listing.filter fun x => !isLoose keys b x := fun x => by
    rw [← hswept, mem_listing_sweep, List.mem_filter, Bool.not_eq_true']
  have hperm : swept.listing.Perm (b.listing.filter fun x => !isLoose keys b x) :=
    (List.perm_ext_iff_of_nodup swept.nodup_listing (b.nodup_listing.filter _)).2 hmem
  have hfound : ∀ x ∈ swept.listing, swept.found? x = b.found? x := by
    intro x hx
    obtain ⟨node, hnode⟩ := Option.isSome_iff_exists.1 (Blobs.mem_listing.1 hx)
    rw [hnode]
    rw [← hswept] at hnode
    exact (found?_sweep.1 hnode).1.symm
  have hretained : swept.listing.countP (live keys) = b.listing.countP (live keys) := by
    rw [hperm.countP_eq, List.countP_filter]
    refine List.countP_congr fun x _ => ?_
    simp only [isLoose]
    cases live keys x <;> simp
  have hdeleted : swept.listing.countP (isLoose keys swept) = 0 := by
    refine List.countP_eq_zero.2 fun x hx => ?_
    rw [isLoose_congr (hfound x hx)]
    exact Bool.eq_false_iff.1 (Bool.not_eq_true' _ ▸ (List.mem_filter.1 ((hmem x).1 hx)).2)
  have hfailed : swept.listing.countP (isStuck keys swept) = b.listing.countP (isStuck keys b) := by
    rw [List.countP_congr fun x hx => by rw [isStuck_congr (hfound x hx)], hperm.countP_eq, List.countP_filter]
    refine List.countP_congr fun x _ => ?_
    simp only [isStuck, isLoose]
    cases b.found? x <;> simp +contextual
  have hscanned : swept.listing.length = _ := @length_listing keys swept
  simp only [survey, hretained, hdeleted, hfailed, Nat.add_zero] at hscanned ⊢
  rw [hscanned]

/-! ## A collection -/

variable {v : Vault}

/-- A collection as a survey of the directory and a sweep. -/
theorem collect_eq (hopen : v.poisoned = false) {keys : List ContentKey} (h : v.referenced = .ok keys) :
    v.collect = (.ok (survey keys v.blobs), { v with blobs := v.blobs.sweep fun key => decide (key ∈ keys) }) := by
  simp only [collect, hopen, h, pass_of_perm keys (List.Perm.refl v.blobs.listing), Bool.false_eq_true, if_false]

/-- Everything that a collection can do. -/
theorem collect_cases (v : Vault) :
    (∃ e, v.collect = (.error e, v)) ∨ ∃ keys, v.referenced = .ok keys ∧
      v.collect = (.ok (survey keys v.blobs), { v with blobs := v.blobs.sweep fun key => decide (key ∈ keys) }) := by
  by_cases hpoisoned : v.poisoned = true
  · exact .inl ⟨.lockPoisoned, by rw [collect, if_pos hpoisoned]⟩
  · cases h : v.referenced with
    | error e => exact .inl ⟨e, by rw [collect, if_neg hpoisoned, h]⟩
    | ok keys => exact .inr ⟨keys, rfl, collect_eq (Bool.not_eq_true _ ▸ hpoisoned) h⟩

/-! ## The rows -/

/-- A listed name is the key in some row, of whatever revision. -/
def Refers (v : Vault) : Listed → Prop
  | .entry name => ∃ e ∈ v.store.attachments.entries,
      (AttachmentRow.ofText? e.2).map (·.content.hex) = some name
  | .staged _ => False

instance (v : Vault) : DecidablePred v.Refers
  | .entry name => inferInstanceAs (Decidable (∃ e ∈ v.store.attachments.entries,
      (AttachmentRow.ofText? e.2).map (·.content.hex) = some name))
  | .staged _ => isFalse id

/-- Every row can be read. -/
def Readable (v : Vault) : Prop := ∀ e ∈ v.store.attachments.entries, (AttachmentRow.ofText? e.2).isSome

instance (v : Vault) : Decidable v.Readable :=
  inferInstanceAs (Decidable (∀ e ∈ v.store.attachments.entries, (AttachmentRow.ofText? e.2).isSome))

theorem exists_referenced_iff : (∃ keys, v.referenced = .ok keys) ↔ v.Readable := by
  unfold Readable
  rw [← AttachmentRow.exists_readAll_iff, referenced]
  cases AttachmentRow.readAll v.store.attachments.entries <;> simp [Except.map]

theorem referenced_of_not_readable (h : ¬ v.Readable) : v.referenced = .error .serialization := by
  rw [← exists_referenced_iff] at h
  unfold referenced at h ⊢
  cases hread : AttachmentRow.readAll v.store.attachments.entries with
  | error e => rw [(AttachmentRow.readAll_eq_error_iff.1 hread).1, Except.map]
  | ok rows => exact absurd ⟨_, by rw [hread]; rfl⟩ h

/-- What a collection takes for live is what rows refer to. -/
theorem live_iff_refers {keys : List ContentKey} (h : v.referenced = .ok keys) (x : Listed) :
    live keys x = true ↔ v.Refers x := by
  cases hread : AttachmentRow.readAll v.store.attachments.entries with
  | error e => simp [referenced, hread, Except.map] at h
  | ok rows =>
    rw [referenced, hread] at h
    cases h
    cases x with
    | staged ticket => simp [live, Refers]
    | entry name =>
      have hrows := AttachmentRow.readAll_eq_ok_iff.1 hread
      have hnames : v.Refers (.entry name) ↔ some name ∈ (rows.map some).map (Option.map (·.content.hex)) := by
        rw [← hrows, List.map_map, List.mem_map]
        rfl
      rw [hnames]
      simp only [live, Option.any_eq_true, decide_eq_true_eq, List.mem_map, ContentKey.ofHex?_eq_some]
      constructor
      · rintro ⟨_, rfl, row, hrow, rfl⟩
        exact ⟨some row, ⟨row, hrow, rfl⟩, rfl⟩
      · rintro ⟨_, ⟨row, hrow, rfl⟩, hname⟩
        exact ⟨row.content, (Option.some.inj hname).symm, row, hrow, rfl⟩

/-! ## Exactness -/

/-- From one vault to another one by a collection with this report. -/
structure Collected (v : Vault) (report : CollectReport) (w : Vault) : Prop where
  store_eq : w.store = v.store
  /-- What stays is what rows refer to, and directories. -/
  found_iff : ∀ x node, w.blobs.found? x = some node ↔
    v.blobs.found? x = some node ∧ (v.Refers x ∨ node.IsDirectory)
  scanned_eq : report.scanned = v.blobs.listing.length
  sum_eq : report.scanned = report.retained + report.deleted + report.failed
  retained_eq : report.retained = v.blobs.listing.countP fun x => decide (v.Refers x)
  deleted_eq : report.deleted = v.blobs.listing.countP fun x => decide (x ∉ w.blobs.listing)
  failed_eq : report.failed = v.blobs.listing.countP fun x => decide (x ∈ w.blobs.listing ∧ ¬ v.Refers x)
  /-- A second collection finds nothing to delete. -/
  again : w.collect = (.ok { scanned := report.retained + report.failed
                             retained := report.retained
                             deleted := 0
                             failed := report.failed }, w)

/-- **A collection is exact.** If every row can be read it removes the files that no row refers to and nothing
else, counts what it found, and has nothing left to do afterwards. If not, it removes nothing. -/
theorem collect_exact (v : Vault) (hopen : v.poisoned = false) :
    (v.Readable → ∃ report w, v.collect = (.ok report, w) ∧ v.Collected report w) ∧
      (¬ v.Readable → v.collect = (.error .serialization, v)) := by
  constructor
  · intro hreadable
    obtain ⟨keys, hkeys⟩ := exists_referenced_iff.2 hreadable
    have hlive := live_iff_refers hkeys
    have hdeleted : ∀ x ∈ v.blobs.listing, isLoose keys v.blobs x = true ↔
        x ∉ (v.blobs.sweep fun key => decide (key ∈ keys)).listing := fun x hx => by
      simp [mem_listing_sweep, hx]
    refine ⟨_, _, collect_eq hopen hkeys, ?_⟩
    exact {
      store_eq := rfl
      found_iff := fun x node => by rw [found?_sweep, hlive]
      scanned_eq := rfl
      sum_eq := length_listing v.blobs
      retained_eq := List.countP_congr fun x _ => by rw [hlive, decide_eq_true_iff]
      deleted_eq := List.countP_congr fun x hx => by rw [hdeleted x hx, decide_eq_true_iff]
      failed_eq := List.countP_congr fun x hx => by
        obtain ⟨node, hnode⟩ := Option.isSome_iff_exists.1 (Blobs.mem_listing.1 hx)
        rw [decide_eq_true_iff, ← not_not (a := x ∈ _), ← hdeleted x hx, isStuck_of_found hnode,
          isLoose_of_found hnode, ← hlive]
        tauto
      again := by
        rw [collect_eq (v := { v with blobs := v.blobs.sweep fun key => decide (key ∈ keys) }) hopen hkeys,
          survey_sweep, sweep_sweep] }
  · intro hunreadable
    simp only [collect, hopen, referenced_of_not_readable hunreadable, Bool.false_eq_true, if_false]

/-- The row of an attachment of the first revision. -/
def pictureRow : AttachmentRow where
  sequence := 1
  filename := "picture"
  content := ⟨List.replicate 32 0xab, rfl⟩
  mediaType := "image/png"
  encoding := .plain
  length := 1
  encodedLength := 1
  revpos := 1

/-- A row's content among other things: its name in upper case, a directory named by a key, a file that has
nothing to do with attachments, and a staged file. -/
def cluttered : Vault where
  store := Store.empty.withAttachments (AttachmentRow.put .empty pictureRow)
  blobs := { Blobs.ofEntries "blobs" [(pictureRow.content.hex, .file [1]),
      (pictureRow.content.hex.toUpper, .file [1]), (String.ofList (List.replicate 64 '0'), .emptyDirectory), ("notes", .file [])] with
    staging := .insert .empty 0 [2], next := 1 }
  poisoned := false

/-- The same directory with a row that cannot be read. -/
def illegible : Vault := { cluttered with store := Store.empty.withAttachments (.insert .empty [] "") }

theorem collect_exact_cluttered :
    (cluttered.poisoned = false ∧ cluttered.Readable ∧
      ∃ report w, cluttered.collect = (.ok report, w) ∧ cluttered.Collected report w) ∧
    (illegible.poisoned = false ∧ ¬ illegible.Readable ∧ illegible.collect = (.error .serialization, illegible)) := by
  have hreadable : cluttered.Readable := fun e he => by
    rw [List.mem_singleton.1 he, AttachmentRow.ofText?_text]
    rfl
  have hunreadable : ¬ illegible.Readable := fun h => by
    have hsome := h ([], "") List.mem_cons_self
    exact absurd hsome (by decide)
  exact ⟨⟨rfl, hreadable, (collect_exact cluttered rfl).1 hreadable⟩,
    rfl, hunreadable, (collect_exact illegible rfl).2 hunreadable⟩

end Vault

end Docket
