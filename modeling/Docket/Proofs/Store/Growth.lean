import Docket.Proofs.Revision.Codec
import Docket.Proofs.Store.Chain
import Docket.Proofs.Vault.Operations
import Docket.Proofs.Vault.Writing

/-!
# Growth of a store

Whatever is called, a store only grows by revisions that fit: a new document, a successor of a current
revision, the successors that a committed transaction made, or the one that new attachments or removed ones
bring about. Failed calls, aborted transactions and changes of attachments add nothing.

* `Store.Grows`: a store comes from another one by revisions that fit.
* `Operation.grows_perform`: every call lets the store grow by what it commits.
* `Store.Grows.linear`: growth keeps the tables in agreement and every row in its place.
* **`Desk.linear_run`**: over any run from an empty store.
-/

namespace Docket

namespace Store

/-- A store comes from another one by appending revisions that fit; its attachments may change. -/
inductive Grows : Store → List Revision → Store → Prop
  | refl (s : Store) : Grows s [] s
  | append {s t : Store} {rs : List Revision} {r : Revision} (hfits : s.Fits r) (hrest : Grows (s.append r) rs t) :
      Grows s (r :: rs) t
  | withAttachments {s t : Store} {rs : List Revision} (attachments : Table Bytes String)
      (hrest : Grows (s.withAttachments attachments) rs t) : Grows s rs t

theorem Grows.trans {s t u : Store} {rs qs : List Revision} (h : Grows s rs t) (hrest : Grows t qs u) :
    Grows s (rs ++ qs) u := by
  induction h with
  | refl s => exact hrest
  | append hfits _ ih => exact .append hfits (ih hrest)
  | withAttachments attachments _ ih => exact .withAttachments attachments (ih hrest)

theorem Grows.single {s : Store} {r : Revision} (h : s.Fits r) : Grows s [r] (s.append r) := .append h (.refl _)

theorem Grows.toAttachments (s : Store) (attachments : Table Bytes String) :
    Grows s [] (s.withAttachments attachments) := .withAttachments attachments (.refl _)

end Store

open Store

theorem Transaction.grows_run (t : Transaction) (requests : List Transaction.Request) :
    Grows t.working ((t.run requests).1.filterMap Except.toOption) (t.run requests).2.working := by
  induction requests generalizing t with
  | nil => exact .refl _
  | cons request rest ih =>
    rw [run, advance_eq]
    cases hadvance : t.working.advance request.document request.parent request.body with
    | error e => exact ih t
    | ok result =>
      obtain ⟨r, working⟩ := result
      obtain ⟨hfits, rfl⟩ := advance_eq_ok hadvance
      exact .append hfits (ih { t with working := t.working.append r })

/-! ## The changes of attachments -/

namespace Vault

/-- A revision that follows another one fits, and was given the rows of that one. -/
theorem of_succeed_eq_ok {s t : Store} {r next : Revision} (h : succeed s r = .ok (next, t)) :
    s.Fits next ∧ ∃ table, AttachmentRow.carry s.attachments r.sequence next.sequence = .ok table ∧
      t = (s.append next).withAttachments table := by
  unfold succeed at h
  split at h
  · cases h
  · next n u hadvance =>
    obtain ⟨hfits, rfl⟩ := advance_eq_ok hadvance
    cases hcarry : AttachmentRow.carry (s.append n).attachments r.sequence n.sequence with
    | error e =>
      rw [hcarry] at h
      cases h
    | ok table =>
      rw [hcarry] at h
      cases h
      exact ⟨hfits, table, hcarry, rfl⟩

theorem grows_succeed {s t : Store} {r next : Revision} (h : succeed s r = .ok (next, t)) :
    Grows s [next] t := by
  obtain ⟨hfits, table, -, rfl⟩ := of_succeed_eq_ok h
  exact (Grows.single hfits).trans (Grows.toAttachments _ table)

theorem grows_add (opener : FileOpener) (v : Vault) (r : Revision) (a : Attachment) :
    Grows v.store [] (v.add opener r a).2.store := by
  rw [add_eq_link]
  split
  · exact .refl _
  · split
    · exact .refl _
    · exact Grows.toAttachments _ _

theorem store_collect (v : Vault) : v.collect.2.store = v.store := by
  unfold collect
  split
  · rfl
  · split <;> rfl

end Vault

/-! ## One call -/

namespace Desk

variable (d : Desk)

/-- A write that answers a revision that fits, with the store that has it, lets the store grow by it. -/
theorem grows_written {result : Except StoreError (Revision × Store)}
    (h : ∀ r t, result = .ok (r, t) → d.vault.store.Fits r ∧ t = d.vault.store.append r) :
    Grows d.vault.store (d.written result).1 (d.written result).2.vault.store := by
  cases result with
  | error e => exact .refl _
  | ok result =>
    obtain ⟨r, t⟩ := result
    obtain ⟨hfits, rfl⟩ := h r t rfl
    exact .single hfits

theorem grows_addAll (opener : FileOpener) (r : Revision) (attachments : List Attachment) :
    Grows d.vault.store (d.followed (d.vault.addAll opener r attachments)).1
      (d.followed (d.vault.addAll opener r attachments)).2.vault.store := by
  rw [Vault.addAll_eq_linkAll]
  split
  · exact .refl _
  · split
    · exact .refl _
    · next hsucceed =>
      split
      · exact .refl _
      · exact (Vault.grows_succeed hsucceed).trans (Grows.toAttachments _ _)

theorem grows_remove {r : Revision} {names : List String}
    (hdrop : (AttachmentRow.drop d.vault.store.attachments r.sequence names).2 ≠ 0) :
    Grows d.vault.store (d.followed (d.vault.remove r names)).1
      (d.followed (d.vault.remove r names)).2.vault.store := by
  rw [Vault.remove_eq_drop]
  split
  · exact .refl _
  · split
    · next hzero =>
      rw [hzero] at hdrop
      exact absurd rfl hdrop
    · split
      · exact .refl _
      · next table _ _ _ _ _ hsucceed => exact .withAttachments table (Vault.grows_succeed hsucceed)

end Desk

/-- Every call lets the store grow by what it commits. -/
theorem Operation.grows_perform (opener : FileOpener) (d : Desk) (op : Operation) :
    Grows d.vault.store (op.perform opener d).1 (op.perform opener d).2.vault.store := by
  cases op with
  | create document body => exact d.grows_written fun _ _ => create_eq_ok
  | update document parent body => exact d.grows_written fun _ _ => advance_eq_ok
  | transact requests ending =>
    have hcommitted := (Transaction.start d.vault.store).committed_run requests
    rw [perform]
    cases ending with
    | commit => exact (Transaction.start d.vault.store).grows_run requests
    | abort =>
      show Grows _ [] (Transaction.run _ requests).2.committed
      rw [hcommitted]
      exact .refl _
    | drop =>
      show Grows _ [] (Transaction.run _ requests).2.committed
      rw [hcommitted]
      exact .refl _
  | add r a => exact Vault.grows_add opener d.vault r a
  | addAll r attachments => exact d.grows_addAll opener r attachments
  | remove r names =>
    rw [perform]
    split
    · exact .refl _
    · next hdrop => exact d.grows_remove hdrop
  | stage appetite arrivals =>
    rw [perform]
    split <;> exact .refl _
  | place ticket =>
    rw [perform]
    split <;> exact .refl _
  | discard ticket =>
    rw [perform]
    split <;> exact .refl _
  | collect =>
    show Grows _ [] d.vault.collect.2.store
    rw [Vault.store_collect]
    exact .refl _

/-! ## Runs -/

theorem Desk.grows_run (d : Desk) (calls : List (FileOpener × Operation)) :
    Grows d.vault.store (d.committed calls) (d.run calls).vault.store := by
  induction calls generalizing d with
  | nil => exact .refl _
  | cons call rest ih => exact (call.2.grows_perform call.1 d).trans (ih _)

/-- A revision can be written: its row reads back as itself, and its place is not the last one there is. -/
structure Revision.Storable (r : Revision) : Prop where
  decodes : Revision.ofText? r.text = some r
  place_lt : r.sequence.toNat + 1 < UInt64.size

/-- What growth by storable revisions keeps and adds. -/
theorem Store.Grows.linear {s t : Store} {rs : List Revision} (h : Grows s rs t) (hs : s.Linear)
    (hroom : s.last.toNat + 1 < UInt64.size) (hrs : ∀ r ∈ rs, r.Storable) :
    t.Linear ∧ t.last.toNat + 1 < UInt64.size ∧ t.log = s.log ++ rs ∧
      ∀ sequence row, s.revisions.get? sequence = some row → t.revisions.get? sequence = some row := by
  induction h with
  | refl s => exact ⟨hs, hroom, (List.append_nil _).symm, fun _ _ => id⟩
  | @append s t rs r hfits _ ih =>
    rw [List.forall_mem_cons] at hrs
    obtain ⟨hr, hrs⟩ := hrs
    have hlast : (s.append r).last.toNat + 1 < UInt64.size := by
      rw [last_append]
      exact hr.place_lt
    obtain ⟨ht, htroom, hlog, hrows⟩ := ih (hs.append hfits hroom hr.decodes) hlast hrs
    refine ⟨ht, htroom, ?_, fun sequence row hrow => hrows _ _ (get?_append hs hfits hroom hrow)⟩
    rw [hlog, log_append hs hfits hroom hr.decodes, List.append_assoc, List.singleton_append]
  | withAttachments attachments _ ih => exact ih (hs.withAttachments attachments) hroom hrs

/-- **Over any run from an empty store** the tables of documents, revisions and counters agree on one chain for
every document, the log is what was committed, committed rows stay as they are, and no two successful writes
followed the same revision of a document. -/
theorem Desk.linear_run (d : Desk) (hempty : d.vault.store = .empty) (earlier later : List (FileOpener × Operation))
    (hstorable : ∀ r ∈ d.committed (earlier ++ later), r.Storable) :
    (d.run earlier).vault.store.Linear ∧
      (d.run earlier).vault.store.log = d.committed earlier ∧
      (∀ sequence row, (d.run earlier).vault.store.revisions.get? sequence = some row →
        (d.run (earlier ++ later)).vault.store.revisions.get? sequence = some row) ∧
      (d.committed earlier).Pairwise fun r s => r.document = s.document → r.parent ≠ s.parent ∧ r.id ≠ s.id := by
  rw [committed_append, List.forall_mem_append] at hstorable
  have hstart := d.grows_run earlier
  rw [hempty] at hstart
  have hroom : Store.empty.last.toNat + 1 < UInt64.size := by decide
  obtain ⟨hlinear, hroom, hlog, -⟩ := hstart.linear linear_empty hroom hstorable.1
  have hlog : (d.run earlier).vault.store.log = d.committed earlier := hlog
  obtain ⟨-, -, -, hrows⟩ := ((d.run earlier).grows_run later).linear hlinear hroom hstorable.2
  refine ⟨hlinear, hlog, ?_, ?_⟩
  · rw [run_append]
    exact hrows
  · rw [← hlog]
    exact hlinear.pairwise_ne

/-! ## A run of two writes -/

/-- A desk with nothing on it. -/
def Desk.bare : Desk := ⟨⟨.empty, .ofEntries "blobs" [], false⟩, []⟩

/-- A first revision of a document. -/
def firstNote : Revision := Store.empty.next "a" none .null

/-- The revision after it. -/
def secondNote : Revision := (Store.empty.append firstNote).next "a" (some firstNote.id) (.bool true)

/-- A desk with the first revision. -/
def Desk.afterFirst : Desk := Desk.bare.withStore (Store.empty.append firstNote)

/-- A document made, made again in vain, and updated. -/
def twoWrites : List (FileOpener × Operation) :=
  let opener : FileOpener := fun _ _ => .error .notFound
  [(opener, .create "a" .null), (opener, .create "a" .null), (opener, .update "a" firstNote.id (.bool true))]

theorem storable_firstNote : firstNote.Storable where
  decodes := Revision.decodes_derived (by decide) rfl rfl "a" 1
  place_lt := by decide

theorem storable_secondNote : secondNote.Storable where
  decodes := by
    have hparent : Revision.parentRead? (some firstNote.id) = some (some firstNote.id) :=
      Revision.Decodes.parentRead? storable_firstNote.decodes
    exact Revision.decodes_derived (by decide) hparent rfl "a" 2
  place_lt := by decide

theorem advance_firstNote : (Store.empty.append firstNote).advance "a" firstNote.id (.bool true) =
    .ok (secondNote, (Store.empty.append firstNote).append secondNote) := by
  have hfits : Store.empty.Fits firstNote := ⟨rfl, rfl, .inl ⟨rfl, rfl⟩⟩
  have hcurrent : (Store.empty.append firstNote).current "a" = .ok firstNote :=
    linear_empty.current_append hfits (by decide) storable_firstNote.decodes
  rw [advance, hcurrent]
  exact if_pos rfl

theorem perform_first (opener : FileOpener) :
    (Operation.create "a" .null).perform opener Desk.bare = ([firstNote], Desk.afterFirst) := rfl

theorem perform_again (opener : FileOpener) :
    (Operation.create "a" .null).perform opener Desk.afterFirst = ([], Desk.afterFirst) := rfl

theorem perform_second (opener : FileOpener) :
    (Operation.update "a" firstNote.id (.bool true)).perform opener Desk.afterFirst =
      ([secondNote], Desk.afterFirst.withStore ((Store.empty.append firstNote).append secondNote)) := by
  rw [Operation.perform, Desk.afterFirst, Desk.withStore, advance_firstNote]
  rfl

theorem committed_twoWrites : Desk.bare.committed twoWrites = [firstNote, secondNote] := by
  rw [twoWrites, Desk.committed, perform_first, Desk.committed, perform_again, Desk.committed, perform_second]
  rfl

theorem Desk.linear_run_twoWrites :
    (∀ r ∈ Desk.bare.committed (twoWrites ++ []), r.Storable) ∧
      (Desk.bare.run twoWrites).vault.store.Linear ∧
      (Desk.bare.run twoWrites).vault.store.log = [firstNote, secondNote] := by
  have hstorable : ∀ r ∈ Desk.bare.committed (twoWrites ++ []), r.Storable := by
    rw [List.append_nil, committed_twoWrites]
    simp [storable_firstNote, storable_secondNote]
  obtain ⟨hlinear, hlog, -⟩ := Desk.linear_run Desk.bare rfl twoWrites [] hstorable
  exact ⟨hstorable, hlinear, hlog.trans committed_twoWrites⟩

end Docket
