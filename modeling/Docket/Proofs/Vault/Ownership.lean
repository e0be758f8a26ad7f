import Docket.Proofs.Vault.Failure
import Docket.Proofs.Vault.Following
import Mathlib.Data.List.Induction

/-!
# Rows and the revisions they belong to

A row of an attachment names a place, and the tables do not say by themselves that a revision stands there. Every call
that follows a revision writes rows for the revision that it has just written. Adding one attachment takes the place
from the revision that it is given, and does not look whether it was ever stored: a revision of a transaction that was
aborted has a place that is handed out once more, and the next revision starts with what was added to the one that
never was.

* `Store.Owned`: every row belongs to a revision that is stored.
* `Operation.Strays`: an attachment is added to a revision that is not stored.
* `Operation.owned_perform_iff`: only such a call leaves a row without a revision.
* `Operation.starts_perform`: what the revisions of a call start with.
* **`Desk.owned_run_iff`**: over any run from an empty store.
-/

namespace Docket

open AttachmentRow (Sheet sheet Gives Keyed key)

/-! ## Owned rows -/

namespace Store

/-- Every row of an attachment stands under its own key, and at its place a revision is stored. -/
def Owned (s : Store) : Prop :=
  ∀ e ∈ s.attachments.entries, ∃ row : AttachmentRow, e = (key row.sequence row.filename, row.text) ∧
    (s.revisions.get? row.sequence).isSome

variable {s : Store} {table : AttachmentTable} {sequence : UInt64} {given : Sheet}

theorem owned_iff : s.Owned ↔ Keyed s.attachments ∧
    ∀ sequence, s.revisions.get? sequence = none → sheet s.attachments sequence = Sheet.blank := by
  constructor
  · intro h
    have hkeyed : Keyed s.attachments := fun e he => (h e he).imp fun _ => And.left
    refine ⟨hkeyed, fun sequence hnone => funext fun name => hkeyed.sheet_eq_none_iff.2 ?_⟩
    by_contra hne
    obtain ⟨text, htext⟩ := Option.ne_none_iff_exists'.1 hne
    obtain ⟨row, hrow, hstored⟩ := h _ (Table.get?_eq_some_iff.1 htext)
    rw [← (AttachmentRow.key_injective (Prod.mk.inj hrow).1).1, hnone] at hstored
    cases hstored
  · rintro ⟨hkeyed, hblank⟩ e he
    obtain ⟨row, rfl⟩ := hkeyed e he
    refine ⟨row, rfl, Option.isSome_iff_ne_none.2 fun hnone => ?_⟩
    have hget := hkeyed.sheet_eq_none_iff.1 (congrFun (hblank _ hnone) row.filename)
    rw [Table.get?_eq_some_iff.2 he] at hget
    cases hget

theorem owned_empty : Owned .empty := fun _ he => absurd he List.not_mem_nil

theorem Owned.sheet_eq_blank (h : s.Owned) (hnone : s.revisions.get? sequence = none) :
    sheet s.attachments sequence = Sheet.blank := (owned_iff.1 h).2 sequence hnone

theorem Owned.keyed (h : s.Owned) : Keyed s.attachments := (owned_iff.1 h).1

theorem isSome_append_self (s : Store) (r : Revision) : ((s.append r).revisions.get? r.sequence).isSome :=
  Option.isSome_of_eq_some (Table.get?_insert_self _ _ _)

theorem isSome_append {s : Store} (r : Revision) (h : (s.revisions.get? sequence).isSome) :
    ((s.append r).revisions.get? sequence).isSome := by
  by_cases hsequence : sequence = r.sequence
  · subst hsequence
    exact isSome_append_self s r
  · rwa [show (s.append r).revisions.get? sequence = _ from Table.get?_insert_of_ne _ _ hsequence]

theorem Owned.append (h : s.Owned) (r : Revision) : (s.append r).Owned := fun e he => by
  obtain ⟨row, hrow, hstored⟩ := h e he
  exact ⟨row, hrow, isSome_append r hstored⟩

theorem Grows.isSome {s t : Store} {rs : List Revision} (h : Grows s rs t)
    (hstored : (s.revisions.get? sequence).isSome) : (t.revisions.get? sequence).isSome := by
  induction h with
  | refl s => exact hstored
  | append _ _ ih => exact ih (isSome_append _ hstored)
  | withAttachments _ _ ih => exact ih hstored

theorem Owned.of_grows {s t : Store} {rs : List Revision} (h : s.Owned) (hgrows : Grows s rs t)
    (hsame : t.attachments = s.attachments) : t.Owned := fun e he => by
  rw [hsame] at he
  obtain ⟨row, hrow, hstored⟩ := h e he
  exact ⟨row, hrow, hgrows.isSome hstored⟩

/-- A change of one sheet keeps rows owned, if a revision is stored there or the sheet is blank. -/
theorem Owned.give (h : s.Owned) (hgives : Gives s.attachments table sequence given)
    (hgiven : s.revisions.get? sequence = none → given = Sheet.blank) : (s.withAttachments table).Owned := by
  refine owned_iff.2 ⟨hgives.keyed, fun other hnone => ?_⟩
  by_cases hother : other = sequence
  · subst hother
    exact hgives.self.trans (hgiven hnone)
  · exact (hgives.others other hother).trans (h.sheet_eq_blank hnone)

theorem Owned.drop (h : s.Owned) {names : List String}
    (hdropped : Gives s.attachments table sequence ((sheet s.attachments sequence).without names)) :
    (s.withAttachments table).Owned := h.give hdropped fun hnone => by
  rw [h.sheet_eq_blank hnone]
  exact Sheet.without_blank names

theorem Owned.give_of_isSome (h : s.Owned) (hgives : Gives s.attachments table sequence given)
    (hstored : (s.revisions.get? sequence).isSome) : (s.withAttachments table).Owned :=
  h.give hgives fun hnone => by
    rw [hnone] at hstored
    cases hstored

end Store

open Store (Owned Grows)

/-! ## Revisions that follow -/

namespace Vault

variable {s t : Store} {r next : Revision}

theorem succeed_eq_ok (h : Keyed s.attachments) (hsucceed : succeed s r = .ok (next, t)) :
    ∃ table given, t = (s.append next).withAttachments table ∧
      Gives s.attachments table next.sequence given ∧
      (sheet s.attachments next.sequence = Sheet.blank → given = sheet s.attachments r.sequence) := by
  obtain ⟨-, table, hcarry, rfl⟩ := of_succeed_eq_ok hsucceed
  obtain ⟨carried, given, hcarry', hgives, hgiven⟩ := AttachmentRow.carry_spec h r.sequence next.sequence
  rw [hcarry, Except.ok.injEq] at hcarry'
  subst hcarry'
  exact ⟨table, given, rfl, hgives, hgiven⟩

theorem Linked.length_eq {opener : FileOpener} {b after : Blobs} {table linked : AttachmentTable}
    {attachments : List Attachment} {contents : List Bytes}
    (h : Linked opener r b table attachments contents linked after) : contents.length = attachments.length := by
  induction h with
  | nil => rfl
  | cons _ _ _ ih => rw [List.length_cons, List.length_cons, ih]

variable {v after : Vault} {opener : FileOpener}

theorem add_eq_ok {a : Attachment} {saved : SavedAttachment} (hadd : v.add opener r a = (.ok saved, after)) :
    ∃ content, after.store =
      v.store.withAttachments (AttachmentRow.put v.store.attachments (rowFor r a content)) := by
  rcases v.add_cases opener r a with ⟨e, blobs, -, hfailed⟩ | ⟨content, blobs, -, -, hadded⟩
  · rw [hfailed] at hadd
    cases hadd
  · rw [hadded] at hadd
    cases hadd
    exact ⟨content, rfl⟩

theorem addAll_eq_ok (h : v.store.Owned) {attachments : List Attachment}
    (haddAll : v.addAll opener r attachments = (.ok next, after)) :
    ∃ table given, after.store = (v.store.append next).withAttachments table ∧
      Gives v.store.attachments table next.sequence given ∧
      (sheet v.store.attachments next.sequence = Sheet.blank → ∃ contents : List Bytes,
        contents.length = attachments.length ∧
          given = fill (next.moved 0) (sheet v.store.attachments r.sequence) (attachments.zip contents)) := by
  rcases v.addAll_cases opener r attachments with
    ⟨e, blobs, _, -, hfailed⟩ | ⟨n, s, contents, table, blobs, hsucceed, hlinked, hadded⟩
  · rw [hfailed] at haddAll
    cases haddAll
  · rw [hadded] at haddAll
    cases haddAll
    obtain ⟨carried, given, rfl, hcarried, hgiven⟩ := succeed_eq_ok h.keyed hsucceed
    have hgives := hlinked.gives hcarried.keyed
    refine ⟨table, _, rfl, hcarried.trans hgives, fun hblank => ⟨contents, hlinked.length_eq, ?_⟩⟩
    have hstart : sheet ((v.store.append next).withAttachments carried).attachments next.sequence =
        sheet v.store.attachments r.sequence := hcarried.self.trans (hgiven hblank)
    rw [hstart]

theorem remove_eq_ok (h : v.store.Owned) {names : List String}
    (hdrop : (AttachmentRow.drop v.store.attachments r.sequence names).2 ≠ 0)
    (hremove : v.remove r names = (.ok next, after)) :
    ∃ dropped table given, after.store = ((v.store.withAttachments dropped).append next).withAttachments table ∧
      Gives v.store.attachments dropped r.sequence ((sheet v.store.attachments r.sequence).without names) ∧
      Gives dropped table next.sequence given ∧
      (sheet dropped next.sequence = Sheet.blank → given = (sheet v.store.attachments r.sequence).without names) := by
  have hdropped := AttachmentRow.gives_drop h.keyed r.sequence names
  rw [remove_eq_drop] at hremove
  split at hremove
  · cases hremove
  · split at hremove
    · next hzero =>
      rw [hzero] at hdrop
      exact absurd rfl hdrop
    · next dropped count hresult =>
      rw [hresult] at hdropped
      split at hremove
      · cases hremove
      · next hsucceed =>
        obtain ⟨table, given, rfl, hgives, hgiven⟩ := succeed_eq_ok hdropped.keyed hsucceed
        cases hremove
        refine ⟨dropped, table, given, rfl, hdropped, hgives, fun hblank => ?_⟩
        exact (hgiven hblank).trans hdropped.self

end Vault

/-! ## One call -/

namespace Operation

/-- An attachment is added to a revision that is not stored. -/
def Strays (opener : FileOpener) (d : Desk) : Operation → Prop
  | .add r a => d.vault.store.revisions.get? r.sequence = none ∧ ∃ saved, (d.vault.add opener r a).1 = .ok saved
  | _ => False

/-- What a revision that a call commits has to start with, where the rows were these before. -/
def Starts (before : AttachmentTable) (next : Revision) (start : Sheet) : Operation → Prop
  | .addAll r attachments => ∃ contents : List Bytes, contents.length = attachments.length ∧
      start = Vault.fill (next.moved 0) (sheet before r.sequence) (attachments.zip contents)
  | .remove r names => start = (sheet before r.sequence).without names
  | _ => start = Sheet.blank

variable {opener : FileOpener} {d : Desk}

/-- The calls that change no rows of attachments. -/
def IsSilent : Operation → Prop
  | .add _ _ | .addAll _ _ | .remove _ _ => False
  | _ => True

theorem attachments_perform {op : Operation} (hop : op.IsSilent) :
    (op.perform opener d).2.vault.store.attachments = d.vault.store.attachments := by
  have hwritten : ∀ result : Except StoreError (Revision × Store),
      (∀ r t, result = .ok (r, t) → t = d.vault.store.append r) →
        (d.written result).2.vault.store.attachments = d.vault.store.attachments := by
    intro result hresult
    cases result with
    | error e => rfl
    | ok written =>
      obtain ⟨r, t⟩ := written
      obtain rfl := hresult r t rfl
      rfl
  cases op with
  | create document body => exact hwritten _ fun r t hr => (Store.create_eq_ok hr).2
  | update document parent body => exact hwritten _ fun r t hr => (Store.advance_eq_ok hr).2
  | transact requests ending =>
    rw [perform]
    cases ending with
    | commit => exact Transaction.attachments_run _ requests
    | abort | drop =>
      show (Transaction.run _ requests).2.committed.attachments = _
      rw [Transaction.committed_run]
      rfl
  | add r a | addAll r attachments | remove r names => exact absurd hop id
  | stage appetite arrivals =>
    rw [perform]
    split <;> rfl
  | place ticket | discard ticket =>
    rw [perform]
    split <;> rfl
  | collect => exact congrArg Store.attachments (Vault.store_collect d.vault)

section Owned

variable (h : d.vault.store.Owned)

include h

theorem owned_perform_of_silent {op : Operation} (hop : op.IsSilent) : (op.perform opener d).2.vault.store.Owned :=
  h.of_grows (op.grows_perform opener d) (attachments_perform hop)

theorem owned_add_iff (r : Revision) (a : Attachment) :
    (d.vault.add opener r a).2.store.Owned ↔ ¬ (Operation.add r a).Strays opener d := by
  cases hadd : d.vault.add opener r a with
  | mk answer after =>
    cases answer with
    | error e =>
      have howned : after.store.Owned := (Vault.adds_of_add_error hadd).1 ▸ h
      refine iff_of_true howned fun ⟨_, saved, hsaved⟩ => ?_
      rw [hadd] at hsaved
      cases hsaved
    | ok saved =>
      obtain ⟨content, hstore⟩ := Vault.add_eq_ok hadd
      have hgives := AttachmentRow.gives_put h.keyed (Vault.rowFor r a content)
      rw [Strays, hadd, hstore]
      by_cases hnone : d.vault.store.revisions.get? r.sequence = none
      · refine iff_of_false (fun howned => ?_) (not_not_intro ⟨hnone, saved, rfl⟩)
        have hself := congrFun (hgives.self.symm.trans (howned.sheet_eq_blank hnone)) a.name
        rw [show (Vault.rowFor r a content).filename = a.name from rfl, Function.update_self] at hself
        cases hself
      · refine iff_of_true (h.give hgives fun hblank => absurd hblank hnone) fun hstrays => hnone hstrays.1

theorem owned_followed {result : Except AttachmentError Revision × Vault}
    (hok : ∀ next after, result = (.ok next, after) → after.store.Owned)
    (herror : ∀ e after, result = (.error e, after) → after.store = d.vault.store) :
    (d.followed result).2.vault.store.Owned := by
  obtain ⟨answer, after⟩ := result
  cases answer with
  | error e =>
    have howned : after.store.Owned := herror e after rfl ▸ h
    exact howned
  | ok next => exact hok next after rfl

theorem owned_addAll (r : Revision) (attachments : List Attachment) :
    (d.followed (d.vault.addAll opener r attachments)).2.vault.store.Owned := by
  refine owned_followed h (fun next after hok => ?_) fun e after herror => ?_
  · obtain ⟨table, given, hstore, hgives, -⟩ := Vault.addAll_eq_ok h hok
    rw [hstore]
    exact (h.append next).give_of_isSome hgives (Store.isSome_append_self _ next)
  · rcases Vault.adds_of_addAll_error herror with rfl | ⟨_, _, hstore, _⟩
    · rfl
    · exact hstore

theorem owned_remove {r : Revision} {names : List String}
    (hdrop : (AttachmentRow.drop d.vault.store.attachments r.sequence names).2 ≠ 0) :
    (d.followed (d.vault.remove r names)).2.vault.store.Owned := by
  refine owned_followed h (fun next after hok => ?_) fun e after herror => ?_
  · obtain ⟨dropped, table, given, hstore, hdropped, hgives, -⟩ := Vault.remove_eq_ok h hdrop hok
    rw [hstore]
    exact ((h.drop hdropped).append next).give_of_isSome hgives (Store.isSome_append_self _ next)
  · rw [Vault.eq_of_remove_error herror]

/-- **Only an attachment to a revision that is not stored leaves a row without a revision.** -/
theorem owned_perform_iff (op : Operation) : (op.perform opener d).2.vault.store.Owned ↔ ¬ op.Strays opener d := by
  cases op with
  | add r a => exact owned_add_iff h r a
  | addAll r attachments => exact iff_of_true (owned_addAll h r attachments) id
  | remove r names =>
    refine iff_of_true ?_ id
    rw [perform]
    split
    · exact h
    · next hdrop => exact owned_remove h hdrop
  | _ => exact iff_of_true (owned_perform_of_silent h trivial) id

theorem starts_addAll {r next : Revision} {attachments : List Attachment} {after : Vault}
    (hok : d.vault.addAll opener r attachments = (.ok next, after))
    (hfree : d.vault.store.revisions.get? next.sequence = none) :
    (addAll r attachments).Starts d.vault.store.attachments next (sheet after.store.attachments next.sequence) := by
  obtain ⟨table, given, hstore, hgives, hgiven⟩ := Vault.addAll_eq_ok h hok
  obtain ⟨contents, hlength, rfl⟩ := hgiven (h.sheet_eq_blank hfree)
  rw [hstore]
  exact ⟨contents, hlength, hgives.self⟩

theorem starts_remove {r next : Revision} {names : List String} {after : Vault}
    (hdrop : (AttachmentRow.drop d.vault.store.attachments r.sequence names).2 ≠ 0)
    (hok : d.vault.remove r names = (.ok next, after))
    (hfree : d.vault.store.revisions.get? next.sequence = none) :
    (remove r names).Starts d.vault.store.attachments next (sheet after.store.attachments next.sequence) := by
  obtain ⟨dropped, table, given, hstore, hdropped, hgives, hgiven⟩ := Vault.remove_eq_ok h hdrop hok
  have hblank : sheet dropped next.sequence = Sheet.blank := (h.drop hdropped).sheet_eq_blank hfree
  rw [hstore]
  exact hgives.self.trans (hgiven hblank)

omit h in
theorem exists_of_mem_followed {result : Except AttachmentError Revision × Vault} {next : Revision}
    (hnext : next ∈ (d.followed result).1) :
    ∃ after, result = (.ok next, after) ∧ (d.followed result).2.vault = after := by
  obtain ⟨answer, after⟩ := result
  cases answer with
  | error e => exact absurd hnext List.not_mem_nil
  | ok r =>
    obtain rfl := List.mem_singleton.1 hnext
    exact ⟨after, rfl, rfl⟩

/-- What a revision of a call starts with, if nothing was stored at its place. -/
theorem starts_perform {op : Operation} {next : Revision} (hnext : next ∈ (op.perform opener d).1)
    (hfree : d.vault.store.revisions.get? next.sequence = none) : op.Starts d.vault.store.attachments next
      (sheet (op.perform opener d).2.vault.store.attachments next.sequence) := by
  cases op with
  | add r a => exact absurd hnext List.not_mem_nil
  | addAll r attachments =>
    rw [perform] at hnext ⊢
    obtain ⟨after, hok, hafter⟩ := exists_of_mem_followed hnext
    rw [hafter]
    exact starts_addAll h hok hfree
  | remove r names =>
    rw [perform] at hnext ⊢
    split at hnext
    · exact absurd hnext List.not_mem_nil
    · next hdrop =>
      obtain ⟨after, hok, hafter⟩ := exists_of_mem_followed hnext
      rw [if_neg hdrop, hafter]
      exact starts_remove h hdrop hok hfree
  | _ =>
    have hblank := h.sheet_eq_blank hfree
    exact (congrArg (sheet · next.sequence) (attachments_perform (by exact trivial))).trans hblank

end Owned

end Operation

/-! ## Places that are handed out -/

namespace Store

/-- So many places were handed out, and no revision is stored at a later one. -/
structure Counted (s : Store) (n : Nat) : Prop where
  last_eq : s.last.toNat = n
  stored : ∀ sequence, (s.revisions.get? sequence).isSome → sequence.toNat ≤ n

theorem counted_empty : Counted .empty 0 := ⟨rfl, fun _ h => by cases h⟩

theorem Counted.get?_eq_none {s : Store} {n : Nat} (h : s.Counted n) {sequence : UInt64} (hlater : n < sequence.toNat) :
    s.revisions.get? sequence = none := by
  cases hget : s.revisions.get? sequence with
  | none => rfl
  | some row => exact absurd (h.stored sequence (Option.isSome_of_eq_some hget)) (Nat.not_le.2 hlater)

theorem Counted.append {s : Store} {n : Nat} (h : s.Counted n) (hroom : n + 1 < UInt64.size) {r : Revision}
    (hfits : s.Fits r) : (s.append r).Counted (n + 1) ∧ r.sequence.toNat = n + 1 := by
  have hplace : r.sequence.toNat = n + 1 := by
    rw [hfits.sequence_eq, UInt64.toNat_add, UInt64.toNat_one, h.last_eq, Nat.mod_eq_of_lt hroom]
  refine ⟨⟨by rw [last_append, hplace], fun sequence hstored => ?_⟩, hplace⟩
  by_cases hsequence : sequence = r.sequence
  · rw [hsequence, hplace]
  · have hbefore : (s.append r).revisions.get? sequence = s.revisions.get? sequence :=
      Table.get?_insert_of_ne _ _ hsequence
    rw [hbefore] at hstored
    exact Nat.le_succ_of_le (h.stored sequence hstored)

theorem Grows.counted {s t : Store} {rs : List Revision} (h : Grows s rs t) {n : Nat} (hs : s.Counted n)
    (hroom : n + rs.length < UInt64.size) : t.Counted (n + rs.length) ∧ ∀ r ∈ rs, n < r.sequence.toNat := by
  induction h generalizing n with
  | refl s => exact ⟨hs, fun _ hr => absurd hr List.not_mem_nil⟩
  | @append s t rs r hfits _ ih =>
    have hlength : n + (rs.length + 1) = n + 1 + rs.length := by omega
    rw [List.length_cons, hlength] at hroom ⊢
    obtain ⟨happend, hplace⟩ := hs.append (by omega) hfits
    obtain ⟨ht, hlater⟩ := ih happend hroom
    exact ⟨ht, List.forall_mem_cons.2 ⟨by omega, fun q hq => Nat.lt_of_succ_lt (hlater q hq)⟩⟩
  | withAttachments _ _ ih => exact ih ⟨hs.last_eq, hs.stored⟩ hroom

end Store

/-! ## Runs -/

theorem Transaction.run_singleton_of_ok {t : Transaction} {request : Request} {r : Revision} {working : Store}
    (h : t.working.advance request.document request.parent request.body = .ok (r, working)) :
    (t.run [request]).1 = [.ok r] := by
  rw [run, advance_eq, h]
  rfl

namespace Desk

/-- After every call of a run the rows belong to revisions that are stored. -/
def OwnedThroughout (d : Desk) (calls : List (FileOpener × Operation)) : Prop :=
  ∀ earlier later, calls = earlier ++ later → (d.run earlier).vault.store.Owned

/-- No call of a run adds an attachment to a revision that is not stored. -/
def NoneStrays (d : Desk) (calls : List (FileOpener × Operation)) : Prop :=
  ∀ earlier opener op later, calls = earlier ++ (opener, op) :: later → ¬ op.Strays opener (d.run earlier)

theorem run_concat (d : Desk) (earlier : List (FileOpener × Operation)) (opener : FileOpener) (op : Operation) :
    d.run (earlier ++ [(opener, op)]) = (op.perform opener (d.run earlier)).2 := d.run_append earlier _

theorem ownedThroughout_iff {d : Desk} (h : d.vault.store.Owned) (calls : List (FileOpener × Operation)) :
    d.OwnedThroughout calls ↔ d.NoneStrays calls := by
  constructor
  · intro howned earlier opener op later hcalls
    have hbefore := howned earlier _ hcalls
    have hafter := howned (earlier ++ [(opener, op)]) later (by rw [hcalls, List.append_assoc]; rfl)
    rw [run_concat] at hafter
    exact (Operation.owned_perform_iff hbefore op).1 hafter
  · intro hnone earlier
    induction earlier using List.reverseRecOn with
    | nil => exact fun _ _ => h
    | append_singleton earlier call ih =>
      obtain ⟨opener, op⟩ := call
      intro later hcalls
      rw [List.append_assoc, List.singleton_append] at hcalls
      rw [run_concat]
      exact (Operation.owned_perform_iff (ih _ hcalls) op).2 (hnone earlier opener op later hcalls)

theorem get?_eq_none_of_committed {d : Desk} (hempty : d.vault.store = .empty)
    {earlier later : List (FileOpener × Operation)} {opener : FileOpener} {op : Operation}
    (hroom : (d.committed (earlier ++ (opener, op) :: later)).length < UInt64.size) {r : Revision}
    (hr : r ∈ (op.perform opener (d.run earlier)).1) : (d.run earlier).vault.store.revisions.get? r.sequence = none := by
  rw [committed_append, committed, List.length_append, List.length_append] at hroom
  have hgrows := d.grows_run earlier
  rw [hempty] at hgrows
  obtain ⟨hcounted, -⟩ := hgrows.counted Store.counted_empty (by omega)
  obtain ⟨-, hlater⟩ := (op.grows_perform opener (d.run earlier)).counted hcounted (by omega)
  exact hcounted.get?_eq_none (hlater r hr)

/-- **Over any run from an empty store every row belongs to a revision that is stored, as long as no attachment is
added to a revision that is not**; the first such call leaves a row without a revision. As long as none does, a
revision starts with what the call that commits it gives it: with nothing if it is written on its own, with the
attachments of the one it follows and the new ones, or without the dropped ones. -/
theorem owned_run_iff (d : Desk) (hempty : d.vault.store = .empty) (calls : List (FileOpener × Operation)) :
    (d.OwnedThroughout calls ↔ d.NoneStrays calls) ∧
      (d.OwnedThroughout calls → (d.committed calls).length < UInt64.size →
        ∀ earlier opener op later, calls = earlier ++ (opener, op) :: later →
          ∀ r ∈ (op.perform opener (d.run earlier)).1, op.Starts (d.run earlier).vault.store.attachments r
            (sheet (d.run (earlier ++ [(opener, op)])).vault.store.attachments r.sequence)) := by
  have howned : d.vault.store.Owned := hempty ▸ Store.owned_empty
  refine ⟨ownedThroughout_iff howned calls, fun hthroughout hroom earlier opener op later hcalls r hr => ?_⟩
  subst hcalls
  rw [run_concat]
  exact Operation.starts_perform (hthroughout earlier _ rfl) hr (get?_eq_none_of_committed hempty hroom hr)

theorem noneStrays_cons {d : Desk} {opener : FileOpener} {op : Operation} {rest : List (FileOpener × Operation)}
    (hop : ¬ op.Strays opener d) (hrest : (op.perform opener d).2.NoneStrays rest) :
    d.NoneStrays ((opener, op) :: rest) := by
  intro earlier opener' op' later hcalls
  cases earlier with
  | nil =>
    obtain ⟨hcall, -⟩ := List.cons.inj hcalls
    cases hcall
    exact hop
  | cons call earlier =>
    obtain ⟨rfl, htail⟩ := List.cons.inj hcalls
    exact hrest earlier opener' op' later htail

theorem noneStrays_nil (d : Desk) : d.NoneStrays [] := fun earlier _ _ _ hcalls => by cases earlier <;> cases hcalls

/-! ## An attachment to a revision that is stored, and one to a revision that never was -/

/-- A text of one letter. -/
def letter : Attachment := ⟨"n", "text/plain", .bytes [120]⟩

/-- A document with an attachment. -/
def lettered : List (FileOpener × Operation) := [(Vault.noFiles, .create "a" .null), (Vault.noFiles, .add firstNote letter)]

theorem owned_run_iff_lettered : Desk.bare.vault.store = .empty ∧ Desk.bare.OwnedThroughout lettered ∧
    (Desk.bare.committed lettered).length < UInt64.size ∧
    sheet (Desk.bare.run (lettered.take 1)).vault.store.attachments firstNote.sequence = Sheet.blank := by
  have hstored : ¬ (Operation.add firstNote letter).Strays Vault.noFiles Desk.afterFirst := fun h => nomatch h.1
  have hnone : Desk.bare.NoneStrays lettered := noneStrays_cons id (noneStrays_cons hstored (noneStrays_nil _))
  have hroom : (Desk.bare.committed lettered).length < UInt64.size := by
    have hcommitted : Desk.bare.committed lettered = [firstNote] := by
      rw [lettered, committed, perform_first]
      rfl
    rw [hcommitted]
    decide
  obtain ⟨hiff, hstarts⟩ := owned_run_iff Desk.bare rfl lettered
  have hthroughout := hiff.2 hnone
  exact ⟨rfl, hthroughout, hroom, hstarts hthroughout hroom [] _ _ _ rfl firstNote (List.mem_singleton_self _)⟩

/-- A request to follow the first revision. -/
def followUp : Transaction.Request := ⟨"a", firstNote.id, .bool true⟩

/-- A document, a transaction that is aborted, an attachment to the revision that it answered, another document. -/
def adopting : List (FileOpener × Operation) :=
  [(Vault.noFiles, .create "a" .null), (Vault.noFiles, .transact [followUp] .abort), (Vault.noFiles, .add secondNote letter),
    (Vault.noFiles, .create "b" .null)]

theorem perform_abort (opener : FileOpener) (d : Desk) (requests : List Transaction.Request) :
    (Operation.transact requests .abort).perform opener d = ([], d) := by
  show ([], d.withStore (Transaction.run _ requests).2.committed) = ([], d)
  rw [Transaction.committed_run]
  rfl

/-- The desk with the row of an attachment to a revision that is not stored. -/
def misled (blobs : Blobs) : Desk :=
  ⟨⟨(Store.empty.append firstNote).withAttachments (AttachmentRow.put .empty (Vault.rowFor secondNote letter [120])),
    blobs, false⟩, []⟩

theorem exists_perform_add :
    ∃ blobs, (Operation.add secondNote letter).perform Vault.noFiles Desk.afterFirst = ([], misled blobs) := by
  have hcontent : letter.source.content? Vault.noFiles Desk.afterFirst.vault.blobs = some [120] := rfl
  have hfault : (Vault.rowFor secondNote letter [120]).fault? = none := rfl
  obtain ⟨blobs, -, hlink⟩ := Vault.link_of_placed Desk.afterFirst.vault.store.attachments hcontent hfault nofun
  have hopen : ¬ Desk.afterFirst.vault.poisoned = true := Bool.false_ne_true
  refine ⟨blobs, ?_⟩
  rw [Operation.perform, Vault.add_eq_link, if_neg hopen, hlink]
  rfl

theorem sheet_misled (blobs : Blobs) : sheet (misled blobs).vault.store.attachments secondNote.sequence "n" =
    some ((Vault.rowFor secondNote letter [120]).moved 0) := by
  have hempty : AttachmentRow.Keyed .empty := fun _ he => absurd he List.not_mem_nil
  have hgives := AttachmentRow.gives_put hempty (Vault.rowFor secondNote letter [120])
  exact (congrFun hgives.self "n").trans (Function.update_self _ _ _)

/-- A first revision of another document, at the place after that of the first one. -/
def otherNote : Revision := (Store.empty.append firstNote).next "b" none .null

theorem perform_other (blobs : Blobs) : (Operation.create "b" .null).perform Vault.noFiles (misled blobs) =
    ([otherNote], (misled blobs).withStore ((misled blobs).vault.store.append otherNote)) := rfl

theorem sequence_otherNote : otherNote.sequence = secondNote.sequence := rfl

theorem not_owned_misled (blobs : Blobs) : ¬ (misled blobs).vault.store.Owned := fun howned => by
  have hfree : (misled blobs).vault.store.revisions.get? secondNote.sequence = none := rfl
  have hsome := sheet_misled blobs
  rw [howned.sheet_eq_blank hfree] at hsome
  cases hsome

/-- The aborted transaction answers a revision whose place is handed out again, and what was added to it is what the
next document starts with. -/
theorem adopts_letter :
    ((Transaction.start Desk.afterFirst.vault.store).run [followUp]).1 = [.ok secondNote] ∧
    ¬ (Desk.bare.run (adopting.take 3)).vault.store.Owned ∧
    Desk.bare.committed adopting = [firstNote, otherNote] ∧
    sheet (Desk.bare.run adopting).vault.store.attachments otherNote.sequence "n" ≠ none := by
  obtain ⟨blobs, hadd⟩ := exists_perform_add
  have hbefore : Desk.bare.run (adopting.take 3) = misled blobs := by
    show Desk.bare.run [_, _, _] = _
    rw [run, perform_first, run, perform_abort, run, hadd, run]
  have hafter : Desk.bare.run adopting = (misled blobs).withStore ((misled blobs).vault.store.append otherNote) := by
    have hsplit : adopting = adopting.take 3 ++ [(Vault.noFiles, .create "b" .null)] := rfl
    rw [hsplit, run_concat, hbefore, perform_other]
  have hcommitted : Desk.bare.committed adopting = [firstNote, otherNote] := by
    rw [adopting, committed, perform_first, committed, perform_abort, committed, hadd, committed, perform_other]
    rfl
  have hanswer : ((Transaction.start Desk.afterFirst.vault.store).run [followUp]).1 = [.ok secondNote] :=
    Transaction.run_singleton_of_ok advance_firstNote
  refine ⟨hanswer, hbefore ▸ not_owned_misled blobs, hcommitted, ?_⟩
  have hsome : sheet (Desk.bare.run adopting).vault.store.attachments secondNote.sequence "n" ≠ none := by
    rw [hafter]
    exact fun hnone => Option.some_ne_none _ ((sheet_misled blobs).symm.trans hnone)
  rwa [sequence_otherNote]

end Desk

end Docket
