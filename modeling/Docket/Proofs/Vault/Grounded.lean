import Docket.Proofs.Vault.Lookups

/-!
# Runs on revisions that were committed

A run is grounded if its calls are given no other revisions than those that it committed before. Then the store keeps
just these revisions, every row belongs to one of them, and what a change of attachments does is determined: it follows
the revision if that is the current one of its document, with its rows at the next place.

* `Desk.Grounded`: every revision that a call is given was committed before.
* `Store.Keeps`: a store that keeps just these revisions, with room for one more.
* `Desk.keeps_run`: what a grounded run leads to.
* `Revision.Succeeds`: a revision follows another one with the same body.
* **`Store.Keeps.succeed_of_current`, `Store.succeed_of_stale`**: what following a revision does.
-/

namespace Docket

open AttachmentRow (Sheet sheet Gives Keyed rowAt)

/-! ## Grounded runs -/

/-- The revision that a call is given. -/
def Operation.revision? : Operation → Option Revision
  | .add r _ | .addAll r _ | .remove r _ => some r
  | _ => none

/-- Every revision that a call is given was committed before. -/
def Desk.Grounded (d : Desk) (calls : List (FileOpener × Operation)) : Prop :=
  ∀ earlier opener op later, calls = earlier ++ (opener, op) :: later → ∀ r ∈ op.revision?, r ∈ d.committed earlier

namespace Store

/-- A store that keeps just these revisions: its tables agree, every row of an attachment belongs to one of them, and
there is room for one more. -/
structure Keeps (s : Store) (written : List Revision) : Prop where
  linear : s.Linear
  owned : s.Owned
  room : s.last.toNat + 1 < UInt64.size
  log_eq : s.log = written

end Store

namespace Desk

variable {d : Desk} (hempty : d.vault.store = .empty) {calls : List (FileOpener × Operation)}

include hempty

theorem linear_of_storable (hstorable : ∀ r ∈ d.committed calls, r.Storable) :
    (d.run calls).vault.store.Linear ∧ (d.run calls).vault.store.last.toNat + 1 < UInt64.size ∧
      (d.run calls).vault.store.log = d.committed calls := by
  have hgrows := d.grows_run calls
  rw [hempty] at hgrows
  obtain ⟨hlinear, hroom, hlog, -⟩ := hgrows.linear Store.linear_empty (by decide) hstorable
  exact ⟨hlinear, hroom, hlog⟩

variable (hgrounded : d.Grounded calls) (hstorable : ∀ r ∈ d.committed calls, r.Storable)

include hgrounded hstorable

theorem noneStrays_of_grounded : d.NoneStrays calls := by
  intro earlier opener op later hcalls hstrays
  cases op with
  | add r a =>
    have hr : r ∈ d.committed earlier := hgrounded earlier opener _ later hcalls r rfl
    rw [hcalls, committed_append, List.forall_mem_append] at hstorable
    -- what was committed is in the log at the time of the call
    obtain ⟨hlinear, -, hlog⟩ := linear_of_storable hempty hstorable.1
    obtain ⟨row, hrow, -⟩ := hlinear.get?_sequence (hlog ▸ hr)
    rw [hstrays.1] at hrow
    cases hrow
  | _ => exact hstrays

/-- **A grounded run leads to a store that keeps what was committed.** -/
theorem keeps_run : (d.run calls).vault.store.Keeps (d.committed calls) := by
  have hnone := noneStrays_of_grounded hempty hgrounded hstorable
  obtain ⟨hlinear, hroom, hlog⟩ := linear_of_storable hempty hstorable
  refine ⟨hlinear, ?_, hroom, hlog⟩
  exact (ownedThroughout_iff (hempty ▸ Store.owned_empty) calls).2 hnone calls [] (List.append_nil calls).symm

end Desk

/-! ## A revision that follows -/

/-- A revision follows another one with the same body, at the next place of a store. -/
structure Revision.Succeeds (s : Store) (r next : Revision) : Prop where
  document_eq : next.document = r.document
  parent_eq : next.parent = some r.id
  id_eq : next.id = .derive (some r.id) r.body
  body_eq : next.body = r.body
  sequence_eq : next.sequence.toNat = s.last.toNat + 1
  generation_eq : next.id.generation.toNat = r.id.generation.toNat + 1

/-- The revision that follows another one with the same body. -/
def Store.successor (s : Store) (r : Revision) : Revision := s.next r.document (some r.id) r.body

namespace Store

theorem Linear.exists_current {s : Store} (h : s.Linear) {r : Revision} (hr : r ∈ s.log) :
    ∃ c, s.get r.document = .ok (some c) ∧ s.current r.document = .ok c := by
  cases hlast : (s.chain r.document).getLast? with
  | none =>
    have hmem : r ∈ s.chain r.document := mem_chain.2 ⟨hr, rfl⟩
    rw [List.getLast?_eq_none_iff.1 hlast] at hmem
    exact absurd hmem List.not_mem_nil
  | some c =>
    have hc : c ∈ s.log := (mem_chain.1 (List.mem_of_getLast? hlast)).1
    have hdocument : s.documents.get? r.document = some c.sequence := by rw [h.documents, hlast, Option.map_some]
    refine ⟨c, ?_, ?_⟩
    · rw [get, hdocument]
      exact h.revision_eq hc
    · rw [current, hdocument]
      simp only [h.revision_eq hc]

theorem get_of_decodes {s : Store} {document : String} {r : Revision}
    (hdocument : s.documents.get? document = some r.sequence) (hrow : s.revisions.get? r.sequence = some r.text)
    (hdecodes : Revision.ofText? r.text = some r) : s.get document = .ok (some r) := by
  rw [get, hdocument]
  simp only [revision, hrow, hdecodes]

theorem succeed_of_stale {s : Store} {r c : Revision} (hc : s.current r.document = .ok c) (hstale : c.id ≠ r.id) :
    Vault.succeed s r = .error (.store (.conflict r.document r.id c.id)) := by
  rw [Vault.succeed, advance, hc]
  simp only [if_neg hstale]

namespace Keeps

variable {s : Store} {written : List Revision} (h : s.Keeps written) {r : Revision}

include h

theorem keyed : Keyed s.attachments := h.owned.keyed

theorem exists_current (hr : r ∈ written) :
    ∃ c, s.get r.document = .ok (some c) ∧ s.current r.document = .ok c := h.linear.exists_current (h.log_eq ▸ hr)

theorem toNat_successor : (s.successor r).sequence.toNat = s.last.toNat + 1 := by
  show (s.last + 1).toNat = _
  rw [UInt64.toNat_add, UInt64.toNat_one, Nat.mod_eq_of_lt h.room]

theorem succeeds_successor (hr : r ∈ written) : r.Succeeds s (s.successor r) where
  document_eq := rfl
  parent_eq := rfl
  id_eq := rfl
  body_eq := rfl
  sequence_eq := h.toNat_successor
  generation_eq := by
    have hlog : r ∈ s.log := h.log_eq ▸ hr
    have hgeneration := UInt64.le_iff_toNat_le.1 (h.linear.generations r hlog)
    have hlast := UInt64.le_iff_toNat_le.1 (h.linear.sequence_le hlog)
    have hfits : r.id.generation.toNat + 1 < UInt64.size := by
      have hroom := h.room
      omega
    exact RevisionId.toNat_nextGeneration_some hfits

theorem sequence_ne_successor (hr : r ∈ written) : r.sequence ≠ (s.successor r).sequence := fun he => by
  have hle := h.linear.sequence_le (h.log_eq ▸ hr)
  rw [he, UInt64.le_iff_toNat_le, h.toNat_successor] at hle
  exact absurd hle (Nat.not_succ_le_self _)

theorem sheet_successor : sheet s.attachments (s.successor r).sequence = Sheet.blank := by
  refine h.owned.sheet_eq_blank ?_
  cases hrow : s.revisions.get? (s.successor r).sequence with
  | none => rfl
  | some row =>
    have hkey := List.mem_map_of_mem (f := Prod.fst) (Table.get?_eq_some_iff.1 hrow)
    have hle : (s.successor r).sequence ≤ s.last := ((h.linear.places _).1 hkey).2
    rw [UInt64.le_iff_toNat_le, h.toNat_successor] at hle
    exact absurd hle (Nat.not_succ_le_self _)

/-- The current revision is followed by one with its rows. -/
theorem succeed_of_current {c : Revision} (hc : s.current r.document = .ok c) (hid : c.id = r.id) :
    ∃ table, Vault.succeed s r = .ok (s.successor r, (s.append (s.successor r)).withAttachments table) ∧
      Gives s.attachments table (s.successor r).sequence (sheet s.attachments r.sequence) := by
  have hadvance : s.advance r.document r.id r.body = .ok (s.successor r, s.append (s.successor r)) := by
    rw [advance, hc]
    exact if_pos hid
  obtain ⟨table, given, hcarry, hgives, hgiven⟩ :=
    AttachmentRow.carry_spec h.keyed r.sequence (s.successor r).sequence
  have happend : (s.append (s.successor r)).attachments = s.attachments := rfl
  refine ⟨table, ?_, hgiven h.sheet_successor ▸ hgives⟩
  rw [Vault.succeed, hadvance]
  simp only [happend, hcarry]
  rfl

end Keeps

end Store

/-! ## Rows after a change of one sheet -/

namespace AttachmentRow.Gives

variable {before after : AttachmentTable} {sequence : UInt64} {given : Sheet} (h : Gives before after sequence given)

include h

theorem rowAt_self (name : String) :
    rowAt after sequence name = .ok ((given name).map (·.moved sequence)) := by rw [h.keyed.rowAt_eq, h.self]

theorem rowAt_of_ne (hbefore : Keyed before) {other : UInt64} (hother : other ≠ sequence) (name : String) :
    rowAt after other name = rowAt before other name := by
  rw [h.keyed.rowAt_eq, hbefore.rowAt_eq, h.others other hother]

end AttachmentRow.Gives

theorem AttachmentRow.Gives.rowAt_of_sheet {before after : AttachmentTable} {source target : UInt64}
    (h : Gives before after target (sheet before source)) (hbefore : Keyed before) (name : String) :
    rowAt after target name = (rowAt before source name).map (·.map (·.moved target)) := by
  rw [h.rowAt_self, hbefore.rowAt_eq]
  cases sheet before source name <;> rfl

theorem AttachmentRow.Gives.rowAt_of_without {before after : AttachmentTable} {sequence : UInt64} {names : List String}
    (h : Gives before after sequence ((sheet before sequence).without names)) (hbefore : Keyed before) (name : String) :
    rowAt after sequence name = if name ∈ names then .ok none else rowAt before sequence name := by
  rw [h.rowAt_self, hbefore.rowAt_eq, Sheet.without]
  split <;> rfl

/-! ## A document with one attachment -/

namespace Desk

theorem committed_lettered : Desk.bare.committed lettered = [firstNote] := by
  rw [lettered, committed, perform_first]
  rfl

theorem mem_committed_lettered : firstNote ∈ Desk.bare.committed lettered := by
  rw [committed_lettered]
  exact List.mem_singleton_self firstNote

theorem poisoned_lettered : (Desk.bare.run lettered).vault.poisoned = false := by
  obtain ⟨blobs, -, hrun⟩ := exists_run_lettered
  rw [hrun]
  rfl

theorem storable_lettered : ∀ r ∈ Desk.bare.committed lettered, r.Storable := by
  rw [committed_lettered]
  simp [storable_firstNote]

theorem grounded_lettered : Desk.bare.Grounded lettered := by
  intro earlier opener op later hcalls r hr
  match earlier with
  | [] =>
    cases hcalls
    cases hr
  | [_] =>
    cases hcalls
    cases hr
    exact List.mem_singleton_self firstNote
  | _ :: _ :: _ =>
    rw [lettered] at hcalls
    simp at hcalls

theorem rowAt_lettered : rowAt (Desk.bare.run lettered).vault.store.attachments firstNote.sequence "n" =
    .ok (some (Vault.rowFor firstNote letter [120])) := by
  obtain ⟨blobs, -, hrun⟩ := exists_run_lettered
  have hempty : Keyed .empty := fun _ he => absurd he List.not_mem_nil
  have hgives := AttachmentRow.gives_put hempty (Vault.rowFor firstNote letter [120])
  rw [hrun]
  refine (hgives.rowAt_self "n").trans ?_
  rw [show (Vault.rowFor firstNote letter [120]).filename = "n" from rfl, Function.update_self]
  rfl

theorem get_lettered : (Desk.bare.run lettered).vault.store.get "a" = .ok (some firstNote) := by
  obtain ⟨blobs, -, hrun⟩ := exists_run_lettered
  have hdocument : (withLetter blobs).vault.store.documents.get? "a" = some firstNote.sequence :=
    Table.get?_insert_self _ _ _
  have hrow : (withLetter blobs).vault.store.revisions.get? firstNote.sequence = some firstNote.text :=
    Table.get?_insert_self _ _ _
  rw [hrun]
  exact Store.get_of_decodes hdocument hrow storable_firstNote.decodes

end Desk

end Docket
