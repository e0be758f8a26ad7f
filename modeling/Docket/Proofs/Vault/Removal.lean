import Docket.Proofs.Vault.Grounded

/-!
# What removing attachments does

Names are dropped from the rows of a revision before it is looked at whether the revision is the current one, and what
is left is then carried to the next one. If there was nothing to drop, or the revision is not the current one, nothing
of it is kept. All of it depends on which names are given, not on their order or on how often they are.

* `AttachmentRow.drop_congr`: dropping the same names.
* `Vault.remove_of_absent`, `Vault.remove_of_present`: the two ways that removing takes.
* `Vault.remove_of_current`, `Vault.remove_of_stale`: what it does with names to drop.
* **`Desk.remove_exact`**: all that removing does to a revision that was committed.
-/

namespace Docket

open AttachmentRow (Sheet sheet Gives Keyed rowAt drop key)

/-! ## Dropping the same names -/

namespace AttachmentRow

theorem get?_drop (table : AttachmentTable) (sequence : UInt64) (names : List String) (k : Bytes) :
    (drop table sequence names).1.get? k = if k ∈ names.map (key sequence) then none else table.get? k := by
  induction names generalizing table with
  | nil => rfl
  | cons name rest ih =>
    refine (ih (table.erase (key sequence name))).trans ?_
    by_cases hk : k = key sequence name
    · rw [hk, Table.get?_erase_self, ite_self, List.map_cons, if_pos List.mem_cons_self]
    · rw [Table.get?_erase_of_ne _ hk, List.map_cons]
      simp only [List.mem_cons, hk, false_or]

theorem drop_congr {table : AttachmentTable} (h : Keyed table) (sequence : UInt64) {names others : List String}
    (hsame : ∀ name, name ∈ names ↔ name ∈ others) :
    (drop table sequence names).1 = (drop table sequence others).1 ∧
      ((drop table sequence names).2 = 0 ↔ (drop table sequence others).2 = 0) := by
  refine ⟨Table.ext fun k => ?_, ?_⟩
  · have hkeys : k ∈ names.map (key sequence) ↔ k ∈ others.map (key sequence) := by simp only [List.mem_map, hsame]
    simp only [get?_drop, hkeys]
  · simp only [drop_eq_zero_iff h, hsame]

end AttachmentRow

/-! ## Removing from a revision that was committed -/

theorem Store.Keeps.drop {s : Store} {written : List Revision} (h : s.Keeps written) (sequence : UInt64)
    (names : List String) : (s.withAttachments (drop s.attachments sequence names).1).Keeps written where
  linear := h.linear.withAttachments _
  owned := h.owned.drop (AttachmentRow.gives_drop h.keyed sequence names)
  room := h.room
  log_eq := h.log_eq

namespace Vault

section Remove

variable {v : Vault} (hopen : v.poisoned = false) {r : Revision} {names : List String}

include hopen

theorem remove_of_absent (hzero : (drop v.store.attachments r.sequence names).2 = 0) :
    v.remove r names = (.ok r, v) := by
  rw [remove_eq_drop, if_neg (ne_true_of_eq_false hopen)]
  split
  · rfl
  · next hresult =>
    rw [hresult] at hzero
    cases hzero

theorem remove_of_present (hpresent : (drop v.store.attachments r.sequence names).2 ≠ 0) :
    v.remove r names =
      match succeed (v.store.withAttachments (drop v.store.attachments r.sequence names).1) r with
      | .error e => (.error e, v)
      | .ok (next, store) => (.ok next, { v with store }) := by
  cases hresult : drop v.store.attachments r.sequence names with
  | mk dropped count =>
    rw [hresult] at hpresent
    obtain ⟨n, rfl⟩ := Nat.exists_eq_succ_of_ne_zero hpresent
    simp only [remove_eq_drop, hopen, hresult]
    rfl

variable {written : List Revision} (h : v.store.Keeps written)

include h

theorem remove_congr {others : List String} (hsame : ∀ name, name ∈ others ↔ name ∈ names) :
    v.remove r others = v.remove r names := by
  obtain ⟨htable, hzero⟩ := AttachmentRow.drop_congr h.keyed r.sequence hsame
  by_cases habsent : (drop v.store.attachments r.sequence names).2 = 0
  · rw [remove_of_absent hopen habsent, remove_of_absent hopen (hzero.2 habsent)]
  · rw [remove_of_present hopen habsent, remove_of_present hopen fun hothers => habsent (hzero.1 hothers), htable]

variable {c : Revision} (hc : v.store.current r.document = .ok c)
  (hpresent : (drop v.store.attachments r.sequence names).2 ≠ 0)

include hc hpresent

omit h in
/-- With names to drop a revision that is not the current one is in conflict. -/
theorem remove_of_stale (hstale : c.id ≠ r.id) :
    v.remove r names = (.error (.store (.conflict r.document r.id c.id)), v) := by
  have hdropped : (v.store.withAttachments (drop v.store.attachments r.sequence names).1).current r.document = .ok c := hc
  rw [remove_of_present hopen hpresent, Store.succeed_of_stale hdropped hstale]

/-- With names to drop the current revision loses them, and is followed by one with the rows that are left. -/
theorem remove_of_current (hid : c.id = r.id) :
    ∃ table, v.remove r names = (.ok (v.store.successor r), { v with
        store := (v.store.append (v.store.successor r)).withAttachments table }) ∧
      Gives (drop v.store.attachments r.sequence names).1 table (v.store.successor r).sequence
        (sheet (drop v.store.attachments r.sequence names).1 r.sequence) := by
  have hdropped : (v.store.withAttachments (drop v.store.attachments r.sequence names).1).current r.document = .ok c := hc
  obtain ⟨table, hsucceed, hgives⟩ := (h.drop r.sequence names).succeed_of_current hdropped hid
  refine ⟨table, ?_, hgives⟩
  rw [remove_of_present hopen hpresent, hsucceed]
  rfl

omit hopen hc hpresent in
theorem drop_eq_zero_iff_attachment :
    (drop v.store.attachments r.sequence names).2 = 0 ↔ ∀ name ∈ names, v.attachment r name = .ok none := by
  rw [AttachmentRow.drop_eq_zero_iff h.keyed]
  refine forall₂_congr fun name _ => ?_
  rw [attachment, h.keyed.rowAt_eq]
  cases sheet v.store.attachments r.sequence name <;> simp [Except.map]

end Remove

end Vault

/-! ## Runs -/

namespace Desk

/-- **After any grounded run from an empty store**, and for every revision that it committed: without attachments under
the given names the revision itself is answered and nothing changes. Else, if it is not the current one of its document,
there is a conflict and nothing changes. Else it loses the rows of these names, the next revision follows it with the
rows that are left, and no other row changes. All of it depends on which names are given. -/
theorem remove_exact (d : Desk) (hempty : d.vault.store = .empty) (calls : List (FileOpener × Operation))
    (hgrounded : d.Grounded calls) (hstorable : ∀ r ∈ d.committed calls, r.Storable)
    (hopen : (d.run calls).vault.poisoned = false) (r : Revision) (hr : r ∈ d.committed calls) (names : List String) :
    let v := (d.run calls).vault
    (∀ others, (∀ name, name ∈ others ↔ name ∈ names) → v.remove r others = v.remove r names) ∧
    ((∀ name ∈ names, v.attachment r name = .ok none) → v.remove r names = (.ok r, v)) ∧
    ((∃ name ∈ names, v.attachment r name ≠ .ok none) → ∃ c, v.store.get r.document = .ok (some c) ∧
      (c.id ≠ r.id → v.remove r names = (.error (.store (.conflict r.document r.id c.id)), v)) ∧
      (c.id = r.id → ∃ next table, r.Succeeds v.store next ∧
        v.remove r names = (.ok next, { v with store := (v.store.append next).withAttachments table }) ∧
        ∀ name,
          (rowAt table r.sequence name =
            if name ∈ names then .ok none else rowAt v.store.attachments r.sequence name) ∧
          (rowAt table next.sequence name = if name ∈ names then .ok none
            else (rowAt v.store.attachments r.sequence name).map (·.map (·.moved next.sequence))) ∧
          ∀ sequence, sequence ≠ r.sequence → sequence ≠ next.sequence →
            rowAt table sequence name = rowAt v.store.attachments sequence name)) := by
  intro v
  have hkeeps : v.store.Keeps (d.committed calls) := keeps_run hempty hgrounded hstorable
  have hzero : (drop v.store.attachments r.sequence names).2 = 0 ↔ ∀ name ∈ names, v.attachment r name = .ok none :=
    Vault.drop_eq_zero_iff_attachment hkeeps
  refine ⟨fun others => Vault.remove_congr hopen hkeeps, fun habsent => Vault.remove_of_absent hopen (hzero.2 habsent),
    fun ⟨name, hname, hattached⟩ => ?_⟩
  have hpresent : (drop v.store.attachments r.sequence names).2 ≠ 0 := fun h => hattached (hzero.1 h name hname)
  obtain ⟨c, hget, hc⟩ := hkeeps.exists_current hr
  refine ⟨c, hget, Vault.remove_of_stale hopen hc hpresent, fun hid => ?_⟩
  obtain ⟨table, hremove, hgives⟩ := Vault.remove_of_current hopen hkeeps hc hpresent hid
  -- both places are read through the table without the names, from which the rows were carried
  have hdropped := AttachmentRow.gives_drop hkeeps.keyed r.sequence names
  have hself := hdropped.rowAt_of_without hkeeps.keyed
  refine ⟨_, table, hkeeps.succeeds_successor hr, hremove, fun name => ⟨?_, ?_, fun sequence hother hnext => ?_⟩⟩
  · rw [hgives.rowAt_of_ne hdropped.keyed (hkeeps.sequence_ne_successor hr), hself]
  · rw [hgives.rowAt_of_sheet hdropped.keyed, hself, apply_ite (Except.map _)]
    rfl
  · rw [hgives.rowAt_of_ne hdropped.keyed hnext, hdropped.rowAt_of_ne hkeeps.keyed hother]

/-! ## A name that is given twice -/

/-- A name that is given twice, and another one under which there is nothing. -/
def twice : List String := ["n", "m", "n"]

theorem mem_twice (name : String) : name ∈ ["m", "n"] ↔ name ∈ twice := by
  simp only [twice, List.mem_cons, List.not_mem_nil, or_false]
  tauto

theorem remove_exact_twice : Desk.bare.vault.store = .empty ∧ Desk.bare.Grounded lettered ∧
    (∀ r ∈ Desk.bare.committed lettered, r.Storable) ∧ (Desk.bare.run lettered).vault.poisoned = false ∧
    firstNote ∈ Desk.bare.committed lettered ∧ ∃ next after,
      (Desk.bare.run lettered).vault.remove firstNote ["m", "n"] = (.ok next, after) ∧
      next.parent = some firstNote.id ∧ rowAt after.store.attachments next.sequence "n" = .ok none := by
  obtain ⟨hcongr, -, hremoves⟩ := remove_exact Desk.bare rfl lettered grounded_lettered storable_lettered
    poisoned_lettered firstNote mem_committed_lettered twice
  have hattached : (Desk.bare.run lettered).vault.attachment firstNote "n" ≠ .ok none := by
    rw [Vault.attachment, rowAt_lettered]
    exact fun h => by cases h
  obtain ⟨c, hget, -, hcurrent⟩ := hremoves ⟨"n", by decide, hattached⟩
  obtain rfl : firstNote = c := Option.some.inj (Except.ok.inj (get_lettered.symm.trans hget))
  obtain ⟨next, table, hsucceeds, hremove, hrows⟩ := hcurrent rfl
  refine ⟨rfl, grounded_lettered, storable_lettered, poisoned_lettered, mem_committed_lettered, next, _,
    (hcongr _ mem_twice).trans hremove, hsucceeds.parent_eq, ?_⟩
  exact (hrows "n").2.1.trans (if_pos (by decide))

end Desk

end Docket
