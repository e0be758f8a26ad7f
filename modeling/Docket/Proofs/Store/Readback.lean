import Docket.Proofs.Json.Nesting
import Docket.Proofs.Store.Growth

/-!
# Reading back what was written

A write stores the record of a revision around its body and does not read it. The record is one level of nesting
more than the body, so a body that is nested as deep as text may be is accepted and can never be read again, and
its document can never be changed again. Every other body that was made of text is read back as it was written.

* `Store.Aged`: the generations of all rows are at most the number of writes.
* `Store.Fits.ofText?_text`: what is read back from the row of a revision that fits.
* **`Desk.readsBack_or_stuck`**: a write reads back if its body is not nested to the limit, and only then.
-/

namespace Docket

open Json (maxNesting)

namespace Store

/-! ## Generations -/

/-- Every row is that of a revision with a generation between one and a bound. -/
def Aged (bound : Nat) (s : Store) : Prop :=
  ∀ sequence row, s.revisions.get? sequence = some row → ∃ r : Revision, row = r.text ∧ r.id.digest ≠ "" ∧
    1 ≤ r.id.generation.toNat ∧ r.id.generation.toNat ≤ bound

theorem aged_empty : Aged 0 .empty := fun _ _ h => by cases h

variable {s : Store} {bound : Nat}

theorem Aged.current (h : s.Aged bound) {document : String} {c : Revision} (hc : s.current document = .ok c) :
    RevisionId.parse? c.id.text = some c.id ∧ c.id.generation.toNat ≤ bound := by
  unfold Store.current at hc
  split at hc
  · cases hc
  · next sequence _ =>
    unfold revision at hc
    cases hrow : s.revisions.get? sequence with
    | none => simp [hrow] at hc
    | some row =>
      cases hread : Revision.ofText? row with
      | none => simp [hrow, hread] at hc
      | some found =>
        have hfound : found = c := by simpa [hrow, hread] using hc
        subst hfound
        obtain ⟨r, rfl, hdigest, hone, hle⟩ := h sequence row hrow
        have hgeneration : r.id.generation ≠ 0 := fun hzero => by
          rw [hzero, UInt64.toNat_zero] at hone
          omega
        have hparse := RevisionId.parse?_text hgeneration hdigest
        rw [Revision.ofText?_text, hparse, Option.bind_some] at hread
        obtain ⟨parent, -, hread⟩ := Option.bind_eq_some_iff.1 hread
        obtain ⟨body, -, rfl⟩ := Option.map_eq_some_iff.1 hread
        exact ⟨hparse, hle⟩

variable {r : Revision}

/-- What a revision that fits follows is read back, and its own generation goes up by one at most. -/
theorem Fits.generation (hfits : s.Fits r) (h : s.Aged bound) (hroom : bound + 1 < UInt64.size) :
    Revision.parentRead? r.parent = some r.parent ∧
      1 ≤ (RevisionId.nextGeneration r.parent).toNat ∧ (RevisionId.nextGeneration r.parent).toNat ≤ bound + 1 := by
  rcases hfits.parent_eq with ⟨hnone, -⟩ | ⟨c, hc, hparent⟩
  · rw [hnone]
    exact ⟨rfl, Nat.le_refl 1, Nat.le_add_left 1 bound⟩
  · obtain ⟨hparse, hle⟩ := h.current hc
    have hnext : (RevisionId.nextGeneration r.parent).toNat = c.id.generation.toNat + 1 := by
      rw [hparent]
      exact Revision.toNat_nextGeneration (Nat.lt_of_le_of_lt (Nat.add_le_add_right hle 1) hroom)
    rw [hnext]
    refine ⟨?_, Nat.le_add_left 1 _, Nat.add_le_add_right hle 1⟩
    rw [hparent, Revision.parentRead?, hparse, Option.map_some]

theorem Aged.append (h : s.Aged bound) (hfits : s.Fits r) (hroom : bound + 1 < UInt64.size) :
    (s.append r).Aged (bound + 1) := by
  intro sequence row hrow
  by_cases hsequence : sequence = r.sequence
  · subst hsequence
    cases (Table.get?_insert_self s.revisions r.sequence r.text).symm.trans hrow
    obtain ⟨-, hone, hle⟩ := hfits.generation h hroom
    have hid := hfits.id_eq
    refine ⟨r, rfl, ?_, ?_, ?_⟩
    · rw [hid]
      exact RevisionId.digest_derive_ne _ _
    · rw [hid]
      exact hone
    · rw [hid]
      exact hle
  · obtain ⟨q, hq, hdigest, hone, hle⟩ :=
      h sequence row ((Table.get?_insert_of_ne s.revisions r.text hsequence).symm.trans hrow)
    exact ⟨q, hq, hdigest, hone, Nat.le_succ_of_le hle⟩

theorem Grows.aged {t : Store} {rs : List Revision} (h : Grows s rs t) {bound : Nat} (hs : s.Aged bound)
    (hroom : bound + rs.length < UInt64.size) : t.Aged (bound + rs.length) := by
  induction h generalizing bound with
  | refl s => exact hs
  | @append s t rs r hfits _ ih =>
    have hlength : bound + (rs.length + 1) = bound + 1 + rs.length := by omega
    rw [List.length_cons, hlength] at hroom ⊢
    exact ih (hs.append hfits (by omega)) hroom
  | withAttachments attachments _ ih => exact ih hs hroom

/-! ## Rows -/

/-- **What is read back from the row of a revision that fits**, if its body was made of text. -/
theorem Fits.ofText?_text (hfits : s.Fits r) (h : s.Aged bound) (hroom : bound + 1 < UInt64.size) {text : String}
    (hbody : Json.ofText? text = some r.body) :
    Revision.ofText? r.text = if r.body.depth < maxNesting then some r else none := by
  obtain ⟨hparent, hone, -⟩ := hfits.generation h hroom
  have hgeneration : RevisionId.nextGeneration r.parent ≠ 0 := fun hzero => by
    rw [hzero, UInt64.toNat_zero] at hone
    omega
  have hid : RevisionId.parse? r.id.text = some r.id := by
    rw [hfits.id_eq]
    exact RevisionId.parse?_derive hgeneration
  have hmember : r.body.literal.member? = if r.body.depth ≤ maxNesting - 1 then some r.body else none :=
    Json.json?_literal _ _ (Json.distinct_and_depth_le_of_ofText? hbody).1
  have hlimit : r.body.depth ≤ maxNesting - 1 ↔ r.body.depth < maxNesting := Nat.le_sub_one_iff_lt (by decide)
  simp only [Revision.ofText?_text, hid, hparent, hmember, hlimit, Option.bind_some]
  split <;> rfl

/-- A revision can be read from a store in every way, and followed. -/
structure ReadsBack (s : Store) (r : Revision) : Prop where
  get_eq : s.get r.document = .ok (some r)
  revision_eq : s.revision r.sequence = .ok (some r)
  advance_ok : ∀ body, ∃ next t, s.advance r.document r.id body = .ok (next, t)

/-- The current row of a document cannot be read, so that the document cannot be changed either. -/
structure Stuck (s : Store) (r : Revision) : Prop where
  get_eq : s.get r.document = .error .serialization
  revision_eq : s.revision r.sequence = .error .serialization
  advance_eq : ∀ parent body, s.advance r.document parent body = .error .serialization

theorem get?_documents_append (s : Store) (r : Revision) :
    (s.append r).documents.get? r.document = some r.sequence := Table.get?_insert_self _ _ _

theorem get?_revisions_append (s : Store) (r : Revision) :
    (s.append r).revisions.get? r.sequence = some r.text := Table.get?_insert_self _ _ _

theorem get_append (s : Store) (r : Revision) : (s.append r).get r.document = (s.append r).revision r.sequence := by
  rw [get, get?_documents_append]

theorem readsBack_append (h : Revision.ofText? r.text = some r) : (s.append r).ReadsBack r := by
  have hrevision : (s.append r).revision r.sequence = .ok (some r) := by
    simp only [revision, get?_revisions_append, h]
  have hcurrent : (s.append r).current r.document = .ok r := by
    simp only [current, get?_documents_append, hrevision]
  refine ⟨(get_append s r).trans hrevision, hrevision, fun body => ?_⟩
  have hadvance : (s.append r).advance r.document r.id body =
      let next := (s.append r).next r.document (some r.id) body
      .ok (next, (s.append r).append next) := by
    simp only [advance, hcurrent, if_true]
  exact ⟨_, _, hadvance⟩

theorem stuck_append (h : Revision.ofText? r.text = none) : (s.append r).Stuck r := by
  have hrevision : (s.append r).revision r.sequence = .error .serialization := by
    simp only [revision, get?_revisions_append, h]
  have hcurrent : (s.append r).current r.document = .error .serialization := by
    simp only [current, get?_documents_append, hrevision]
  refine ⟨(get_append s r).trans hrevision, hrevision, fun parent body => ?_⟩
  rw [advance, hcurrent]

theorem eq_of_write {t : Store} {document : String} {body : Json}
    (h : s.create document body = .ok (r, t) ∨ ∃ parent, s.advance document parent body = .ok (r, t)) :
    r.document = document ∧ r.body = body ∧ s.Fits r ∧ t = s.append r := by
  rcases h with h | ⟨parent, h⟩
  · obtain ⟨hfits, rfl⟩ := create_eq_ok h
    unfold create at h
    split at h
    · cases h
    · cases h
      exact ⟨rfl, rfl, hfits, rfl⟩
  · obtain ⟨hfits, rfl⟩ := advance_eq_ok h
    unfold advance at h
    split at h
    · cases h
    · split at h
      · cases h
        exact ⟨rfl, rfl, hfits, rfl⟩
      · cases h

end Store

/-! ## Runs -/

theorem Desk.aged_run (d : Desk) (hempty : d.vault.store = .empty) (calls : List (FileOpener × Operation))
    (hroom : (d.committed calls).length + 1 < UInt64.size) :
    (d.run calls).vault.store.Aged (d.committed calls).length := by
  have hgrows := d.grows_run calls
  rw [hempty] at hgrows
  have haged := hgrows.aged Store.aged_empty (by omega)
  rwa [Nat.zero_add] at haged

/-- **After any run from an empty store a write is read back if its body is not nested to the limit**, and then its
document can be changed further. If the body is nested to the limit the write succeeds as well, but nothing reads
it, and its document cannot be changed any more. -/
theorem Desk.readsBack_or_stuck (d : Desk) (hempty : d.vault.store = .empty) (calls : List (FileOpener × Operation))
    (hroom : (d.committed calls).length + 1 < UInt64.size) {document text : String} {body : Json}
    (hbody : Json.ofText? text = some body) {r : Revision} {s : Store}
    (hwrite : (d.run calls).vault.store.create document body = .ok (r, s) ∨
      ∃ parent, (d.run calls).vault.store.advance document parent body = .ok (r, s)) :
    r.document = document ∧ r.body = body ∧
      (body.depth < maxNesting → s.ReadsBack r) ∧ (maxNesting ≤ body.depth → s.Stuck r) := by
  obtain ⟨rfl, rfl, hfits, rfl⟩ := Store.eq_of_write hwrite
  have hrow := hfits.ofText?_text (d.aged_run hempty calls hroom) hroom hbody
  refine ⟨rfl, rfl, fun hdepth => ?_, fun hdepth => ?_⟩
  · rw [if_pos hdepth] at hrow
    exact Store.readsBack_append hrow
  · rw [if_neg (Nat.not_lt.2 hdepth)] at hrow
    exact Store.stuck_append hrow

/-! ## A body that is nested to the limit -/

namespace Json

/-- An empty list in that many lists. -/
def tower : Nat → Json
  | 0 => .arr []
  | n + 1 => .arr [tower n]

theorem depth_tower (n : Nat) : (tower n).depth = n + 1 := by
  induction n with
  | zero => rfl
  | succ n ih => rw [tower, depth, depthOfItems, depthOfItems, ih, Nat.max_eq_left (Nat.zero_le _)]

theorem distinct_tower (n : Nat) : (tower n).Distinct := by
  induction n with
  | zero => trivial
  | succ n ih => exact ⟨ih, trivial⟩

theorem ofText?_tower {n : Nat} (h : n < maxNesting) : ofText? (tower n).text = some (tower n) := by
  rw [ofText?_text (distinct_tower n), if_pos]
  rw [depth_tower]
  exact h

end Json

theorem Store.create_empty (document : String) (body : Json) : Store.empty.create document body =
    .ok (empty.next document none body, empty.append (empty.next document none body)) := rfl

/-- A body one level below the limit is read back. -/
theorem Desk.readsBack_tower : Json.ofText? (Json.tower 125).text = some (Json.tower 125) ∧
    ∃ r s, (Desk.bare.run []).vault.store.create "d" (Json.tower 125) = .ok (r, s) ∧ s.ReadsBack r := by
  have hbody : Json.ofText? (Json.tower 125).text = some (Json.tower 125) := Json.ofText?_tower (by decide)
  have hdepth : (Json.tower 125).depth < maxNesting := by
    rw [Json.depth_tower]
    decide
  have hcreate := Store.create_empty "d" (Json.tower 125)
  obtain ⟨-, -, hread, -⟩ := Desk.readsBack_or_stuck Desk.bare rfl [] (by decide) hbody (.inl hcreate)
  exact ⟨hbody, _, _, hcreate, hread hdepth⟩

/-- A body nested to the limit is read from text and written, and then nothing reads it. -/
theorem Desk.stuck_tower : Json.ofText? (Json.tower 126).text = some (Json.tower 126) ∧
    ∃ r s, (Desk.bare.run []).vault.store.create "d" (Json.tower 126) = .ok (r, s) ∧
      s.get "d" = .error .serialization ∧ s.revision r.sequence = .error .serialization ∧
      s.advance "d" r.id Json.empty = .error .serialization := by
  have hbody : Json.ofText? (Json.tower 126).text = some (Json.tower 126) := Json.ofText?_tower (by decide)
  have hdepth : ¬ (Json.tower 126).depth < maxNesting := by
    rw [Json.depth_tower]
    decide
  have hcreate := Store.create_empty "d" (Json.tower 126)
  obtain ⟨hfits, -⟩ := Store.create_eq_ok hcreate
  have hrow := (hfits.ofText?_text Store.aged_empty (by decide) hbody).trans (if_neg hdepth)
  have hstuck : (Store.empty.append _).Stuck _ := Store.stuck_append hrow
  exact ⟨hbody, _, _, hcreate, hstuck.get_eq, hstuck.revision_eq, hstuck.advance_eq _ _⟩

end Docket
