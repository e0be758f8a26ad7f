import Docket.Proofs.Table
import Docket.Store

/-!
# Chains of revisions

The rows of revisions, read in the order of their places, are the log of a store, and what the log says of one
document is the chain of that document. A store is linear if its three tables agree on one chain for every
document.

* `Revision.IsChain`: every revision follows the one before it.
* `Store.Linear`: the tables of documents, revisions and counters agree.
* **`Store.Linear.append`**: a linear store stays linear when a revision that fits is appended.
-/

namespace Docket

/-! ## Chains -/

namespace Revision

/-- The generation of an identifier that may be absent. -/
def generationOf : Option RevisionId → Nat
  | none => 0
  | some id => id.generation.toNat

theorem toNat_nextGeneration {parent : Option RevisionId} (h : generationOf parent + 1 < UInt64.size) :
    (RevisionId.nextGeneration parent).toNat = generationOf parent + 1 := by
  cases parent with
  | none => rfl
  | some id => exact RevisionId.toNat_nextGeneration_some h

/-- A revision follows an identifier, or is a first one: its own identifier is the derived one, and the
generation goes up by one. -/
structure Follows (parent : Option RevisionId) (r : Revision) : Prop where
  parent_eq : r.parent = parent
  id_eq : r.id = .derive parent r.body
  generation_eq : r.id.generation.toNat = generationOf parent + 1

/-- Every revision follows the one before it, and the first one follows `parent`. -/
def IsChain : Option RevisionId → List Revision → Prop
  | _, [] => True
  | parent, r :: rest => r.Follows parent ∧ IsChain (some r.id) rest

/-- The identifier at the end of a chain that started after `parent`. -/
def tip (parent : Option RevisionId) (chain : List Revision) : Option RevisionId :=
  (chain.getLast?.map (·.id)).or parent

theorem tip_cons (parent : Option RevisionId) (r : Revision) (rest : List Revision) :
    tip parent (r :: rest) = tip (some r.id) rest := by
  cases rest with
  | nil => rfl
  | cons s rest =>
    have hlast : (s :: rest).getLast? = some ((s :: rest).getLast (List.cons_ne_nil s rest)) :=
      List.getLast?_eq_some_getLast _
    rw [tip, tip, List.getLast?_cons_cons, hlast]
    rfl

theorem isChain_append_singleton {parent : Option RevisionId} {chain : List Revision} {r : Revision} :
    IsChain parent (chain ++ [r]) ↔ IsChain parent chain ∧ r.Follows (tip parent chain) := by
  induction chain generalizing parent with
  | nil => simp [IsChain, tip]
  | cons s rest ih => rw [List.cons_append, IsChain, ih, IsChain, tip_cons, and_assoc]

/-- Along a chain the generations go up. -/
theorem IsChain.generation_lt {parent : Option RevisionId} {chain : List Revision} (h : IsChain parent chain) :
    (∀ r ∈ chain, generationOf parent < r.id.generation.toNat) ∧
      chain.Pairwise fun r s => r.id.generation.toNat < s.id.generation.toNat := by
  induction chain generalizing parent with
  | nil => exact ⟨fun _ hr => absurd hr List.not_mem_nil, List.Pairwise.nil⟩
  | cons r rest ih =>
    obtain ⟨hr, hrest⟩ := h
    obtain ⟨hbelow, hpair⟩ := ih hrest
    have hgen := hr.generation_eq
    refine ⟨fun s hs => ?_, List.pairwise_cons.2 ⟨hbelow, hpair⟩⟩
    rcases List.mem_cons.1 hs with rfl | hs
    · omega
    · have : r.id.generation.toNat < s.id.generation.toNat := hbelow s hs
      omega

theorem IsChain.generation_eq {parent : Option RevisionId} {chain : List Revision} (h : IsChain parent chain) :
    ∀ r ∈ chain, r.id.generation.toNat = generationOf r.parent + 1 := by
  induction chain generalizing parent with
  | nil => exact fun _ hr => absurd hr List.not_mem_nil
  | cons r rest ih =>
    intro s hs
    rcases List.mem_cons.1 hs with rfl | hs
    · rw [h.1.parent_eq, h.1.generation_eq]
    · exact ih h.2 s hs

/-- No two revisions of a chain follow the same one, and no two have the same identifier. -/
theorem IsChain.pairwise_ne {chain : List Revision} (h : IsChain none chain) :
    chain.Pairwise fun r s => r.parent ≠ s.parent ∧ r.id ≠ s.id := by
  refine List.Pairwise.imp_of_mem ?_ h.generation_lt.2
  intro r s hr hs hlt
  have hr := h.generation_eq r hr
  have hs := h.generation_eq s hs
  refine ⟨fun he => ?_, fun he => ?_⟩
  · rw [he] at hr
    omega
  · rw [he] at hlt
    omega

end Revision

namespace Store

/-! ## Linear stores -/

/-- The revisions of a store in the order of their places. -/
def log (s : Store) : List Revision := s.revisions.entries.filterMap fun e => Revision.ofText? e.2

/-- The revisions of a document in the order of their places. -/
def chain (s : Store) (document : String) : List Revision := s.log.filter (·.document = document)

/-- The tables of documents, revisions and counters agree on one chain for every document. -/
structure Linear (s : Store) : Prop where
  /-- The places are those from one to the last one handed out. -/
  places : ∀ sequence, sequence ∈ s.revisions.keys ↔ 1 ≤ sequence ∧ sequence ≤ s.last
  /-- A row is a revision of its place. -/
  rows : ∀ e ∈ s.revisions.entries, ∃ r, Revision.ofText? e.2 = some r ∧ r.sequence = e.1
  /-- The revisions of a document are a chain from a first one. -/
  chains : ∀ document, Revision.IsChain none (s.chain document)
  /-- A generation is no more than the place. -/
  generations : ∀ r ∈ s.log, r.id.generation ≤ r.sequence
  /-- A document stands at the end of its chain, and is there if it has one. -/
  documents : ∀ document, s.documents.get? document = (s.chain document).getLast?.map (·.sequence)

theorem linear_empty : Linear .empty where
  places sequence := by
    have hlast : (empty.last : UInt64) = 0 := rfl
    rw [hlast]
    refine ⟨fun h => absurd h List.not_mem_nil, fun h => ?_⟩
    have h1 := UInt64.le_iff_toNat_le.1 h.1
    have h2 := UInt64.le_iff_toNat_le.1 h.2
    rw [UInt64.toNat_zero] at h2
    rw [UInt64.toNat_one] at h1
    omega
  rows := fun _ h => absurd h List.not_mem_nil
  chains _ := trivial
  generations := fun _ h => absurd h List.not_mem_nil
  documents _ := rfl

theorem Linear.withAttachments {s : Store} (h : s.Linear) (attachments : Table Bytes String) :
    (s.withAttachments attachments).Linear := ⟨h.places, h.rows, h.chains, h.generations, h.documents⟩

theorem mem_log {s : Store} {r : Revision} :
    r ∈ s.log ↔ ∃ e ∈ s.revisions.entries, Revision.ofText? e.2 = some r := List.mem_filterMap

theorem mem_chain {s : Store} {document : String} {r : Revision} :
    r ∈ s.chain document ↔ r ∈ s.log ∧ r.document = document := by simp [chain]

theorem Linear.get?_sequence {s : Store} (h : s.Linear) {r : Revision} (hr : r ∈ s.log) :
    ∃ row, s.revisions.get? r.sequence = some row ∧ Revision.ofText? row = some r := by
  obtain ⟨e, he, hdecode⟩ := mem_log.1 hr
  obtain ⟨r', hr', hseq⟩ := h.rows e he
  rw [hdecode, Option.some.injEq] at hr'
  subst hr'
  refine ⟨e.2, ?_, hdecode⟩
  rw [hseq, Table.get?_eq_some_iff]
  exact he

theorem Linear.revision_eq {s : Store} (h : s.Linear) {r : Revision} (hr : r ∈ s.log) :
    s.revision r.sequence = .ok (some r) := by
  obtain ⟨row, hget, hdecode⟩ := h.get?_sequence hr
  rw [revision, hget]
  simp only [hdecode]

theorem Linear.sequence_le {s : Store} (h : s.Linear) {r : Revision} (hr : r ∈ s.log) : r.sequence ≤ s.last := by
  obtain ⟨row, hget, -⟩ := h.get?_sequence hr
  rw [Table.get?_eq_some_iff] at hget
  exact ((h.places _).1 (List.mem_map_of_mem hget)).2

theorem Linear.getLast?_chain {s : Store} (h : s.Linear) {document : String} {r : Revision}
    (hr : s.current document = .ok r) : (s.chain document).getLast? = some r := by
  unfold current at hr
  rw [h.documents] at hr
  cases hlast : (s.chain document).getLast? with
  | none => simp [hlast] at hr
  | some last =>
    have hmem : last ∈ s.log := (mem_chain.1 (List.mem_of_getLast? hlast)).1
    rw [hlast] at hr
    simp only [Option.map_some, h.revision_eq hmem, Except.ok.injEq] at hr
    rw [hr]

/-- No counter of generations is ahead of the counter of places. -/
theorem Linear.generationOf_tip_le {s : Store} (h : s.Linear) (document : String) :
    Revision.generationOf (Revision.tip none (s.chain document)) ≤ s.last.toNat := by
  rw [Revision.tip]
  cases hlast : (s.chain document).getLast? with
  | none => exact Nat.zero_le _
  | some r =>
    have hmem : r ∈ s.log := (mem_chain.1 (List.mem_of_getLast? hlast)).1
    exact Nat.le_trans (UInt64.le_iff_toNat_le.1 (h.generations r hmem))
      (UInt64.le_iff_toNat_le.1 (h.sequence_le hmem))

theorem Linear.pairwise_ne {s : Store} (h : s.Linear) :
    s.log.Pairwise fun r t => r.document = t.document → r.parent ≠ t.parent ∧ r.id ≠ t.id := by
  refine List.pairwise_iff_forall_sublist.2 fun {r t} hsub hdocument => ?_
  have hchain : [r, t].Sublist (s.chain r.document) := by
    have hfilter := hsub.filter fun x => decide (x.document = r.document)
    rw [List.filter_cons_of_pos (by simp), List.filter_cons_of_pos (by simp [hdocument])] at hfilter
    exact hfilter
  exact List.pairwise_iff_forall_sublist.1 (h.chains _).pairwise_ne hchain

/-! ## Appending a revision -/

/-- A revision may come next: its place is the next one, its identifier is the derived one, and it is the first
of its document or follows the current one. -/
structure Fits (s : Store) (r : Revision) : Prop where
  sequence_eq : r.sequence = s.last + 1
  id_eq : r.id = .derive r.parent r.body
  parent_eq : (r.parent = none ∧ s.documents.get? r.document = none) ∨
    ∃ c, s.current r.document = .ok c ∧ r.parent = some c.id

theorem create_eq_ok {s t : Store} {document : String} {body : Json} {r : Revision}
    (h : s.create document body = .ok (r, t)) : s.Fits r ∧ t = s.append r := by
  unfold create at h
  split at h
  · cases h
  · next hnew =>
    cases h
    exact ⟨⟨rfl, rfl, .inl ⟨rfl, hnew⟩⟩, rfl⟩

theorem advance_eq_ok {s t : Store} {document : String} {parent : RevisionId} {body : Json} {r : Revision}
    (h : s.advance document parent body = .ok (r, t)) : s.Fits r ∧ t = s.append r := by
  unfold advance at h
  split at h
  · cases h
  · next c hc =>
    split at h
    · next hid =>
      cases h
      exact ⟨⟨rfl, rfl, .inr ⟨c, hc, by rw [hid]; rfl⟩⟩, rfl⟩
    · cases h

theorem last_append (s : Store) (r : Revision) : (s.append r).last = r.sequence := by
  unfold last append
  simp only [Table.get?_insert_self, Option.getD_some]

section Append

variable {s : Store} {r : Revision} (h : s.Linear) (hfits : s.Fits r) (hroom : s.last.toNat + 1 < UInt64.size)
  (hdecode : Revision.ofText? r.text = some r)

include hfits hroom

theorem Fits.toNat_sequence : r.sequence.toNat = s.last.toNat + 1 := by
  rw [hfits.sequence_eq, UInt64.toNat_add, UInt64.toNat_one, Nat.mod_eq_of_lt hroom]

theorem Fits.last_lt : s.last < r.sequence := by
  rw [UInt64.lt_iff_toNat_lt, hfits.toNat_sequence hroom]
  exact Nat.lt_succ_self _

include h

theorem entries_append : (s.append r).revisions.entries = s.revisions.entries ++ [(r.sequence, r.text)] := by
  refine Table.entries_insert_of_forall_lt _ _ fun e he => ?_
  have hle : e.1 ≤ s.last := ((h.places e.1).1 (List.mem_map_of_mem he)).2
  exact Std.compare_eq_lt.2 (UInt64.lt_of_le_of_lt hle (hfits.last_lt hroom))

/-- An appended revision has a place of its own, so every other row stays. -/
theorem get?_append {sequence : UInt64} {row : String} (hrow : s.revisions.get? sequence = some row) :
    (s.append r).revisions.get? sequence = some row := by
  rw [Table.get?_eq_some_iff] at hrow ⊢
  rw [entries_append h hfits hroom]
  exact List.mem_append_left _ hrow

include hdecode

theorem log_append : (s.append r).log = s.log ++ [r] := by
  rw [log, entries_append h hfits hroom, List.filterMap_append, ← log]
  simp only [List.filterMap_cons, hdecode, List.filterMap_nil]

theorem chain_append_self : (s.append r).chain r.document = s.chain r.document ++ [r] := by
  rw [chain, log_append h hfits hroom hdecode, List.filter_append, ← chain]
  simp

theorem chain_append_of_ne {document : String} (hd : document ≠ r.document) :
    (s.append r).chain document = s.chain document := by
  rw [chain, log_append h hfits hroom hdecode, List.filter_append, ← chain,
    List.filter_cons_of_neg (by simpa using hd.symm), List.filter_nil, List.append_nil]

omit hroom hdecode in
theorem Fits.parent_eq_tip : r.parent = Revision.tip none (s.chain r.document) := by
  rw [Revision.tip]
  rcases hfits.parent_eq with ⟨hparent, hnew⟩ | ⟨c, hc, hparent⟩
  · rw [h.documents, Option.map_eq_none_iff] at hnew
    rw [hnew, hparent]
    rfl
  · rw [h.getLast?_chain hc, hparent]
    rfl

omit hdecode in
/-- A revision that fits follows the end of the chain of its document. -/
theorem Fits.follows : r.Follows (Revision.tip none (s.chain r.document)) := by
  have hparent := hfits.parent_eq_tip h
  have hid := hfits.id_eq
  refine ⟨hparent, by rw [hid, hparent], ?_⟩
  have hle := h.generationOf_tip_le r.document
  rw [hid, hparent]
  exact Revision.toNat_nextGeneration (by omega)

/-- **A linear store stays linear when a revision that fits is appended.** -/
theorem Linear.append : (s.append r).Linear where
  places sequence := by
    have hkeys : (s.append r).revisions.keys = s.revisions.keys ++ [r.sequence] := by
      rw [Table.keys, entries_append h hfits hroom, List.map_append]
      rfl
    have hseq := hfits.toNat_sequence hroom
    rw [hkeys, List.mem_append, List.mem_singleton, h.places, last_append, UInt64.le_iff_toNat_le,
      UInt64.le_iff_toNat_le, UInt64.le_iff_toNat_le, ← UInt64.toNat_inj, UInt64.toNat_one]
    omega
  rows e he := by
    rw [entries_append h hfits hroom, List.mem_append, List.mem_singleton] at he
    rcases he with he | rfl
    · exact h.rows e he
    · exact ⟨r, hdecode, rfl⟩
  chains document := by
    by_cases hd : document = r.document
    · subst hd
      rw [chain_append_self h hfits hroom hdecode, Revision.isChain_append_singleton]
      exact ⟨h.chains _, hfits.follows h hroom⟩
    · rw [chain_append_of_ne h hfits hroom hdecode hd]
      exact h.chains document
  generations x hx := by
    rw [log_append h hfits hroom hdecode, List.mem_append, List.mem_singleton] at hx
    rcases hx with hx | rfl
    · exact h.generations x hx
    · have hgen := (hfits.follows h hroom).generation_eq
      have hseq := hfits.toNat_sequence hroom
      have hle := h.generationOf_tip_le x.document
      rw [UInt64.le_iff_toNat_le]
      omega
  documents document := by
    by_cases hd : document = r.document
    · subst hd
      rw [chain_append_self h hfits hroom hdecode, List.getLast?_concat]
      exact Table.get?_insert_self _ _ _
    · rw [chain_append_of_ne h hfits hroom hdecode hd, ← h.documents]
      exact Table.get?_insert_of_ne _ _ hd

theorem Linear.current_append : (s.append r).current r.document = .ok r := by
  have hget : (s.append r).documents.get? r.document = some r.sequence := Table.get?_insert_self _ _ _
  have hmem : r ∈ (s.append r).log := by
    rw [log_append h hfits hroom hdecode]
    exact List.mem_append_right _ (List.mem_singleton_self r)
  rw [current, hget]
  simp only [(h.append hfits hroom hdecode).revision_eq hmem]

end Append

end Store

end Docket
