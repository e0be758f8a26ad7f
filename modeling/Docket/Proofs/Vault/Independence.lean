import Docket.Proofs.Session.Run
import Docket.Proofs.Vault.Script

/-!
# Documents do not interfere

Documents share one counter of places, one table of attachments and one blob directory. Still a run that goes
over several documents and the same run without the calls on other documents than one lead to the same pages of
this document: calls on other documents leave them as they are, and a call on the document depends on them alone.

* `Script.Stage.run`, `Script.Stage.answers`: runs of scripts, and what they answer on one document.
* `Script.Agrees`: states that agree on a document up to places.
* `Script.Abreast`: a run beside the run without the calls on other documents, step by step.
* **`Script.independent`**: a run agrees with the run without the calls on other documents.
-/

namespace Docket

/-- Saved attachments in order: each row without its place, with the content that is read. -/
def Vault.readAll (v : Vault) : List SavedAttachment → Except AttachmentError (List (AttachmentRow × Bytes))
  | [] => .ok []
  | a :: rest =>
    match v.read a with
    | .error e => .error e
    | .ok content => (readAll v rest).map ((a.row.moved 0, content) :: ·)

/-- What a revision has in the order of names: each row without its place, with the content that is read. -/
def Vault.listing (v : Vault) (r : Revision) : Except AttachmentError (List (AttachmentRow × Bytes)) :=
  match v.attachments r with
  | .error e => .error e
  | .ok saved => v.readAll saved

namespace Script

open AttachmentRow (sheet)
open Revision (ofDocument placeless)
open World (Collisionless)

/-! ## Runs -/

/-- A step that is no call on another document. -/
def Step.Concerns (document : String) : Step → Prop
  | .on other _ => other = document
  | .collect => True

instance (document : String) : DecidablePred (Step.Concerns document)
  | .on other _ => inferInstanceAs (Decidable (other = document))
  | .collect => isTrue trivial

/-- A script without the calls on other documents. -/
def only (document : String) (steps : List Step) : List Step := steps.filter (Step.Concerns document ·)

/-- The contents that a script gives. -/
def contents (steps : List Step) : List Bytes := steps.flatMap Step.contents

namespace Stage

/-- The state after steps in order. -/
def run (opener : FileOpener) (s : Stage) : List Step → Stage
  | [] => s
  | step :: rest => (s.step opener step).run opener rest

/-- What the calls on a document answer, in order. -/
def answers (opener : FileOpener) (document : String) (s : Stage) : List Step → List Answer
  | [] => []
  | .on other call :: rest =>
    if other = document then
      s.answer opener document call :: (s.step opener (.on other call)).answers opener document rest
    else (s.step opener (.on other call)).answers opener document rest
  | .collect :: rest => (s.step opener .collect).answers opener document rest

end Stage

/-- Two states agree on a document up to the places of its revisions, which stand in the same order: it has the same
revisions, and each of them lists the same attachments, all of which can be read with the same content. -/
structure Agrees (document : String) (s t : Stage) : Prop where
  revisions : placeless document s.written = placeless document t.written
  order : ∀ {n m : Nat} {r₁ r₂ q₁ q₂ : Revision},
    (s.revisions document)[n]? = some r₁ → (t.revisions document)[n]? = some q₁ →
    (s.revisions document)[m]? = some r₂ → (t.revisions document)[m]? = some q₂ →
    (r₁.sequence < r₂.sequence ↔ q₁.sequence < q₂.sequence)
  listings : ∀ {n : Nat} {r q : Revision},
    (s.revisions document)[n]? = some r → (t.revisions document)[n]? = some q →
    ∃ listed, s.desk.vault.listing r = .ok listed ∧ t.desk.vault.listing q = .ok listed

/-! ## One step -/

/-- A state that is ready, on a desk that is safe. -/
structure Stage.Sound (S : Bytes → Prop) (s : Stage) : Prop extends s.Ready where
  safe : s.desk.Safe S

variable {S : Bytes → Prop} (opener : FileOpener) {s : Stage} {document : String}

theorem supplied_offers {b : Blobs} {table : AttachmentTable} {r : Revision} (offers : List Offer) :
    ∀ content ∈ Vault.supplied opener b table r (offers.map Offer.attachment),
      content ∈ offers.map (·.content) := by
  induction offers generalizing b table with
  | nil => exact fun content hcontent => absurd hcontent List.not_mem_nil
  | cons o rest ih =>
    intro content hcontent
    rw [List.map_cons, Vault.supplied, content?_offer, Option.toList_some, List.singleton_append] at hcontent
    rcases List.mem_cons.1 hcontent with rfl | hcontent
    · exact List.mem_cons_self
    · refine List.mem_cons_of_mem _ ?_
      split at hcontent
      · exact absurd hcontent List.not_mem_nil
      · exact ih content hcontent

theorem supplied_call {call : Call} {revisions : List Revision} {op : Operation} {d : Desk}
    (h : call.operation? document revisions = some op) :
    ∀ content ∈ op.supplied opener d, content ∈ call.contents := by
  intro content hcontent
  cases call with
  | create | update =>
    cases h
    exact absurd hcontent List.not_mem_nil
  | add n o =>
    obtain ⟨r, -, rfl⟩ := Option.map_eq_some_iff.1 h
    rw [Operation.supplied, content?_offer] at hcontent
    exact hcontent
  | addAll n offers =>
    obtain ⟨r, -, rfl⟩ := Option.map_eq_some_iff.1 h
    simp only [Operation.supplied] at hcontent
    split at hcontent
    · exact absurd hcontent List.not_mem_nil
    · exact supplied_offers opener offers content hcontent
  | remove n names =>
    obtain ⟨r, -, rfl⟩ := Option.map_eq_some_iff.1 h
    exact absurd hcontent List.not_mem_nil

theorem Stage.Sound.on (hs : s.Sound S) {call : Call} (hS : ∀ content ∈ call.contents, S content)
    (hroom : s.written.length + (call.act document (s.pages document)).added.toList.length < UInt64.size) :
    (s.step opener (.on document call)).Sound S := by
  have htakes := s.takes_on document opener hs.toReady call
  refine ⟨⟨(htakes.follows hroom).1, htakes.flat, htakes.isOpen⟩, ?_⟩
  rw [Stage.step]
  cases hop : call.operation? document (s.revisions document) with
  | none => exact hs.safe
  | some op => exact hs.safe.perform opener op fun content hcontent => hS content (supplied_call opener hop _ hcontent)

/-- A collection keeps the tables and what was written. -/
theorem Stage.Sound.collect (hs : s.Sound S) : (s.step opener .collect).Sound S ∧
    (s.step opener .collect).written = s.written ∧
    (s.step opener .collect).desk.vault.store = s.desk.vault.store := by
  have hwritten : (s.step opener .collect).written = s.written := List.append_nil _
  have hsafe := hs.safe.collect
  have hcollect : (s.desk.vault.collect).2 = s.desk.vault ∨
      ∃ retained, (s.desk.vault.collect).2 = { s.desk.vault with blobs := s.desk.vault.blobs.sweep retained } := by
    rcases s.desk.vault.collect_cases with ⟨e, hcollect⟩ | ⟨keys, -, hcollect⟩
    · exact .inl (by rw [hcollect])
    · exact .inr ⟨_, by rw [hcollect]⟩
  have hvault : (s.step opener .collect).desk.vault = s.desk.vault.collect.2 := rfl
  have hready : (s.step opener .collect).desk.vault.store = s.desk.vault.store ∧
      Flat (s.step opener .collect).desk.vault.blobs ∧ (s.step opener .collect).desk.vault.poisoned = false := by
    rw [hvault]
    rcases hcollect with h | ⟨retained, h⟩
    · rw [h]
      exact ⟨rfl, hs.flat, hs.isOpen⟩
    · rw [h]
      exact ⟨rfl, fun name es hnode => hs.flat name es (Blobs.get?_sweep.1 hnode).1, hs.isOpen⟩
  refine ⟨⟨⟨?_, hready.2.1, hready.2.2⟩, hsafe⟩, hwritten, hready.1⟩
  rw [hready.1, hwritten]
  exact hs.records

theorem Stage.pages_collect (hs : s.Sound S) : (s.step opener .collect).pages document = s.pages document := by
  obtain ⟨-, hwritten, hstore⟩ := hs.collect opener
  rw [Stage.pages, hwritten, hstore]
  rfl

/-! ## Runs that agree -/

theorem length_written_step (step : Step) : s.written.length ≤ (s.step opener step).written.length := by
  cases step with
  | collect => exact (List.sublist_append_left _ _).length_le
  | on other call =>
    rw [Stage.step]
    split
    · exact Nat.le_refl _
    · exact (List.sublist_append_left _ _).length_le

theorem length_written_run (s : Stage) (steps : List Step) :
    s.written.length ≤ (s.run opener steps).written.length := by
  induction steps generalizing s with
  | nil => exact Nat.le_refl _
  | cons step rest ih => exact Nat.le_trans (length_written_step opener step) (ih _)

/-- A step writes at most one revision. -/
theorem length_written_step_le (s : Stage) (step : Step) :
    (s.step opener step).written.length ≤ s.written.length + 1 := by
  have hperform : ∀ op : Operation, (op.perform opener s.desk).1.length ≤ 1 →
      (s.perform opener op).written.length ≤ s.written.length + 1 := fun op hop => by
    rw [Stage.perform, List.length_append]
    omega
  have hwritten : ∀ result, (s.desk.written result).1.length ≤ 1 := fun result => by
    cases result with
    | error e => exact Nat.zero_le 1
    | ok result => exact Nat.le_refl 1
  have hfollowed : ∀ result, (s.desk.followed result).1.length ≤ 1 := fun result => by
    obtain ⟨answer, v⟩ := result
    cases answer with
    | error e => exact Nat.zero_le 1
    | ok r => exact Nat.le_refl 1
  cases step with
  | collect => exact hperform .collect (Nat.zero_le 1)
  | on document call =>
    rw [Stage.step]
    cases hop : call.operation? document (s.revisions document) with
    | none => exact Nat.le_succ _
    | some op =>
      refine hperform op ?_
      cases call with
      | create | update =>
        cases hop
        exact hwritten _
      | add n o =>
        obtain ⟨r, -, rfl⟩ := Option.map_eq_some_iff.1 hop
        exact Nat.zero_le 1
      | addAll n offers =>
        obtain ⟨r, -, rfl⟩ := Option.map_eq_some_iff.1 hop
        exact hfollowed _
      | remove n names =>
        obtain ⟨r, -, rfl⟩ := Option.map_eq_some_iff.1 hop
        rw [Operation.perform]
        split
        · exact Nat.zero_le 1
        · exact hfollowed _

theorem length_written_run_le (s : Stage) (steps : List Step) :
    (s.run opener steps).written.length ≤ s.written.length + steps.length := by
  induction steps generalizing s with
  | nil => exact Nat.le_refl _
  | cons step rest ih =>
    have hstep := length_written_step_le opener s step
    have hrest := ih (s.step opener step)
    rw [List.length_cons, Stage.run]
    omega

theorem length_kept (document : String) (pages : List Page) (call : Call) :
    (call.act document pages).kept.length = pages.length := by
  cases call with
  | create | update =>
    rw [Call.act]
    unfold Act.write
    split <;> rfl
  | add n o =>
    rw [Call.act]
    split
    · rfl
    · simp only
      split <;> simp
  | addAll n offers =>
    rw [Call.act]
    split
    · rfl
    · split
      · rfl
      · split <;> rfl
  | remove n names =>
    rw [Call.act]
    split
    · rfl
    · split
      · rfl
      · unfold Act.write
        split <;> simp

theorem length_written_on (hs : s.Ready) (call : Call) : (s.step opener (.on document call)).written.length =
    s.written.length + (call.act document (s.pages document)).added.toList.length := by
  rw [(s.takes_on document opener hs call).written_eq, List.length_append]
  cases (call.act document (s.pages document)).added <;> rfl

theorem length_pages_le (s : Stage) (document : String) : (s.pages document).length ≤ s.written.length := by
  rw [Stage.pages, Store.pages, List.length_map]
  exact List.length_filter_le _ _

/-- A run stands where the run without the calls on other documents stands: the document has the same pages, and the
shortened run has written nothing else. -/
structure Abreast (S : Bytes → Prop) (document : String) (full short : Stage) : Prop where
  sound : full.Sound S
  sound_short : short.Sound S
  pages_eq : full.pages document = short.pages document
  /-- So the shortened run has written no more than the other one, and has room for what it writes. -/
  length_written : short.written.length = (short.pages document).length

namespace Abreast

variable {full short : Stage} {call : Call} (h : Abreast S document full short)

include h

theorem collect : Abreast S document (full.step opener .collect) (short.step opener .collect) := by
  obtain ⟨hfull, -, -⟩ := h.sound.collect opener
  obtain ⟨hshort, hwritten, -⟩ := h.sound_short.collect opener
  refine ⟨hfull, hshort, ?_, ?_⟩
  · rw [Stage.pages_collect opener h.sound, Stage.pages_collect opener h.sound_short, h.pages_eq]
  · rw [hwritten, Stage.pages_collect opener h.sound_short, h.length_written]

/-- A call on another document leaves the document as it is. -/
theorem on_other {other : String} (hother : other ≠ document) (hS : ∀ content ∈ call.contents, S content)
    (hroom : (full.step opener (.on other call)).written.length < UInt64.size) :
    Abreast S document (full.step opener (.on other call)) short := by
  rw [length_written_on opener h.sound.toReady] at hroom
  obtain ⟨-, -, hothers⟩ := (full.takes_on other opener h.sound.toReady call).follows hroom
  exact ⟨h.sound.on opener hS hroom, h.sound_short, (hothers document hother.symm).trans h.pages_eq, h.length_written⟩

/-- A call on the document does the same in both runs. -/
theorem on_same (hS : ∀ content ∈ call.contents, S content)
    (hroom : (full.step opener (.on document call)).written.length < UInt64.size) :
    Abreast S document (full.step opener (.on document call)) (short.step opener (.on document call)) := by
  rw [length_written_on opener h.sound.toReady] at hroom
  have hfull := h.sound.on opener hS hroom
  obtain ⟨-, hpages, -⟩ := (full.takes_on document opener h.sound.toReady call).follows hroom
  have hle := length_pages_le full document
  rw [h.pages_eq] at hle hroom hpages
  have honly := h.length_written
  have hshortroom : short.written.length + (call.act document (short.pages document)).added.toList.length <
      UInt64.size := by omega
  obtain ⟨-, hpages', -⟩ := (short.takes_on document opener h.sound_short.toReady call).follows hshortroom
  refine ⟨hfull, h.sound_short.on opener hS hshortroom, hpages.trans hpages'.symm, ?_⟩
  rw [length_written_on opener h.sound_short.toReady, hpages', Act.pages, List.length_append, length_kept, honly]

theorem answer_eq (call : Call) :
    placelessAnswer (full.answer opener document call) = placelessAnswer (short.answer opener document call) := by
  rw [(full.takes_on document opener h.sound.toReady call).answer_eq,
    (short.takes_on document opener h.sound_short.toReady call).answer_eq, h.pages_eq]

/-- A run answers on a document as the run without the calls on other documents, and they end abreast. -/
theorem run (steps : List Step) (hS : ∀ content ∈ contents steps, S content)
    (hroom : (full.run opener steps).written.length < UInt64.size) :
    (full.answers opener document steps).map placelessAnswer =
        (short.answers opener document (only document steps)).map placelessAnswer ∧
      Abreast S document (full.run opener steps) (short.run opener (only document steps)) := by
  induction steps generalizing full short with
  | nil => exact ⟨rfl, h⟩
  | cons step rest ih =>
    rw [contents, List.flatMap_cons, List.forall_mem_append] at hS
    obtain ⟨hstep, hrest⟩ := hS
    have hnow : (full.step opener step).written.length < UInt64.size :=
      Nat.lt_of_le_of_lt (length_written_run opener (full.step opener step) rest) hroom
    cases step with
    | collect => exact ih (h.collect opener) hrest hroom
    | on other call =>
      by_cases hother : other = document
      · subst hother
        have honly : only other (.on other call :: rest) = .on other call :: only other rest := by
          simp [only, Step.Concerns]
        obtain ⟨hanswers, hrun⟩ := ih (h.on_same opener hstep hnow) hrest hroom
        rw [honly]
        refine ⟨?_, hrun⟩
        rw [Stage.answers, Stage.answers, if_pos rfl, if_pos rfl, List.map_cons, List.map_cons, hanswers,
          h.answer_eq]
      · have honly : only document (.on other call :: rest) = only document rest := by
          simp [only, Step.Concerns, hother]
        rw [honly, Stage.answers, if_neg hother]
        exact ih (h.on_other opener hother hstep hnow) hrest hroom

end Abreast

/-! ## States that agree -/

/-- In two lists of revisions in the order of their places, the revisions with two numbers stand in the same
order. -/
theorem sequence_lt_iff {rs qs : List Revision} (hrs : rs.Pairwise fun r q => r.sequence < q.sequence)
    (hqs : qs.Pairwise fun r q => r.sequence < q.sequence) {n m : Nat} {r₁ r₂ q₁ q₂ : Revision}
    (hr₁ : rs[n]? = some r₁) (hq₁ : qs[n]? = some q₁) (hr₂ : rs[m]? = some r₂) (hq₂ : qs[m]? = some q₂) :
    r₁.sequence < r₂.sequence ↔ q₁.sequence < q₂.sequence := by
  have hlt : ∀ {xs : List Revision}, (xs.Pairwise fun r q => r.sequence < q.sequence) → ∀ {x y : Revision},
      xs[n]? = some x → xs[m]? = some y → (x.sequence < y.sequence ↔ n < m) := by
    intro xs hxs x y hx hy
    obtain ⟨hn, rfl⟩ := List.getElem?_eq_some_iff.1 hx
    obtain ⟨hm, rfl⟩ := List.getElem?_eq_some_iff.1 hy
    constructor
    · intro hlt
      by_contra hle
      rcases Nat.eq_or_lt_of_le (Nat.le_of_not_lt hle) with heq | hgt
      · subst heq
        exact UInt64.lt_irrefl _ hlt
      · exact UInt64.lt_asymm hlt (List.pairwise_iff_getElem.1 hxs m n hm hn hgt)
    · exact fun hnm => List.pairwise_iff_getElem.1 hxs n m hn hm hnm
  rw [hlt hrs hr₁ hr₂, hlt hqs hq₁ hq₂]

theorem exists_readAll {v w : Vault} {s t : UInt64} (rows : List AttachmentRow)
    (h : ∀ row ∈ rows, ∃ content, v.blobs.read row.content = .ok content ∧ w.blobs.read row.content = .ok content) :
    ∃ listed, v.readAll (rows.map fun row => v.resolve (row.moved s)) = .ok listed ∧
      w.readAll (rows.map fun row => w.resolve (row.moved t)) = .ok listed := by
  induction rows with
  | nil => exact ⟨[], rfl, rfl⟩
  | cons row rest ih =>
    rw [List.forall_mem_cons] at h
    obtain ⟨⟨content, hv, hw⟩, hrest⟩ := h
    obtain ⟨listed, hvs, hws⟩ := ih hrest
    have hv : v.read (v.resolve (row.moved s)) = .ok content := hv
    have hw : w.read (w.resolve (row.moved t)) = .ok content := hw
    refine ⟨(row.moved 0, content) :: listed, ?_, ?_⟩
    · rw [List.map_cons, Vault.readAll, hv, hvs]
      rfl
    · rw [List.map_cons, Vault.readAll, hw, hws]
      rfl

theorem Stage.Sound.exists_content (hs : s.Sound S) {sequence : UInt64} {row : AttachmentRow}
    (hrow : sheet s.desk.vault.store.attachments sequence row.filename = some row) :
    ∃ content, s.desk.vault.blobs.read row.content = .ok content ∧ S content ∧ .digest content = row.content := by
  obtain ⟨-, -, hget⟩ := hs.records.keyed.sheet_eq_some_iff.1 hrow
  obtain ⟨stored, htext, hbacked⟩ := hs.safe.rows _ (Table.get?_eq_some_iff.1 hget)
  have hstored : row.moved sequence = stored := AttachmentRow.text_injective htext
  subst hstored
  obtain ⟨content, hfile⟩ := hbacked.file
  have hfile : s.desk.vault.blobs.HasFile row.content content := hfile
  obtain ⟨hS, hdigest⟩ := hs.safe.sound.digest_eq hfile
  exact ⟨content, hfile.read_eq, hS, hdigest⟩

theorem agrees_of_pages {t : Stage} (hs : s.Sound S) (ht : t.Sound S)
    (hcollisionless : ∀ x y, S x → S y → ContentKey.digest x = ContentKey.digest y → x = y)
    (hpages : s.pages document = t.pages document) : Agrees document s t where
  revisions := by
    rw [← Store.map_revision_pages s.desk.vault.store, ← Store.map_revision_pages t.desk.vault.store]
    exact congrArg _ hpages
  order hr₁ hq₁ hr₂ hq₂ :=
    sequence_lt_iff (hs.records.ascending.filter _) (ht.records.ascending.filter _) hr₁ hq₁ hr₂ hq₂
  listings := by
    intro n r q hr hq
    have hsheet : sheet s.desk.vault.store.attachments r.sequence =
        sheet t.desk.vault.store.attachments q.sequence := by
      have hpage := getElem?_pages document s n
      rw [hpages, getElem?_pages document t n, hr, hq, Option.map_some, Option.map_some, Option.some.injEq] at hpage
      exact (congrArg Page.sheet hpage).symm
    obtain ⟨rows, hrows, hlists⟩ := AttachmentRow.rowsAt_spec hs.records.keyed r.sequence
    obtain ⟨others, hothers, hlists'⟩ := AttachmentRow.rowsAt_spec ht.records.keyed q.sequence
    rw [← hsheet] at hlists'
    have heq := hlists.unique hlists'
    subst heq
    have hread : ∀ row ∈ rows, ∃ content, s.desk.vault.blobs.read row.content = .ok content ∧
        t.desk.vault.blobs.read row.content = .ok content := by
      intro row hrow
      have hat := (hlists.mem_iff row).1 hrow
      obtain ⟨content, hcontent, hS, hdigest⟩ := hs.exists_content hat
      rw [hsheet] at hat
      obtain ⟨content', hcontent', hS', hdigest'⟩ := ht.exists_content hat
      rw [hcollisionless content content' hS hS' (hdigest.trans hdigest'.symm)] at hcontent
      exact ⟨content', hcontent, hcontent'⟩
    obtain ⟨listed, hs', ht'⟩ := exists_readAll (s := r.sequence) (t := q.sequence) rows hread
    refine ⟨listed, ?_, ?_⟩
    · rw [Vault.listing, Vault.attachments, hrows]
      simp only [Except.map, List.map_map]
      exact hs'
    · rw [Vault.listing, Vault.attachments, hothers]
      simp only [Except.map, List.map_map]
      exact ht'

theorem sound_start (S : Bytes → Prop) (directory : String) : (Stage.start directory).Sound S where
  records := Store.records_empty
  flat _ _ h := by cases h
  isOpen := rfl
  safe := ⟨fun _ _ h => (by cases h), fun _ h => absurd h List.not_mem_nil, fun _ h => absurd h List.not_mem_nil⟩

/-- **Documents do not interfere.** From an empty store, a script answers on a document as the script without the
calls on other documents, up to places, and the states that they lead to agree on the document; provided that no
two contents have the same digest, and that no more revisions are written than can be counted. -/
theorem independent (opener : FileOpener) (directory document : String) (steps : List Step)
    (hcollisionless : Collisionless (contents steps))
    (hroom : ((Stage.start directory).run opener steps).written.length < UInt64.size) :
    ((Stage.start directory).answers opener document steps).map placelessAnswer =
        ((Stage.start directory).answers opener document (only document steps)).map placelessAnswer ∧
      Agrees document ((Stage.start directory).run opener steps)
        ((Stage.start directory).run opener (only document steps)) := by
  have hstart := sound_start (· ∈ contents steps) directory
  have habreast : Abreast (· ∈ contents steps) document (.start directory) (.start directory) :=
    ⟨hstart, hstart, rfl, rfl⟩
  obtain ⟨hanswers, hrun⟩ := habreast.run opener steps (fun _ h => h) hroom
  refine ⟨hanswers, agrees_of_pages hrun.sound hrun.sound_short (fun x y hx hy hdigest => ?_) hrun.pages_eq⟩
  exact hcollisionless x hx y hy (congrArg ContentKey.bytes hdigest)

/-! ## Two documents with the same content -/

/-- No path leads to a file. -/
def nowhere : FileOpener := fun _ _ => .error .notFound

/-- An attachment of three bytes. -/
def note : Offer := ⟨"n", "text/plain", [1, 2, 3]⟩

/-- Two documents get the same content, and one of them drops it again. -/
def interleaved : List Step :=
  [.on "b" (.create .null), .on "a" (.create .null), .on "a" (.addAll 0 [note]), .on "b" (.addAll 0 [note]),
    .on "b" (.remove 1 ["n"]), .collect, .on "a" (.update ⟨1, "0"⟩ .null)]

theorem independent_interleaved : Collisionless (contents interleaved) ∧
    ((Stage.start "blobs").run nowhere interleaved).written.length < UInt64.size ∧
    Agrees "a" ((Stage.start "blobs").run nowhere interleaved)
      ((Stage.start "blobs").run nowhere (only "a" interleaved)) := by
  have hcollisionless : Collisionless (contents interleaved) := by
    simp [Collisionless, contents, interleaved, Step.contents, Call.contents, note]
  have hroom : ((Stage.start "blobs").run nowhere interleaved).written.length < UInt64.size :=
    Nat.lt_of_le_of_lt (length_written_run_le nowhere (Stage.start "blobs") interleaved) (by decide)
  exact ⟨hcollisionless, hroom, (independent nowhere "blobs" "a" interleaved hcollisionless hroom).2⟩

end Script

end Docket
