import Docket.Proofs.Vault.Collection
import Docket.Proofs.Vault.Failure
import Mathlib.Data.List.Induction
import Mathlib.Data.List.Nodup

/-!
# What stands in the blob directory

Several staged files may be held at once, with the same content or with different ones, and each of them is placed or
discarded at any time, before or after a collection that swept it. A directory that was empty at first never holds
anything but files that are named by the key of their content, one for each key, and the staged files that are held
and were not swept.

* `Blobs.Addressed`: all entries are files that are named by the key of their content.
* `Desk.Swept`: a collection has taken away a staged file that was held.
* `Desk.Tidy`: the staged files are those that are held and not swept.
* `Desk.Tidy.perform`: a call keeps a desk tidy.
* `Desk.settle`: held files that are placed or discarded one after the other.
* **`Desk.directory_run`**: over any run from an empty directory.
-/

namespace Docket

theorem Table.mem_keys_insert {κ α : Type} [Ord κ] [Std.TransOrd κ] [Std.LawfulEqOrd κ] {t : Table κ α} {key : κ}
    {value : α} {other : κ} : other ∈ (t.insert key value).keys ↔ other ∈ t.keys ∨ other = key := by
  rw [mem_keys, mem_keys]
  by_cases hother : other = key
  · subst hother
    rw [get?_insert_self]
    exact iff_of_true rfl (.inr rfl)
  · rw [get?_insert_of_ne _ _ hother]
    exact (or_iff_left hother).symm

/-! ## Files named by their keys -/

namespace Blobs

/-- All entries are files that are named by the key of their content. -/
def Addressed (b : Blobs) : Prop :=
  ∀ name node, b.entries.get? name = some node →
    ∃ content, node = .file content ∧ name = (ContentKey.digest content).hex

variable {b after : Blobs}

theorem addressed_of_empty (h : b.entries = ∅) : b.Addressed := fun name node hnode => by
  rw [h] at hnode
  cases hnode

theorem Addressed.adds (h : b.Addressed) {contents : List Bytes} (hadds : b.Adds after contents) :
    after.Addressed := fun name node hnode => by
  rcases hadds.new name node hnode with hold | ⟨content, -, hname, hfile⟩
  · exact h name node hold
  · exact ⟨content, hfile, hname⟩

theorem Addressed.sweep (h : b.Addressed) (retained : ContentKey → Bool) : (b.sweep retained).Addressed :=
  fun name node hnode => h name node (get?_sweep.1 hnode).1

theorem Addressed.unique (h : b.Addressed) {name other : String} {content more : Bytes}
    (hname : b.entries.get? name = some (.file content)) (hother : b.entries.get? other = some (.file more))
    (hdigest : ContentKey.digest content = .digest more) : name = other ∧ content = more := by
  obtain ⟨_, hfile, hhex⟩ := h name _ hname
  obtain ⟨_, hfile', hhex'⟩ := h other _ hother
  cases hfile
  cases hfile'
  have hsame : name = other := by rw [hhex, hhex', hdigest]
  subst hsame
  rw [hname, Option.some.injEq, Node.file.injEq] at hother
  exact ⟨rfl, hother⟩

theorem Addressed.digest_eq (h : b.Addressed) {key : ContentKey} {node : Node}
    (hnode : b.entries.get? key.hex = some node) : ∃ content, node = .file content ∧ ContentKey.digest content = key := by
  obtain ⟨content, hfile, hname⟩ := h _ node hnode
  exact ⟨content, hfile, (ContentKey.hex_injective hname).symm⟩

theorem commit_of_not_holds {s : Staged} (h : ¬ b.Holds s) : b.commit s = (.error .notFound, b.discard s) := by
  have hnone : b.staging.get? s.ticket = none := by simpa [Holds] using h
  rw [commit, hnone]

/-- Placing a staged file among addressed ones gives its key a file, if it has none yet. -/
theorem Addressed.commit_of_holds (h : b.Addressed) {s : Staged} {content : Bytes}
    (hcontent : b.staging.get? s.ticket = some content) (hkey : s.key = .digest content) :
    ∃ after, b.commit s = (.ok (b.pathOf s.key), after) ∧ after.Addressed ∧
      (∃ placed, after.HasFile s.key placed ∧ ContentKey.digest placed = s.key) ∧
      ∀ name, name ∈ after.entries.keys ↔ name ∈ b.entries.keys ∨ name = s.key.hex := by
  unfold commit
  simp only [hcontent]
  cases hnode : b.entries.get? s.key.hex with
  | none =>
    refine ⟨_, rfl, fun name node hget => ?_, ⟨content, Table.get?_insert_self _ _ _, hkey.symm⟩, fun name => ?_⟩
    · by_cases hname : name = s.key.hex
      · subst hname
        rw [Table.get?_insert_self, Option.some.injEq] at hget
        exact ⟨content, hget.symm, by rw [hkey]⟩
      · exact h name node ((Table.get?_insert_of_ne _ _ hname).symm.trans hget)
    · exact Table.mem_keys_insert
  | some node =>
    obtain ⟨placed, rfl, hdigest⟩ := h.digest_eq hnode
    refine ⟨_, rfl, h, ⟨placed, hnode, hdigest⟩, fun name => ?_⟩
    refine (or_iff_left_of_imp fun hname => ?_).symm
    rw [hname, Table.mem_keys]
    exact Option.isSome_of_eq_some hnode

end Blobs

/-! ## What calls add to the directory -/

namespace Vault

variable (opener : FileOpener) (v : Vault) (r : Revision)

theorem exists_adds_add (a : Attachment) : ∃ contents, v.blobs.Adds (v.add opener r a).2.blobs contents := by
  rcases v.add_cases opener r a with ⟨e, after, hadds, hadd⟩ | ⟨content, after, -, hadds, hadd⟩
  · rw [hadd]
    exact ⟨[], hadds⟩
  · rw [hadd]
    exact ⟨[content], hadds⟩

theorem exists_adds_addAll (attachments : List Attachment) :
    ∃ contents, v.blobs.Adds (v.addAll opener r attachments).2.blobs contents := by
  rcases v.addAll_cases opener r attachments with
    ⟨e, after, contents, hadds, hadd⟩ | ⟨next, s, contents, table, after, -, hlinked, hadd⟩
  · rw [hadd]
    exact ⟨contents, hadds⟩
  · rw [hadd]
    exact ⟨contents, hlinked.adds⟩

theorem blobs_remove (names : List String) : (v.remove r names).2.blobs = v.blobs := by
  rw [remove_eq_drop]
  split
  · rfl
  · split
    · rfl
    · split <;> rfl

end Vault

/-! ## Staged files that are held -/

/-- A collection that succeeds sweeps the staged files that are held. -/
def Operation.Sweeps (d : Desk) (s : Staged) : Operation → Prop
  | .collect => s ∈ d.held ∧ ∃ report, d.vault.collect.1 = .ok report
  | _ => False

namespace Desk

/-- A collection of a run has swept a staged file. -/
def Swept (d : Desk) (calls : List (FileOpener × Operation)) (s : Staged) : Prop :=
  ∃ earlier opener op later, calls = earlier ++ (opener, op) :: later ∧ Operation.Sweeps (d.run earlier) s op

/-- All entries are addressed, and the staged files are those that are held and not swept. -/
structure Tidy (swept : Staged → Prop) (d : Desk) : Prop where
  addressed : d.vault.blobs.Addressed
  distinct : (d.held.map (·.ticket)).Nodup
  /-- A ticket is handed out once. -/
  handed : ∀ s, s ∈ d.held ∨ swept s → s.ticket < d.vault.blobs.next
  staged : ∀ ticket content, d.vault.blobs.staging.get? ticket = some content →
    ∃ s ∈ d.held, s.ticket = ticket ∧ s.key = .digest content
  holds_iff : ∀ s ∈ d.held, d.vault.blobs.Holds s ↔ ¬ swept s

namespace Tidy

variable {d : Desk} {swept : Staged → Prop} (h : d.Tidy swept)

include h

theorem eq_of_ticket {s t : Staged} (hs : s ∈ d.held) (ht : t ∈ d.held) (hticket : s.ticket = t.ticket) : s = t :=
  List.inj_on_of_nodup_map h.distinct hs ht hticket

theorem find?_eq {s : Staged} (hs : s ∈ d.held) : d.find? s.ticket = some s := by
  cases hfind : d.find? s.ticket with
  | none => exact absurd (List.find?_eq_none.1 hfind s hs) (by simp)
  | some t =>
    have hticket : t.ticket = s.ticket := by simpa using List.find?_some hfind
    rw [h.eq_of_ticket (List.mem_of_find?_eq_some hfind) hs hticket]

theorem fresh : d.vault.blobs.Fresh := fun ticket hticket => by
  cases hget : d.vault.blobs.staging.get? ticket with
  | none => rfl
  | some content =>
    obtain ⟨s, hs, rfl, -⟩ := h.staged ticket content hget
    exact absurd (h.handed s (.inl hs)) (Nat.not_lt.2 hticket)

theorem key_eq {s : Staged} (hs : s ∈ d.held) {content : Bytes}
    (hcontent : d.vault.blobs.staging.get? s.ticket = some content) : s.key = .digest content := by
  obtain ⟨t, ht, hticket, hkey⟩ := h.staged _ content hcontent
  rwa [h.eq_of_ticket ht hs hticket] at hkey

theorem withStore (store : Store) : (d.withStore store).Tidy swept :=
  ⟨h.addressed, h.distinct, h.handed, h.staged, h.holds_iff⟩

theorem adds {v : Vault} {contents : List Bytes} (hadds : d.vault.blobs.Adds v.blobs contents) :
    Tidy swept { d with vault := v } := by
  obtain ⟨hstaging, hnext⟩ := hadds.staging h.fresh
  refine ⟨h.addressed.adds hadds, h.distinct, fun s hs => Nat.lt_of_lt_of_le (h.handed s hs) hnext, ?_, ?_⟩
  · intro ticket content hget
    exact h.staged ticket content (hstaging ▸ hget)
  · intro s hs
    show (v.blobs.staging.get? s.ticket).isSome ↔ _
    rw [hstaging]
    exact h.holds_iff s hs

theorem followed {result : Except AttachmentError Revision × Vault} {contents : List Bytes}
    (hadds : d.vault.blobs.Adds result.2.blobs contents) : (d.followed result).2.Tidy swept := by
  obtain ⟨answer, v⟩ := result
  cases answer with
  | error e => exact h.adds hadds
  | ok r => exact h.adds hadds

/-- A held file leaves a desk tidy when it is gone from the directory. -/
theorem release {s : Staged} (hs : s ∈ d.held) {b : Blobs} (haddressed : b.Addressed)
    (hstaging : b.staging = (d.vault.blobs.discard s).staging) (hnext : b.next = d.vault.blobs.next) :
    ((d.release s).withBlobs b).Tidy swept := by
  have hsub : ((d.release s).held).Sublist d.held := List.filter_sublist
  have hmem : ∀ t, t ∈ (d.release s).held ↔ t ∈ d.held ∧ t ≠ s := fun t => by simp [Desk.release]
  have hother : ∀ t ∈ d.held, t ≠ s → b.staging.get? t.ticket = d.vault.blobs.staging.get? t.ticket :=
    fun t ht hne => by
      rw [hstaging]
      exact Table.get?_erase_of_ne _ fun hticket => hne (h.eq_of_ticket ht hs hticket)
  -- no other held file has the ticket that is let go
  refine ⟨haddressed, (hsub.map _).nodup h.distinct, fun t ht => ?_, fun ticket content hget => ?_, fun t ht => ?_⟩
  · show t.ticket < b.next
    rw [hnext]
    exact h.handed t (ht.imp_left fun ht => ((hmem t).1 ht).1)
  · have hget : b.staging.get? ticket = some content := hget
    have hne : ticket ≠ s.ticket := fun hticket => by
      have hgone : (d.vault.blobs.discard s).staging.get? s.ticket = none := Table.get?_erase_self _ _
      rw [hstaging, hticket, hgone] at hget
      cases hget
    have hbefore : d.vault.blobs.staging.get? ticket = some content := by
      rw [hstaging] at hget
      exact (Table.get?_erase_of_ne _ hne).symm.trans hget
    obtain ⟨t, ht, rfl, hkey⟩ := h.staged ticket content hbefore
    exact ⟨t, (hmem t).2 ⟨ht, fun he => hne (congrArg _ he)⟩, rfl, hkey⟩
  · obtain ⟨ht, hne⟩ := (hmem t).1 ht
    show (b.staging.get? t.ticket).isSome ↔ _
    rw [hother t ht hne]
    exact h.holds_iff t ht

/-- **A staged file that is still there can be placed**, and then its key has a file with that digest. -/
theorem commit {s : Staged} (hs : s ∈ d.held) (hholds : d.vault.blobs.Holds s) :
    ∃ after, d.vault.blobs.commit s = (.ok (d.vault.blobs.pathOf s.key), after) ∧ after.Addressed ∧
      (∃ placed, after.HasFile s.key placed ∧ ContentKey.digest placed = s.key) ∧
      ∀ name, name ∈ after.entries.keys ↔ name ∈ d.vault.blobs.entries.keys ∨ name = s.key.hex := by
  obtain ⟨content, hcontent⟩ := Option.isSome_iff_exists.1 hholds
  exact h.addressed.commit_of_holds hcontent (h.key_eq hs hcontent)

/-- What placing a held file does to the names. -/
theorem commit_cases {s : Staged} (hs : s ∈ d.held) : (d.vault.blobs.commit s).2.Addressed ∧
    ∀ name, name ∈ (d.vault.blobs.commit s).2.entries.keys ↔
      name ∈ d.vault.blobs.entries.keys ∨ (¬ swept s ∧ name = s.key.hex) := by
  by_cases hholds : d.vault.blobs.Holds s
  · obtain ⟨after, hcommit, haddressed, -, hnames⟩ := h.commit hs hholds
    have hkept : ¬ swept s := (h.holds_iff s hs).1 hholds
    rw [hcommit]
    simpa [hkept] using And.intro haddressed hnames
  · have hswept : swept s := not_not.1 fun hkept => hholds ((h.holds_iff s hs).2 hkept)
    rw [Blobs.commit_of_not_holds hholds]
    exact ⟨h.addressed, fun name => (or_iff_left fun hname => hname.1 hswept).symm⟩

theorem place {s : Staged} (hs : s ∈ d.held) :
    ((d.release s).withBlobs (d.vault.blobs.commit s).2).Tidy swept := by
  obtain ⟨hstaging, hnext⟩ := d.vault.blobs.staging_commit s
  exact h.release hs (h.commit_cases hs).1 hstaging hnext

theorem discard {s : Staged} (hs : s ∈ d.held) :
    ((d.release s).withBlobs (d.vault.blobs.discard s)).Tidy swept := h.release hs h.addressed rfl rfl

/-- A new staged file has a ticket that was not handed out before, so that no collection has swept it. -/
theorem withStaged (content : Bytes) : Tidy swept
    { d.withBlobs (d.vault.blobs.withStaged content) with held := d.vault.blobs.staged content :: d.held } := by
  have hbelow : ∀ s, s ∈ d.held ∨ swept s → s.ticket ≠ d.vault.blobs.next := fun s hs => Nat.ne_of_lt (h.handed s hs)
  have hself : (d.vault.blobs.withStaged content).staging.get? d.vault.blobs.next = some content :=
    Table.get?_insert_self _ _ _
  have hother : ∀ {ticket}, ticket ≠ d.vault.blobs.next →
      (d.vault.blobs.withStaged content).staging.get? ticket = d.vault.blobs.staging.get? ticket :=
    fun hne => Table.get?_insert_of_ne _ _ hne
  refine ⟨h.addressed, ?_, fun s hs => ?_, fun ticket more hget => ?_, List.forall_mem_cons.2 ⟨?_, fun s hs => ?_⟩⟩
  · refine List.nodup_cons.2 ⟨fun hmem => ?_, h.distinct⟩
    obtain ⟨s, hs, hticket⟩ := List.mem_map.1 hmem
    exact hbelow s (.inl hs) hticket
  · rcases hs with hs | hs
    · rcases List.mem_cons.1 hs with rfl | hs
      · exact Nat.lt_succ_self _
      · exact Nat.lt_succ_of_lt (h.handed s (.inl hs))
    · exact Nat.lt_succ_of_lt (h.handed s (.inr hs))
  · by_cases hticket : ticket = d.vault.blobs.next
    · subst hticket
      cases hself.symm.trans hget
      exact ⟨_, List.mem_cons_self, rfl, rfl⟩
    · obtain ⟨s, hs, hrest⟩ := h.staged ticket more ((hother hticket).symm.trans hget)
      exact ⟨s, List.mem_cons_of_mem _ hs, hrest⟩
  · exact iff_of_true (Option.isSome_of_eq_some hself) fun hswept => hbelow _ (.inr hswept) rfl
  · show ((d.vault.blobs.withStaged content).staging.get? s.ticket).isSome ↔ _
    rw [hother (hbelow s (.inl hs))]
    exact h.holds_iff s hs

theorem collect : Tidy (fun s => swept s ∨ Operation.Sweeps d s .collect) { d with vault := d.vault.collect.2 } := by
  rcases d.vault.collect_cases with ⟨e, hcollect⟩ | ⟨keys, -, hcollect⟩
  · have hnone : ∀ s, ¬ Operation.Sweeps d s .collect := fun s hs => by
      obtain ⟨-, report, hreport⟩ := hs
      rw [hcollect] at hreport
      cases hreport
    simp only [hnone, or_false, hcollect]
    exact h
  · have hall : ∀ s ∈ d.held, Operation.Sweeps d s .collect := fun s hs => ⟨hs, _, by rw [hcollect]⟩
    rw [hcollect]
    refine ⟨h.addressed.sweep _, h.distinct, fun s hs => ?_, fun ticket content hget => ?_, fun s hs => ?_⟩
    · rcases hs with hs | hs | hs
      · exact h.handed s (.inl hs)
      · exact h.handed s (.inr hs)
      · exact h.handed s (.inl hs.1)
    · cases hget
    · exact iff_of_false (fun hholds => by cases hholds) (not_not_intro (.inr (hall s hs)))

/-- **A call keeps a desk tidy**, whatever it answers. -/
theorem perform (opener : FileOpener) (op : Operation) :
    (op.perform opener d).2.Tidy fun s => swept s ∨ op.Sweeps d s := by
  cases op with
  | collect => exact h.collect
  | create document body =>
    simp only [Operation.Sweeps, or_false, Operation.perform]
    cases d.vault.store.create document body with
    | error e => exact h
    | ok result => exact h.withStore result.2
  | update document parent body =>
    simp only [Operation.Sweeps, or_false, Operation.perform]
    cases d.vault.store.advance document parent body with
    | error e => exact h
    | ok result => exact h.withStore result.2
  | transact requests ending =>
    simp only [Operation.Sweeps, or_false, Operation.perform]
    cases ending <;> exact h.withStore _
  | add r a =>
    simp only [Operation.Sweeps, or_false]
    obtain ⟨contents, hadds⟩ := d.vault.exists_adds_add opener r a
    exact h.adds hadds
  | addAll r attachments =>
    simp only [Operation.Sweeps, or_false, Operation.perform]
    obtain ⟨contents, hadds⟩ := d.vault.exists_adds_addAll opener r attachments
    exact h.followed hadds
  | remove r names =>
    simp only [Operation.Sweeps, or_false, Operation.perform]
    split
    · exact h
    · have hadds : d.vault.blobs.Adds (d.vault.remove r names).2.blobs [] := by
        rw [Vault.blobs_remove]
        exact .refl _
      exact h.followed hadds
  | stage appetite arrivals =>
    simp only [Operation.Sweeps, or_false, Operation.perform]
    cases hcontent : Arrival.content? arrivals with
    | none =>
      obtain ⟨reason, hstage⟩ := d.vault.blobs.stage_of_failed appetite hcontent
      rw [hstage]
      exact h
    | some content =>
      rw [d.vault.blobs.stage_of_content appetite hcontent]
      exact h.withStaged content
  | place ticket =>
    simp only [Operation.Sweeps, or_false, Operation.perform]
    split
    · next s hfind => exact h.place (List.mem_of_find?_eq_some hfind)
    · exact h
  | discard ticket =>
    simp only [Operation.Sweeps, or_false, Operation.perform]
    split
    · next s hfind => exact h.discard (List.mem_of_find?_eq_some hfind)
    · exact h

end Tidy

/-! ## Runs -/

theorem swept_concat {d : Desk} {calls : List (FileOpener × Operation)} {opener : FileOpener} {op : Operation}
    {s : Staged} : d.Swept (calls ++ [(opener, op)]) s ↔ d.Swept calls s ∨ op.Sweeps (d.run calls) s := by
  constructor
  · rintro ⟨earlier, opener', op', later, hcalls, hsweeps⟩
    rcases later.eq_nil_or_concat with rfl | ⟨later, call, rfl⟩
    · obtain ⟨rfl, hlast⟩ := List.append_inj' hcalls rfl
      cases hlast
      exact .inr hsweeps
    · have hsplit : earlier ++ (opener', op') :: (later ++ [call]) = (earlier ++ (opener', op') :: later) ++ [call] := by
        simp
      rw [List.concat_eq_append, hsplit] at hcalls
      obtain ⟨rfl, -⟩ := List.append_inj' hcalls rfl
      exact .inl ⟨earlier, opener', op', later, rfl, hsweeps⟩
  · rintro (⟨earlier, opener', op', later, rfl, hsweeps⟩ | hsweeps)
    · exact ⟨earlier, opener', op', later ++ [(opener, op)], by simp, hsweeps⟩
    · exact ⟨calls, opener, op, [], rfl, hsweeps⟩

theorem not_swept {d : Desk} {calls : List (FileOpener × Operation)} (h : ∀ call ∈ calls, call.2 ≠ .collect)
    (s : Staged) : ¬ d.Swept calls s := by
  rintro ⟨earlier, opener, op, later, rfl, hsweeps⟩
  have hop : op ≠ .collect := h (opener, op) (by simp)
  cases op with
  | collect => exact hop rfl
  | _ => exact hsweeps

theorem tidy_run {d : Desk} (hentries : d.vault.blobs.entries = ∅) (hstaging : d.vault.blobs.staging = ∅)
    (hheld : d.held = []) (calls : List (FileOpener × Operation)) : (d.run calls).Tidy (d.Swept calls) := by
  -- from the last call: what was swept before it belongs to the invariant
  induction calls using List.reverseRecOn with
  | nil =>
    have hnone : ∀ s, ¬ d.Swept [] s := not_swept fun _ hcall => absurd hcall List.not_mem_nil
    show d.Tidy _
    refine ⟨Blobs.addressed_of_empty hentries, ?_, fun s hs => ?_, fun ticket content hget => ?_, fun s hs => ?_⟩
    · rw [hheld]
      exact List.nodup_nil
    · rw [hheld] at hs
      exact (hs.elim List.not_mem_nil (hnone s)).elim
    · rw [hstaging] at hget
      cases hget
    · rw [hheld] at hs
      exact absurd hs List.not_mem_nil
  | append_singleton calls call ih =>
    obtain ⟨opener, op⟩ := call
    have hswept : d.Swept (calls ++ [(opener, op)]) = fun s => d.Swept calls s ∨ op.Sweeps (d.run calls) s :=
      funext fun s => propext swept_concat
    rw [hswept, run_append]
    exact ih.perform opener op

/-! ## Settling -/

/-- The call that settles a held file: it is placed if it is to be kept, else it is discarded. -/
def settling (keep : Staged → Bool) (s : Staged) : Operation := if keep s then .place s.ticket else .discard s.ticket

/-- Held files that are settled one after the other. -/
def settle (d : Desk) (opener : FileOpener) (keep : Staged → Bool) (order : List Staged) : Desk :=
  d.run (order.map fun s => (opener, settling keep s))

namespace Tidy

variable {d : Desk} {swept : Staged → Prop} (h : d.Tidy swept) (opener : FileOpener) (keep : Staged → Bool)

include h

theorem settling {s : Staged} (hs : s ∈ d.held) :
    ((Desk.settling keep s).perform opener d).2.Tidy swept ∧
      ((Desk.settling keep s).perform opener d).2.held = d.held.filter (· ≠ s) ∧
      ∀ name, name ∈ ((Desk.settling keep s).perform opener d).2.vault.blobs.entries.keys ↔
        name ∈ d.vault.blobs.entries.keys ∨ (keep s = true ∧ ¬ swept s ∧ name = s.key.hex) := by
  have hfind := h.find?_eq hs
  cases hkeep : keep s with
  | true =>
    have hperform : ((Desk.settling keep s).perform opener d).2 = (d.release s).withBlobs (d.vault.blobs.commit s).2 := by
      simp [Desk.settling, hkeep, Operation.perform, hfind]
    rw [hperform]
    refine ⟨h.place hs, rfl, fun name => ((h.commit_cases hs).2 name).trans ?_⟩
    rw [eq_self, true_and]
  | false =>
    have hperform : ((Desk.settling keep s).perform opener d).2 = (d.release s).withBlobs (d.vault.blobs.discard s) := by
      simp [Desk.settling, hkeep, Operation.perform, hfind]
    rw [hperform]
    exact ⟨h.discard hs, rfl, fun name => (or_iff_left fun hname => Bool.false_ne_true hname.1).symm⟩

/-- **In whatever order held files are settled**, the names are those that there were and the keys of the placed
files that were not swept. -/
theorem settle {order : List Staged} (hnodup : order.Nodup) (horder : ∀ s ∈ order, s ∈ d.held) :
    (d.settle opener keep order).Tidy swept ∧
      (∀ s, s ∈ (d.settle opener keep order).held ↔ s ∈ d.held ∧ s ∉ order) ∧
      ∀ name, name ∈ (d.settle opener keep order).vault.blobs.entries.keys ↔
        name ∈ d.vault.blobs.entries.keys ∨ ∃ s ∈ order, keep s = true ∧ ¬ swept s ∧ name = s.key.hex := by
  induction order generalizing d with
  | nil => exact ⟨h, fun s => by simp [Desk.settle, run], fun name => by simp [Desk.settle, run]⟩
  | cons s rest ih =>
    rw [List.nodup_cons] at hnodup
    rw [List.forall_mem_cons] at horder
    obtain ⟨htidy, hheld, hnames⟩ := h.settling opener keep horder.1
    have hrest : ∀ t ∈ rest, t ∈ ((Desk.settling keep s).perform opener d).2.held := fun t ht => by
      rw [hheld]
      exact List.mem_filter.2 ⟨horder.2 t ht, decide_eq_true fun he => hnodup.1 (he ▸ ht)⟩
    obtain ⟨hsettled, hleft, hkeys⟩ := ih htidy hnodup.2 hrest
    refine ⟨hsettled, fun t => ?_, fun name => ?_⟩
    · refine (hleft t).trans ?_
      rw [hheld]
      simp [and_assoc]
    · refine (hkeys name).trans ?_
      rw [hnames]
      simp [or_assoc]

end Tidy

/-- **Over any run from an empty directory** the entries are files that are named by the key of their content, one for
each key, and the staged files are those that are held and were not swept. A staged file that is there can be placed.
When all held files are settled, in whatever order, what is listed are the names that there were and the keys of the
placed files that were not swept. -/
theorem directory_run (d : Desk) (hentries : d.vault.blobs.entries = ∅) (hstaging : d.vault.blobs.staging = ∅)
    (hheld : d.held = []) (calls : List (FileOpener × Operation)) :
    let reached := d.run calls
    let b := reached.vault.blobs
    (∀ name node, b.entries.get? name = some node →
      ∃ content, node = .file content ∧ name = (ContentKey.digest content).hex) ∧
    (∀ name other content more, b.entries.get? name = some (.file content) → b.entries.get? other = some (.file more) →
      ContentKey.digest content = .digest more → name = other ∧ content = more) ∧
    (∀ ticket, (b.staging.get? ticket).isSome ↔ ∃ s ∈ reached.held, s.ticket = ticket ∧ ¬ d.Swept calls s) ∧
    (∀ s ∈ reached.held, b.Holds s → ∃ after placed, b.commit s = (.ok (b.pathOf s.key), after) ∧
      after.HasFile s.key placed ∧ ContentKey.digest placed = s.key) ∧
    ∀ opener keep order, order.Perm reached.held → (reached.settle opener keep order).held = [] ∧
      ∀ x, x ∈ (reached.settle opener keep order).vault.blobs.listing ↔ ∃ name, x = .entry name ∧
        (.entry name ∈ b.listing ∨ ∃ s ∈ reached.held, keep s = true ∧ ¬ d.Swept calls s ∧ name = s.key.hex) := by
  intro reached b
  have htidy : reached.Tidy (d.Swept calls) := tidy_run hentries hstaging hheld calls
  refine ⟨htidy.addressed, fun _ _ _ _ => htidy.addressed.unique, fun ticket => ?_, fun s hs hholds => ?_,
    fun opener keep order horder => ?_⟩
  · constructor
    · intro hsome
      obtain ⟨content, hget⟩ := Option.isSome_iff_exists.1 hsome
      obtain ⟨s, hs, rfl, -⟩ := htidy.staged ticket content hget
      exact ⟨s, hs, rfl, (htidy.holds_iff s hs).1 hsome⟩
    · rintro ⟨s, hs, rfl, hkept⟩
      exact (htidy.holds_iff s hs).2 hkept
  · obtain ⟨after, hcommit, -, ⟨placed, hfile, hdigest⟩, -⟩ := htidy.commit hs hholds
    exact ⟨after, placed, hcommit, hfile, hdigest⟩
  · have hnodup : order.Nodup := horder.nodup_iff.2 (List.Nodup.of_map _ htidy.distinct)
    obtain ⟨hsettled, hleft, hnames⟩ := htidy.settle opener keep hnodup fun s hs => horder.mem_iff.1 hs
    have hnone : (reached.settle opener keep order).held = [] :=
      List.eq_nil_iff_forall_not_mem.2 fun s hs => by
        obtain ⟨hmem, hout⟩ := (hleft s).1 hs
        exact hout (horder.mem_iff.2 hmem)
    refine ⟨hnone, fun x => ?_⟩
    cases x with
    | entry name =>
      have hbefore : Blobs.Listed.entry name ∈ b.listing ↔ name ∈ b.entries.keys := by simp [Blobs.listing]
      have hafter : Blobs.Listed.entry name ∈ (reached.settle opener keep order).vault.blobs.listing ↔
          name ∈ (reached.settle opener keep order).vault.blobs.entries.keys := by simp [Blobs.listing]
      simp only [hafter, hnames, horder.mem_iff, hbefore, Blobs.Listed.entry.injEq, exists_eq_left']
      exact Iff.rfl
    | staged ticket =>
      constructor
      · intro hlisted
        obtain ⟨node, hnode⟩ := Option.isSome_iff_exists.1 (Blobs.mem_listing.1 hlisted)
        obtain ⟨content, hcontent, -⟩ := Option.map_eq_some_iff.1 hnode
        obtain ⟨s, hs, -⟩ := hsettled.staged ticket content hcontent
        rw [hnone] at hs
        exact absurd hs List.not_mem_nil
      · rintro ⟨name, hname, -⟩
        cases hname

/-! ## A file that is swept and two with one content -/

/-- A file that takes one byte at a time. -/
def nibbling : Intake.Appetite := fun _ _ => 1

/-- A file is staged and swept, then content arrives twice. -/
def sweeping : List (FileOpener × Operation) :=
  [(Vault.noFiles, .stage .full [.piece [1]]), (Vault.noFiles, .collect),
    (Vault.noFiles, .stage .full [.piece [2, 3]]), (Vault.noFiles, .stage nibbling [.piece [2], .interrupted, .piece [3]])]

/-- The file that is swept. -/
def lost : Staged := ⟨0, .digest [1], 1⟩

/-- The staged files of the content that arrives twice. -/
def twin (ticket : Nat) : Staged := ⟨ticket, .digest [2, 3], 2⟩

/-- The desk with both twins. -/
def twinned : Desk :=
  ⟨⟨.empty, ⟨"blobs", ∅, ((∅ : Table Nat Bytes).insert 1 [2, 3]).insert 2 [2, 3], 3⟩, false⟩, [twin 2, twin 1, lost]⟩

theorem perform_stage {d : Desk} {opener : FileOpener} (appetite : Intake.Appetite) {arrivals : List Arrival}
    (content : Bytes) (h : Arrival.content? arrivals = some content) :
    ((Operation.stage appetite arrivals).perform opener d).2 =
      { d.withBlobs (d.vault.blobs.withStaged content) with held := d.vault.blobs.staged content :: d.held } := by
  rw [Operation.perform, d.vault.blobs.stage_of_content appetite h]
  rfl

theorem run_sweeping : Desk.bare.run sweeping = twinned := by
  rw [sweeping, run, perform_stage _ [1] rfl, run, run, perform_stage _ [2, 3] rfl, run, perform_stage _ [2, 3] rfl, run]
  rfl

theorem directory_run_sweeping : Desk.bare.vault.blobs.entries = ∅ ∧ Desk.bare.vault.blobs.staging = ∅ ∧
    Desk.bare.held = [] ∧ [lost, twin 1, twin 2].Perm (Desk.bare.run sweeping).held ∧
    ∀ x, x ∈ ((Desk.bare.run sweeping).settle Vault.noFiles (fun _ => true) [lost, twin 1, twin 2]).vault.blobs.listing ↔
      x = .entry (ContentKey.digest [2, 3]).hex := by
  obtain ⟨-, -, hstaged, -, hsettle⟩ := directory_run Desk.bare rfl rfl rfl sweeping
  have horder : [lost, twin 1, twin 2].Perm (Desk.bare.run sweeping).held := by
    rw [run_sweeping]
    exact List.reverse_perm [twin 2, twin 1, lost]
  obtain ⟨-, hlisted⟩ := hsettle Vault.noFiles (fun _ => true) _ horder
  refine ⟨rfl, rfl, rfl, horder, fun x => (hlisted x).trans ?_⟩
  rw [run_sweeping] at hstaged ⊢
  have hheld : ∀ s, s ∈ twinned.held ↔ s = twin 2 ∨ s = twin 1 ∨ s = lost := by simp [twinned]
  have hlost : Desk.bare.Swept sweeping lost := by
    by_contra hkept
    exact absurd ((hstaged 0).2 ⟨lost, (hheld lost).2 (by simp), rfl, hkept⟩) (by decide)
  have htwin : ¬ Desk.bare.Swept sweeping (twin 1) := by
    obtain ⟨s, hs, hticket, hkept⟩ := (hstaged 1).1 (by decide)
    rcases (hheld s).1 hs with rfl | rfl | rfl
    · cases hticket
    · exact hkept
    · cases hticket
  have hempty : ∀ name, Blobs.Listed.entry name ∉ twinned.vault.blobs.listing := fun name hname => by
    cases Blobs.mem_listing.1 hname
  constructor
  · rintro ⟨name, rfl, hname | ⟨s, hs, -, hkept, rfl⟩⟩
    · exact absurd hname (hempty name)
    · rcases (hheld s).1 hs with rfl | rfl | rfl
      · rfl
      · rfl
      · exact absurd hlost hkept
  · rintro rfl
    exact ⟨_, rfl, .inr ⟨twin 1, (hheld _).2 (by simp), rfl, htwin, rfl⟩⟩

end Desk

end Docket
