import Docket.Proofs.Table
import Docket.Attachment.Blobs

/-!
# Contents of the blob directory

What arrives is taken in whole and known by its digest, however the file takes it. A directory is sound if
every file with the name of a key holds supplied content with that digest; staging, placing, discarding and
sweeping keep it sound, and only a sweep takes a file away.

* `Arrival.content?`: the content that arrives.
* **`Blobs.stage_of_content`**: staging takes what arrives, with its digest and length.
* `Blobs.Sound`, `Blobs.Genuine`: the files of keys, and a staged file.
* `Blobs.Keeps`: files of keys stay as they are.
* `Blobs.mem_listing`, `Blobs.found?_without`: a listing, and what removing does to it.
* `Blobs.sweep`: the directory without what is not retained.
-/

namespace Docket

/-! ## Taking in -/

/-- The content that arrives, up to its end; none if a failure comes first. -/
def Arrival.content? : List Arrival → Option Bytes
  | [] => some []
  | .piece [] :: _ => some []
  | .piece bytes :: rest => (content? rest).map (bytes ++ ·)
  | .interrupted :: rest => content? rest
  | .failed _ :: _ => none

theorem Arrival.content?_whole (content : Bytes) : content? [.piece content] = some content := by
  cases content with
  | nil => rfl
  | cons b rest => simp [content?]

namespace Intake

theorem writeWithin_cons (appetite : Appetite) (fuel : Nat) (t : Intake) (b : UInt8) (rest : Bytes) :
    writeWithin appetite (fuel + 1) t (b :: rest) =
      writeWithin appetite fuel (t.take ((b :: rest).take (max 1 (appetite t.count (b :: rest).length))))
        ((b :: rest).drop (max 1 (appetite t.count (b :: rest).length))) := rfl

theorem receive_piece (appetite : Appetite) (t : Intake) {bytes : Bytes} (hne : bytes ≠ [])
    (rest : List Arrival) :
    t.receive appetite (.piece bytes :: rest) = (t.writeAll appetite bytes).receive appetite rest := by
  obtain ⟨b, more, rfl⟩ := List.exists_cons_of_ne_nil hne
  rfl

theorem writeWithin_spec (appetite : Appetite) {fuel : Nat} {t : Intake} {piece : Bytes}
    (hfuel : piece.length ≤ fuel) (ht : t.Hashed) :
    (writeWithin appetite fuel t piece).content = t.content ++ piece ∧ (writeWithin appetite fuel t piece).Hashed := by
  induction fuel generalizing t piece with
  | zero =>
    have hnil : piece = [] := List.length_eq_zero_iff.1 (Nat.le_zero.1 hfuel)
    subst hnil
    exact ⟨(List.append_nil _).symm, ht⟩
  | succ fuel ih =>
    cases piece with
    | nil => exact ⟨(List.append_nil _).symm, ht⟩
    | cons b rest =>
      rw [writeWithin_cons]
      -- the file takes at least one byte, so the fuel covers what is left
      have hleft : ((b :: rest).drop (max 1 (appetite t.count (b :: rest).length))).length ≤ fuel := by
        rw [List.length_drop]
        simp only [List.length_cons] at hfuel ⊢
        omega
      obtain ⟨hcontent, hhashed⟩ := ih hleft (ht.take _)
      refine ⟨?_, hhashed⟩
      rw [hcontent, content_take, List.append_assoc, List.take_append_drop]

theorem receive_of_content (appetite : Appetite) {arrivals : List Arrival} {content : Bytes}
    (h : Arrival.content? arrivals = some content) {t : Intake} (ht : t.Hashed) :
    ∃ u, t.receive appetite arrivals = .ok u ∧ u.content = t.content ++ content ∧ u.Hashed := by
  fun_induction Arrival.content? arrivals generalizing content t with
  | case1 =>
    cases h
    exact ⟨t, rfl, (List.append_nil _).symm, ht⟩
  | case2 rest =>
    cases h
    exact ⟨t, rfl, (List.append_nil _).symm, ht⟩
  | case3 bytes rest hne ih =>
    obtain ⟨more, hmore, rfl⟩ := Option.map_eq_some_iff.1 h
    obtain ⟨hcontent, hhashed⟩ := writeWithin_spec appetite (Nat.le_refl bytes.length) ht
    obtain ⟨u, hreceive, hu, huhashed⟩ := ih hmore hhashed
    refine ⟨u, ?_, ?_, huhashed⟩
    · rw [receive_piece appetite t hne]
      exact hreceive
    · rw [hu, hcontent, List.append_assoc]
  | case4 rest ih =>
    obtain ⟨u, hreceive, hu⟩ := ih h ht
    exact ⟨u, hreceive, hu⟩
  | case5 reason rest => cases h

theorem receive_of_failed (appetite : Appetite) {arrivals : List Arrival}
    (h : Arrival.content? arrivals = none) (t : Intake) : ∃ reason, t.receive appetite arrivals = .error reason := by
  fun_induction Arrival.content? arrivals generalizing t with
  | case1 => cases h
  | case2 rest => cases h
  | case3 bytes rest hne ih =>
    obtain ⟨reason, hreceive⟩ := ih (Option.map_eq_none_iff.1 h) (t.writeAll appetite bytes)
    rw [receive_piece appetite t hne]
    exact ⟨reason, hreceive⟩
  | case4 rest ih => exact ih h t
  | case5 reason rest => exact ⟨reason, rfl⟩

end Intake

namespace Blobs

/-! ## Staging -/

/-- The directory with content in a new staged file. -/
def withStaged (b : Blobs) (content : Bytes) : Blobs :=
  { b with staging := b.staging.insert b.next content, next := b.next + 1 }

/-- **Staging takes what arrives**, with its digest and length. -/
theorem stage_of_content (b : Blobs) (appetite : Intake.Appetite) {arrivals : List Arrival} {content : Bytes}
    (h : Arrival.content? arrivals = some content) :
    b.stage appetite arrivals = (.ok ⟨b.next, .digest content, content.length⟩, b.withStaged content) := by
  obtain ⟨t, hreceive, hcontent, hhashed⟩ := Intake.receive_of_content appetite h Intake.hashed_start
  have hcontent : t.content = content := hcontent
  rw [stage, hreceive]
  simp only [hhashed.key_eq, hhashed.2, hcontent]
  rfl

theorem stage_of_failed (b : Blobs) (appetite : Intake.Appetite) {arrivals : List Arrival}
    (h : Arrival.content? arrivals = none) : ∃ reason, b.stage appetite arrivals = (.error reason, b) := by
  obtain ⟨reason, hreceive⟩ := Intake.receive_of_failed appetite h .start
  exact ⟨reason, by rw [stage, hreceive]⟩

/-! ## Soundness -/

variable {S : Bytes → Prop}

/-- Every file with the name of a key holds supplied content with that digest. -/
def Sound (S : Bytes → Prop) (b : Blobs) : Prop :=
  ∀ key node, b.entries.get? (ContentKey.hex key) = some node →
    node.IsDirectory ∨ ∃ content, node = .file content ∧ S content ∧ .digest content = key

/-- The directory holds content under a key. -/
def HasFile (b : Blobs) (key : ContentKey) (content : Bytes) : Prop :=
  b.entries.get? key.hex = some (.file content)

/-- Files of keys stay as they are. -/
def Keeps (b after : Blobs) : Prop := ∀ key content, b.HasFile key content → after.HasFile key content

/-- A staged file has a ticket that was handed out, and if it is still there it holds supplied content with its
digest and length. -/
structure Genuine (S : Bytes → Prop) (b : Blobs) (s : Staged) : Prop where
  ticket_lt : s.ticket < b.next
  content_of : ∀ content, b.staging.get? s.ticket = some content →
    S content ∧ s.key = .digest content ∧ s.length = content.length

theorem Keeps.refl (b : Blobs) : Keeps b b := fun _ _ => id

theorem Keeps.trans {b middle after : Blobs} (h : Keeps b middle) (h' : Keeps middle after) : Keeps b after :=
  fun key content hfile => h' key content (h key content hfile)

theorem HasFile.read_eq {b : Blobs} {key : ContentKey} {content : Bytes} (h : b.HasFile key content) :
    b.read key = .ok content := by
  rw [read, h]
  rfl

theorem Sound.digest_eq {b : Blobs} (h : b.Sound S) {key : ContentKey} {content : Bytes}
    (hfile : b.HasFile key content) : S content ∧ .digest content = key := by
  rcases h key _ hfile with hdirectory | ⟨other, hother, hS, hdigest⟩
  · exact absurd hdirectory id
  · cases hother
    exact ⟨hS, hdigest⟩

theorem Sound.withStaged {b : Blobs} (h : b.Sound S) (content : Bytes) : (b.withStaged content).Sound S := h

theorem Sound.discard {b : Blobs} (h : b.Sound S) (s : Staged) : (b.discard s).Sound S := h

theorem genuine_withStaged {b : Blobs} {content : Bytes} (hS : S content) :
    (b.withStaged content).Genuine S ⟨b.next, .digest content, content.length⟩ where
  ticket_lt := Nat.lt_succ_self _
  content_of other hother := by
    rw [Blobs.withStaged, Table.get?_insert_self, Option.some.injEq] at hother
    subst hother
    exact ⟨hS, rfl, rfl⟩

theorem Genuine.withStaged {b : Blobs} {s : Staged} (h : b.Genuine S s) (content : Bytes) :
    (b.withStaged content).Genuine S s where
  ticket_lt := Nat.lt_succ_of_lt h.ticket_lt
  content_of other hother := by
    rw [Blobs.withStaged, Table.get?_insert_of_ne _ _ (Nat.ne_of_lt h.ticket_lt)] at hother
    exact h.content_of other hother

theorem Genuine.discard {b : Blobs} {s : Staged} (h : b.Genuine S s) (other : Staged) :
    (b.discard other).Genuine S s where
  ticket_lt := h.ticket_lt
  content_of content hcontent := by
    by_cases hticket : s.ticket = other.ticket
    · rw [Blobs.discard, hticket, Table.get?_erase_self] at hcontent
      cases hcontent
    · rw [Blobs.discard, Table.get?_erase_of_ne _ hticket] at hcontent
      exact h.content_of content hcontent

/-! ## Placing -/

/-- What placing a staged file does: its name is taken by its content, or by a directory, or stays as it was. -/
theorem commit_cases (b : Blobs) (s : Staged) :
    (∃ reason, b.commit s = (.error reason, b.discard s)) ∨
      (∃ node, b.entries.get? s.key.hex = some node ∧ ¬ node.IsDirectory ∧
        b.commit s = (.ok (b.pathOf s.key), b.discard s)) ∨
      ∃ content, b.staging.get? s.ticket = some content ∧ b.entries.get? s.key.hex = none ∧
        b.commit s = (.ok (b.pathOf s.key),
          { b.discard s with entries := b.entries.insert s.key.hex (.file content) }) := by
  unfold commit
  cases hcontent : b.staging.get? s.ticket with
  | none => exact .inl ⟨_, rfl⟩
  | some content =>
    cases hnode : b.entries.get? s.key.hex with
    | none => exact .inr (.inr ⟨content, rfl, rfl, rfl⟩)
    | some node =>
      cases node with
      | directory entries => exact .inl ⟨_, rfl⟩
      | file other => exact .inr (.inl ⟨_, rfl, id, rfl⟩)
      | database store => exact .inr (.inl ⟨_, rfl, id, rfl⟩)
      | busy => exact .inr (.inl ⟨_, rfl, id, rfl⟩)

theorem staging_commit (b : Blobs) (s : Staged) :
    (b.commit s).2.staging = (b.discard s).staging ∧ (b.commit s).2.next = b.next := by
  rcases b.commit_cases s with ⟨reason, h⟩ | ⟨node, -, -, h⟩ | ⟨content, -, -, h⟩ <;> rw [h] <;> exact ⟨rfl, rfl⟩

theorem Genuine.commit {b : Blobs} {s : Staged} (h : b.Genuine S s) (other : Staged) :
    (b.commit other).2.Genuine S s := by
  obtain ⟨hstaging, hnext⟩ := b.staging_commit other
  have hdiscard := h.discard other
  refine ⟨hnext ▸ hdiscard.ticket_lt, fun content hcontent => hdiscard.content_of content ?_⟩
  rw [← hstaging]
  exact hcontent

theorem keeps_commit (b : Blobs) (s : Staged) : Keeps b (b.commit s).2 := by
  intro key content hfile
  rcases b.commit_cases s with ⟨reason, h⟩ | ⟨node, -, -, h⟩ | ⟨placed, -, hnone, h⟩
  · rw [h]
    exact hfile
  · rw [h]
    exact hfile
  · rw [h]
    have hne : key.hex ≠ s.key.hex := fun he => by
      rw [HasFile, he, hnone] at hfile
      cases hfile
    exact (Table.get?_insert_of_ne _ _ hne).trans hfile

theorem Sound.commit {b : Blobs} (h : b.Sound S) {s : Staged} (hs : b.Genuine S s) : (b.commit s).2.Sound S := by
  rcases b.commit_cases s with ⟨reason, hcommit⟩ | ⟨node, -, -, hcommit⟩ | ⟨content, hcontent, -, hcommit⟩
  · rw [hcommit]
    exact h
  · rw [hcommit]
    exact h
  · obtain ⟨hS, hkey, -⟩ := hs.content_of content hcontent
    rw [hcommit]
    intro key node hnode
    by_cases he : key = s.key
    · subst he
      rw [Table.get?_insert_self, Option.some.injEq] at hnode
      exact .inr ⟨content, hnode.symm, hS, hkey.symm⟩
    · rw [Table.get?_insert_of_ne _ _ fun hhex => he (ContentKey.hex_injective hhex)] at hnode
      exact h key node hnode

theorem Sound.hasFile_commit {b : Blobs} (h : b.Sound S) {s : Staged} {path : String}
    (hcommit : (b.commit s).1 = .ok path) : ∃ content, (b.commit s).2.HasFile s.key content := by
  rcases b.commit_cases s with ⟨reason, he⟩ | ⟨node, hnode, hfile, he⟩ | ⟨content, -, -, he⟩
  · rw [he] at hcommit
    cases hcommit
  · rcases h s.key node hnode with hdirectory | ⟨content, rfl, -⟩
    · exact absurd hdirectory hfile
    · rw [he]
      exact ⟨content, hnode⟩
  · rw [he]
    exact ⟨content, Table.get?_insert_self _ _ _⟩

/-! ## Listing -/

theorem mem_listing {b : Blobs} {x : Listed} : x ∈ b.listing ↔ (b.found? x).isSome := by
  cases x with
  | entry name => simp [listing, found?, Table.mem_keys]
  | staged ticket => simp [listing, found?, Table.mem_keys]

theorem nodup_listing (b : Blobs) : b.listing.Nodup := by
  have hentries : (b.entries.keys.map Listed.entry).Nodup :=
    List.Pairwise.map _ (fun _ _ hne h => hne (Listed.entry.inj h)) b.entries.nodup_keys
  have hstaging : (b.staging.keys.map Listed.staged).Nodup :=
    List.Pairwise.map _ (fun _ _ hne h => hne (Listed.staged.inj h)) b.staging.nodup_keys
  refine List.nodup_append.2 ⟨hentries, hstaging, fun x hx y hy => ?_⟩
  obtain ⟨name, -, rfl⟩ := List.mem_map.1 hx
  obtain ⟨ticket, -, rfl⟩ := List.mem_map.1 hy
  exact nofun

theorem found?_without (b : Blobs) (x y : Listed) :
    (b.without x).found? y = if y = x then none else b.found? y := by
  split
  · next h =>
    subst h
    cases y with
    | entry name => exact Table.get?_erase_self _ _
    | staged ticket =>
      show ((b.staging.erase ticket).get? ticket).map _ = none
      rw [Table.get?_erase_self, Option.map_none]
  · next h =>
    cases x with
    | entry name =>
      cases y with
      | entry other => exact Table.get?_erase_of_ne _ fun he => h (congrArg _ he)
      | staged ticket => rfl
    | staged ticket =>
      cases y with
      | entry name => rfl
      | staged other =>
        show ((b.staging.erase ticket).get? other).map _ = (b.staging.get? other).map _
        rw [Table.get?_erase_of_ne _ fun he => h (congrArg _ he)]

/-- What is listed, and where it stands, is all there is to a directory. -/
theorem ext_found? {b c : Blobs} (hdirectory : b.directory = c.directory) (hnext : b.next = c.next)
    (h : ∀ x, b.found? x = c.found? x) : b = c := by
  have hentries : b.entries = c.entries := Table.ext fun name => h (.entry name)
  have hstaging : b.staging = c.staging := Table.ext fun ticket =>
    Option.map_injective (fun _ _ => Node.file.inj) (h (.staged ticket))
  obtain ⟨_, _, _, _⟩ := b
  obtain ⟨_, _, _, _⟩ := c
  cases hdirectory
  cases hnext
  cases hentries
  cases hstaging
  rfl

/-! ## Sweeping -/

/-- An entry that stays when everything is swept that is not retained: a retained one, or a directory. -/
def Stays (retained : ContentKey → Bool) (entry : String × Node) : Prop :=
  (ContentKey.ofHex? entry.1).any retained = true ∨ entry.2.IsDirectory

instance (retained : ContentKey → Bool) (entry : String × Node) : Decidable (Stays retained entry) := by
  unfold Stays; infer_instance

/-- The directory without staged files and without what does not stay. -/
def sweep (b : Blobs) (retained : ContentKey → Bool) : Blobs :=
  { b with
    entries := ⟨b.entries.entries.filter fun e => decide (Stays retained e), b.entries.ascending.filter _⟩
    staging := ∅ }

theorem get?_sweep {b : Blobs} {retained : ContentKey → Bool} {name : String} {node : Node} :
    (b.sweep retained).entries.get? name = some node ↔
      b.entries.get? name = some node ∧ Stays retained (name, node) := by
  rw [Table.get?_eq_some_iff, Table.get?_eq_some_iff, sweep, List.mem_filter, decide_eq_true_iff]

theorem Sound.sweep {b : Blobs} (h : b.Sound S) (retained : ContentKey → Bool) : (b.sweep retained).Sound S :=
  fun key node hnode => h key node (get?_sweep.1 hnode).1

theorem HasFile.sweep {b : Blobs} {key : ContentKey} {content : Bytes} (h : b.HasFile key content)
    {retained : ContentKey → Bool} (hretained : retained key = true) : (b.sweep retained).HasFile key content := by
  refine get?_sweep.2 ⟨h, .inl ?_⟩
  rw [ContentKey.ofHex?_hex]
  exact hretained

theorem Genuine.sweep {b : Blobs} {s : Staged} (h : b.Genuine S s) (retained : ContentKey → Bool) :
    (b.sweep retained).Genuine S s := ⟨h.ticket_lt, fun _ hcontent => by cases hcontent⟩

end Blobs

end Docket
