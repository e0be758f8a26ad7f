import Docket.Proofs.Attachment.Contents
import Docket.Proofs.Sha256
import Docket.Session

/-!
# Taking in content write by write

A reader delivers content in pieces, or it fails after some of it. A staged file is made empty, grows with every write
and is removed if the reader fails. What is left in the end does not depend on the pieces nor on the writes.

* `Arrival.Delivers`, `Arrival.Breaks`: a reader that delivers content, and one that fails.
* `Blobs.stageStepwise`: staging with the directory as it stands after every write.
* `Blobs.stageStepwise_eq`: under a fresh name it is staging.
* `Source.Supplies`: the content of a source.
* **`Blobs.stage_however_delivered`**: what is staged is what was delivered, and a failure leaves nothing.
-/

namespace Docket

/-! ## Readers -/

/-- A reader delivers content: its pieces up to the end, or up to an empty one, with interruptions in between. -/
inductive Arrival.Delivers : List Arrival → Bytes → Prop
  | ended : Delivers [] []
  | empty (rest : List Arrival) : Delivers (.piece [] :: rest) []
  | piece {bytes content : Bytes} {rest : List Arrival} (hne : bytes ≠ []) (h : Delivers rest content) :
    Delivers (.piece bytes :: rest) (bytes ++ content)
  | interrupted {content : Bytes} {rest : List Arrival} (h : Delivers rest content) :
    Delivers (.interrupted :: rest) content

/-- A reader fails after it has delivered some bytes. -/
inductive Arrival.Breaks : List Arrival → Bytes → IoError → Prop
  | failed (reason : IoError) (rest : List Arrival) : Breaks (.failed reason :: rest) [] reason
  | piece {bytes delivered : Bytes} {reason : IoError} {rest : List Arrival} (hne : bytes ≠ [])
    (h : Breaks rest delivered reason) : Breaks (.piece bytes :: rest) (bytes ++ delivered) reason
  | interrupted {delivered : Bytes} {reason : IoError} {rest : List Arrival} (h : Breaks rest delivered reason) :
    Breaks (.interrupted :: rest) delivered reason

namespace Arrival

variable {arrivals : List Arrival} {content delivered : Bytes} {reason : IoError}

theorem Delivers.content?_eq (h : Delivers arrivals content) : content? arrivals = some content := by
  induction h with
  | ended => rfl
  | empty rest => rfl
  | @piece bytes content rest hne h ih =>
    obtain ⟨b, more, rfl⟩ := List.exists_cons_of_ne_nil hne
    show (content? rest).map _ = _
    rw [ih, Option.map_some]
  | interrupted h ih => exact ih

theorem delivers_or_breaks (arrivals : List Arrival) :
    (∃ content, Delivers arrivals content) ∨ ∃ delivered reason, Breaks arrivals delivered reason := by
  induction arrivals with
  | nil => exact .inl ⟨[], .ended⟩
  | cons first rest ih =>
    cases first with
    | piece bytes =>
      rcases eq_or_ne bytes [] with rfl | hne
      · exact .inl ⟨[], .empty rest⟩
      · rcases ih with ⟨content, h⟩ | ⟨delivered, reason, h⟩
        · exact .inl ⟨bytes ++ content, .piece hne h⟩
        · exact .inr ⟨bytes ++ delivered, reason, .piece hne h⟩
    | interrupted =>
      rcases ih with ⟨content, h⟩ | ⟨delivered, reason, h⟩
      · exact .inl ⟨content, .interrupted h⟩
      · exact .inr ⟨delivered, reason, .interrupted h⟩
    | failed reason => exact .inr ⟨[], reason, .failed reason rest⟩

theorem delivers_pieces {pieces : List Bytes} (hne : ∀ bytes ∈ pieces, bytes ≠ []) :
    Delivers (pieces.map .piece) pieces.flatten := by
  induction pieces with
  | nil => exact .ended
  | cons bytes rest ih =>
    rw [List.forall_mem_cons] at hne
    exact .piece hne.1 (ih hne.2)

theorem Breaks.receive_eq (h : Breaks arrivals delivered reason) (appetite : Intake.Appetite) (t : Intake) :
    t.receive appetite arrivals = .error reason := by
  induction h generalizing t with
  | failed reason rest => rfl
  | piece hne h ih =>
    rw [Intake.receive_piece appetite t hne]
    exact ih _
  | interrupted h ih => exact ih t

end Arrival

namespace Blobs

variable {b : Blobs} {ticket : Nat}

/-! ## Staging write by write -/

/-- The directory with a staged file of this content. -/
def withFile (b : Blobs) (ticket : Nat) (content : Bytes) : Blobs :=
  { b with staging := b.staging.insert ticket content }

/-- Writes bytes at the end of a staged file. -/
def append (b : Blobs) (ticket : Nat) (bytes : Bytes) : Blobs :=
  match b.staging.get? ticket with
  | some content => b.withFile ticket (content ++ bytes)
  | none => b

/-- A piece, in at most `fuel` writes, each of them at the end of the file. -/
def pourWithin (appetite : Intake.Appetite) (ticket : Nat) : Nat → Intake × Blobs → Bytes → Intake × Blobs
  | 0, s, _ => s
  | _, s, [] => s
  | fuel + 1, (t, b), piece =>
    let n := max 1 (appetite t.count piece.length)
    pourWithin appetite ticket fuel (t.take (piece.take n), b.append ticket (piece.take n)) (piece.drop n)

/-- Arrivals up to the end of the content, each of them written to the file. -/
def pour (appetite : Intake.Appetite) (ticket : Nat) : Intake × Blobs → List Arrival → Except IoError Intake × Blobs
  | (t, b), [] => (.ok t, b)
  | (t, b), .piece [] :: _ => (.ok t, b)
  | s, .piece bytes :: rest => pour appetite ticket (pourWithin appetite ticket bytes.length s bytes) rest
  | s, .interrupted :: rest => pour appetite ticket s rest
  | (_, b), .failed reason :: _ => (.error reason, b)

theorem pour_piece (appetite : Intake.Appetite) (s : Intake × Blobs) {bytes : Bytes} (hne : bytes ≠ [])
    (rest : List Arrival) :
    pour appetite ticket s (.piece bytes :: rest) =
      pour appetite ticket (pourWithin appetite ticket bytes.length s bytes) rest := by
  obtain ⟨first, more, rfl⟩ := List.exists_cons_of_ne_nil hne
  rfl

/-- Takes content into a new file: it is made empty, grows with every write, and is removed after a failure. A name that
is taken is a failure as well. -/
def stageStepwise (appetite : Intake.Appetite) (b : Blobs) (arrivals : List Arrival) : Except IoError Staged × Blobs :=
  match b.staging.get? b.next with
  | some _ => (.error .alreadyExists, b.without (.staged b.next))
  | none =>
    match pour appetite b.next (.start, b.withFile b.next []) arrivals with
    | (.error reason, after) => (.error reason, after.without (.staged b.next))
    | (.ok t, after) => (.ok ⟨b.next, t.key, t.count⟩, { after with next := b.next + 1 })

/-- **A write adds to the file what is taken in.** -/
theorem append_withFile (t : Intake) (bytes : Bytes) :
    (b.withFile ticket t.content).append ticket bytes = b.withFile ticket (t.take bytes).content := by
  have hget : (b.withFile ticket t.content).staging.get? ticket = some t.content := Table.get?_insert_self ..
  rw [append, hget, Intake.content_take]
  show { b with staging := (b.staging.insert ticket t.content).insert ticket _ } = _
  rw [Table.insert_insert]
  rfl

theorem pourWithin_withFile (appetite : Intake.Appetite) (fuel : Nat) (t : Intake) (piece : Bytes) :
    pourWithin appetite ticket fuel (t, b.withFile ticket t.content) piece =
      (t.writeWithin appetite fuel piece, b.withFile ticket (t.writeWithin appetite fuel piece).content) := by
  induction fuel generalizing t piece with
  | zero => rfl
  | succ fuel ih =>
    cases piece with
    | nil => rfl
    | cons first rest =>
      simp only [pourWithin]
      rw [append_withFile, ih, Intake.writeWithin_cons]

/-- **At every step the file has what has been taken in**, and the rest of the directory is as it was. -/
theorem pour_withFile (appetite : Intake.Appetite) (t : Intake) (arrivals : List Arrival) :
    (∃ u, t.receive appetite arrivals = .ok u ∧
        pour appetite ticket (t, b.withFile ticket t.content) arrivals = (.ok u, b.withFile ticket u.content)) ∨
      ∃ reason content, t.receive appetite arrivals = .error reason ∧
        pour appetite ticket (t, b.withFile ticket t.content) arrivals =
          (.error reason, b.withFile ticket content) := by
  induction arrivals generalizing t with
  | nil => exact .inl ⟨t, rfl, rfl⟩
  | cons first rest ih =>
    cases first with
    | piece bytes =>
      rcases eq_or_ne bytes [] with rfl | hne
      · exact .inl ⟨t, rfl, rfl⟩
      · rw [Intake.receive_piece appetite t hne, pour_piece appetite _ hne, pourWithin_withFile]
        exact ih _
    | interrupted => exact ih t
    | failed reason => exact .inr ⟨reason, t.content, rfl, rfl⟩

/-- Under a fresh name staging write by write is staging. -/
theorem stageStepwise_eq (appetite : Intake.Appetite) (hfresh : b.found? (.staged b.next) = none)
    (arrivals : List Arrival) : b.stageStepwise appetite arrivals = b.stage appetite arrivals := by
  have hnone : b.staging.get? b.next = none := Option.map_eq_none_iff.1 hfresh
  have hstart : b.withFile b.next [] = b.withFile b.next Intake.start.content := rfl
  rw [stageStepwise, hnone, stage, hstart]
  rcases @pour_withFile b b.next appetite .start arrivals with
    ⟨t, hreceive, hpour⟩ | ⟨reason, content, hreceive, hpour⟩
  · simp only [hreceive, hpour]
    rfl
  · have hremoved : (b.withFile b.next content).without (.staged b.next) = b := by
      show { b with staging := (b.staging.insert b.next content).erase b.next } = b
      rw [Table.erase_insert content hnone]
    simp only [hreceive, hpour, hremoved]

/-- A directory that has gained a staged file of some content, and has everything else as it was. -/
structure Gains (b : Blobs) (s : Staged) (content : Bytes) (after : Blobs) : Prop where
  key_eq : s.key = .digest content
  bytes_eq : s.key.bytes = Sha256.blockwise content
  length_eq : s.length = content.length
  directory_eq : after.directory = b.directory
  found : ∀ x, after.found? x = if x = .staged s.ticket then some (.file content) else b.found? x

theorem gains_withStaged (b : Blobs) (content : Bytes) :
    b.Gains ⟨b.next, .digest content, content.length⟩ content (b.withStaged content) where
  key_eq := rfl
  bytes_eq := Sha256.digest_eq_blockwise content
  length_eq := rfl
  directory_eq := rfl
  found x := by
    cases x with
    | entry name => rw [if_neg nofun]; rfl
    | staged ticket =>
      show ((b.staging.insert b.next content).get? ticket).map Node.file = _
      by_cases hticket : ticket = b.next
      · rw [if_pos (congrArg Listed.staged hticket), hticket, Table.get?_insert_self]
        rfl
      · rw [if_neg fun he => hticket (Listed.staged.inj he), Table.get?_insert_of_ne _ _ hticket]
        rfl

end Blobs

/-! ## Sources -/

/-- A source supplies content: bytes as they are, what stands in the file, what the reader delivers. -/
def Source.Supplies (s : Session) (b : Blobs) (content : Bytes) : Source → Prop
  | .bytes whole => whole = content
  | .file path => (s.diskWith b.entries).read path = .ok content
  | .reader arrivals => Arrival.Delivers arrivals content

namespace Source

theorem delivers_whole (content : Bytes) : Arrival.Delivers [.piece content] content := by
  rcases eq_or_ne content [] with rfl | hne
  · exact .empty []
  · have hdelivers := Arrival.delivers_pieces (List.forall_mem_singleton.2 hne)
    rwa [List.flatten_singleton] at hdelivers

theorem delivers_openFile {d : Disk} {path : String} {content : Bytes} (h : d.read path = .ok content) :
    ∃ arrivals, d.openFile path = .ok arrivals ∧ Arrival.Delivers arrivals content := by
  unfold Disk.read at h
  unfold Disk.openFile
  cases hlocate : d.locate path with
  | error reason =>
    rw [hlocate] at h
    cases h
  | ok found =>
    obtain ⟨here, node⟩ := found
    rw [hlocate] at h
    simp only [bind, Except.bind] at h ⊢
    cases hcontent : node.content? with
    | none =>
      rw [hcontent] at h
      cases h
    | some bytes =>
      rw [hcontent] at h
      cases h
      exact ⟨_, rfl, delivers_whole content⟩

theorem Supplies.delivers {s : Session} {b : Blobs} {source : Source} {content : Bytes}
    (h : source.Supplies s b content) :
    ∃ arrivals, source.arrivals s.opener b = .ok arrivals ∧ Arrival.Delivers arrivals content := by
  cases source with
  | bytes whole =>
    obtain rfl : whole = content := h
    exact ⟨_, rfl, delivers_whole whole⟩
  | file path => exact delivers_openFile h
  | reader arrivals => exact ⟨arrivals, rfl, h⟩

end Source

/-- **What is staged is what was delivered.** However a reader delivers its content and whatever part of each write the
file takes, staging write by write comes to the same as staging, and this succeeds: the key is the digest of the
content, computed from whole blocks, the length is its length, a new file has exactly the content, and everything else
in the directory is as it was. So it is for a source of any kind with what it supplies. A reader that fails, after
whatever bytes, has its failure passed on and the directory left as it was. Every reader does one or the other. -/
theorem Blobs.stage_however_delivered (b : Blobs) (hfresh : b.found? (.staged b.next) = none)
    (appetite : Intake.Appetite) :
    (∀ arrivals, b.stageStepwise appetite arrivals = b.stage appetite arrivals) ∧
    (∀ arrivals content, Arrival.Delivers arrivals content →
      ∃ s after, b.stage appetite arrivals = (.ok s, after) ∧ b.Gains s content after) ∧
    (∀ session source content, Source.Supplies session b content source →
      ∃ arrivals s after, source.arrivals session.opener b = .ok arrivals ∧
        b.stage appetite arrivals = (.ok s, after) ∧ b.Gains s content after) ∧
    (∀ arrivals delivered reason, Arrival.Breaks arrivals delivered reason →
      b.stage appetite arrivals = (.error reason, b)) ∧
    ∀ arrivals, (∃ content, Arrival.Delivers arrivals content) ∨
      ∃ delivered reason, Arrival.Breaks arrivals delivered reason := by
  have hstage : ∀ arrivals content, Arrival.Delivers arrivals content →
      ∃ s after, b.stage appetite arrivals = (.ok s, after) ∧ b.Gains s content after := by
    intro arrivals content h
    exact ⟨_, _, b.stage_of_content appetite h.content?_eq, b.gains_withStaged content⟩
  refine ⟨stageStepwise_eq appetite hfresh, hstage, ?_, ?_, Arrival.delivers_or_breaks⟩
  · intro session source content h
    obtain ⟨arrivals, hopen, hdelivers⟩ := h.delivers
    obtain ⟨s, after, hs⟩ := hstage arrivals content hdelivers
    exact ⟨arrivals, s, after, hopen, hs⟩
  · intro arrivals delivered reason h
    rw [stage, h.receive_eq]

/-- A session with a file in its working directory. -/
def Session.withNote : Session :=
  { (default : Session) with
    disk := ⟨.directory [("blobs", .emptyDirectory), ("note", .file [97, 98, 99])], []⟩
    blobPlace := ["blobs"] }

/-- Three bytes in two pieces with an interruption, taken one at a time; the same bytes from a file; a reader that fails
after two of them. -/
theorem Blobs.stage_however_delivered_abc :
    (∃ s after, (ofEntries "blobs" []).stage (fun _ _ => 1) [.piece [97], .interrupted, .piece [98, 99]] =
        (.ok s, after) ∧
      s.key.hex = "ba7816bf8f01cfea414140de5dae2223b00361a396177a9cb410ff61f20015ad" ∧ s.length = 3 ∧
      after.found? (.staged 0) = some (.file [97, 98, 99])) ∧
    (∃ arrivals s after, (Source.file "note").arrivals Session.withNote.opener (ofEntries "blobs" []) = .ok arrivals ∧
      (ofEntries "blobs" []).stage .full arrivals = (.ok s, after) ∧
      (ofEntries "blobs" []).Gains s [97, 98, 99] after) ∧
    (ofEntries "blobs" []).stageStepwise (fun _ _ => 1) [.piece [97, 98], .failed .other] =
      (.error .other, ofEntries "blobs" []) := by
  have hdelivers : Arrival.Delivers [.piece [97], .interrupted, .piece [98, 99]] [97, 98, 99] :=
    .piece (List.cons_ne_nil _ _) (.interrupted (.piece (List.cons_ne_nil _ _) .ended))
  have hbreaks : Arrival.Breaks [.piece [97, 98], .failed .other] [97, 98] .other :=
    .piece (List.cons_ne_nil _ _) (.failed _ _)
  have hsupplies : (Source.file "note").Supplies Session.withNote (ofEntries "blobs" []) [97, 98, 99] := by
    show Except.ok _ = _
    rfl
  obtain ⟨hstepwise, hstage, -, hfailed, -⟩ := stage_however_delivered (ofEntries "blobs" []) rfl fun _ _ => 1
  obtain ⟨-, -, hsource, -, -⟩ := stage_however_delivered (ofEntries "blobs" []) rfl .full
  refine ⟨?_, hsource _ _ _ hsupplies, (hstepwise _).trans (hfailed _ _ _ hbreaks)⟩
  obtain ⟨s, after, heq, hgains⟩ := hstage _ _ hdelivers
  have hticket : s.ticket = 0 := by
    have hs := congrArg (fun r => r.1.toOption.map Staged.ticket) heq
    exact (Option.some.inj hs).symm
  refine ⟨s, after, heq, ?_, hgains.length_eq, ?_⟩
  · rw [hgains.key_eq]
    decide +kernel
  · rw [hgains.found, hticket, if_pos rfl]

end Docket
