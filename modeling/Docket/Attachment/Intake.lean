import Docket.FileTree
import Docket.ContentKey

/-!
# Taking in content

Content arrives in pieces and is written to a file that may take only part of what it is offered. What the
file takes is hashed as it is taken, so the digest is that of the bytes in the file, however they arrived.

* `Intake.take`: bytes that the file takes at once.
* `Intake.writeAll`: a piece, in as many writes as it needs.
* `Intake.receive`: arrivals up to the end of the content.
-/

namespace Docket

/-- A file being written. -/
structure Intake where
  /-- The bytes written so far, the latest first. -/
  written : Bytes
  hasher : Sha256.Hasher
  count : Nat
deriving DecidableEq, Inhabited

namespace Intake

/-- Nothing written yet. -/
def start : Intake := ⟨[], .start, 0⟩

/-- How many of the bytes offered at some point a file takes. It takes at least one and no more than all. -/
abbrev Appetite := Nat → Nat → Nat

/-- A file that takes everything. -/
def Appetite.full : Appetite := fun _ offered => offered

/-- Bytes that the file takes at once. -/
def take (t : Intake) (bytes : Bytes) : Intake where
  written := bytes.reverse ++ t.written
  hasher := t.hasher.update bytes
  count := t.count + bytes.length

/-- A piece, in at most `fuel` writes. -/
def writeWithin (appetite : Appetite) : Nat → Intake → Bytes → Intake
  | 0, t, _ => t
  | _, t, [] => t
  | fuel + 1, t, piece =>
    let n := max 1 (appetite t.count piece.length)
    writeWithin appetite fuel (t.take (piece.take n)) (piece.drop n)

/-- A piece, in as many writes as it needs. -/
def writeAll (appetite : Appetite) (t : Intake) (piece : Bytes) : Intake :=
  writeWithin appetite piece.length t piece

/-- Arrivals up to the end of the content. An interruption is tried again, a failure ends it. -/
def receive (appetite : Appetite) (t : Intake) : List Arrival → Except IoError Intake
  | [] => .ok t
  | .piece [] :: _ => .ok t
  | .piece bytes :: rest => receive appetite (t.writeAll appetite bytes) rest
  | .interrupted :: rest => receive appetite t rest
  | .failed reason :: _ => .error reason

/-- The bytes in the file. -/
def content (t : Intake) : Bytes := t.written.reverse

/-- The key of the bytes in the file. -/
def key (t : Intake) : ContentKey := .ofHasher t.hasher

/-! ## What is in the file -/

theorem content_take (t : Intake) (bytes : Bytes) : (t.take bytes).content = t.content ++ bytes := by
  simp [take, content]

/-- The hasher has taken what is in the file. -/
def Hashed (t : Intake) : Prop := t.hasher = Sha256.Hasher.start.update t.content ∧ t.count = t.content.length

theorem hashed_start : start.Hashed := ⟨rfl, rfl⟩

theorem Hashed.take {t : Intake} (h : t.Hashed) (bytes : Bytes) : (t.take bytes).Hashed := by
  refine ⟨?_, ?_⟩
  · rw [content_take, Sha256.Hasher.update_append, ← h.1]
    rfl
  · rw [content_take, List.length_append, ← h.2]
    rfl

theorem Hashed.key_eq {t : Intake} (h : t.Hashed) : t.key = .digest t.content := by
  simp only [key, ContentKey.ofHasher, ContentKey.digest, h.1, Sha256.digest]

end Intake

end Docket
