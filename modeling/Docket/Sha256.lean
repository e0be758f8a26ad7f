import Docket.Bytes

/-!
# SHA-256

A `Hasher` takes bytes one at a time and compresses a block whenever it holds sixty-four of them, so the
digest depends on the bytes alone and not on how they were grouped on arrival.

* `Sha256.Hasher.absorb`, `Sha256.Hasher.update`: one byte, many bytes.
* `Sha256.Hasher.finish`: the padded end of the message and its thirty-two bytes.
* `Sha256.digest`: the digest of a message.
* **`Sha256.Hasher.update_append`**: grouping does not matter.
* `Sha256.length_digest`: a digest has thirty-two bytes.
-/

namespace Docket.Sha256

/-- The eight words of the chaining value. -/
structure State where
  a : UInt32
  b : UInt32
  c : UInt32
  d : UInt32
  e : UInt32
  f : UInt32
  g : UInt32
  h : UInt32
deriving DecidableEq, Inhabited

namespace State

/-- The fractional parts of the square roots of the first eight primes. -/
def start : State where
  a := 0x6a09e667
  b := 0xbb67ae85
  c := 0x3c6ef372
  d := 0xa54ff53a
  e := 0x510e527f
  f := 0x9b05688c
  g := 0x1f83d9ab
  h := 0x5be0cd19

/-- Word by word addition. -/
def add (s t : State) : State where
  a := s.a + t.a
  b := s.b + t.b
  c := s.c + t.c
  d := s.d + t.d
  e := s.e + t.e
  f := s.f + t.f
  g := s.g + t.g
  h := s.h + t.h

/-- The words in order. -/
def words (s : State) : List UInt32 := [s.a, s.b, s.c, s.d, s.e, s.f, s.g, s.h]

end State

/-- The fractional parts of the cube roots of the first sixty-four primes. -/
def constants : List UInt32 :=
  [0x428a2f98, 0x71374491, 0xb5c0fbcf, 0xe9b5dba5, 0x3956c25b, 0x59f111f1, 0x923f82a4, 0xab1c5ed5,
   0xd807aa98, 0x12835b01, 0x243185be, 0x550c7dc3, 0x72be5d74, 0x80deb1fe, 0x9bdc06a7, 0xc19bf174,
   0xe49b69c1, 0xefbe4786, 0x0fc19dc6, 0x240ca1cc, 0x2de92c6f, 0x4a7484aa, 0x5cb0a9dc, 0x76f988da,
   0x983e5152, 0xa831c66d, 0xb00327c8, 0xbf597fc7, 0xc6e00bf3, 0xd5a79147, 0x06ca6351, 0x14292967,
   0x27b70a85, 0x2e1b2138, 0x4d2c6dfc, 0x53380d13, 0x650a7354, 0x766a0abb, 0x81c2c92e, 0x92722c85,
   0xa2bfe8a1, 0xa81a664b, 0xc24b8b70, 0xc76c51a3, 0xd192e819, 0xd6990624, 0xf40e3585, 0x106aa070,
   0x19a4c116, 0x1e376c08, 0x2748774c, 0x34b0bcb5, 0x391c0cb3, 0x4ed8aa4a, 0x5b9cca4f, 0x682e6ff3,
   0x748f82ee, 0x78a5636f, 0x84c87814, 0x8cc70208, 0x90befffa, 0xa4506ceb, 0xbef9a3f7, 0xc67178f2]

/-- Rotation to the right, for `0 < n < 32`. -/
def rotate (x : UInt32) (n : UInt32) : UInt32 := (x >>> n) ||| (x <<< (32 - n))

/-! ## The compression of a block -/

/-- Four bytes as a word, the high byte first. -/
def word (a b c d : UInt8) : UInt32 :=
  (a.toUInt32 <<< 24) ||| (b.toUInt32 <<< 16) ||| (c.toUInt32 <<< 8) ||| d.toUInt32

/-- The words of a block that is given last byte first; the words too are last first. -/
def wordsOfReversed : Bytes → List UInt32
  | d :: c :: b :: a :: rest => word a b c d :: wordsOfReversed rest
  | _ => []

/-- One more word of the schedule, which is held last word first. -/
def extend (schedule : List UInt32) : List UInt32 :=
  let w₂ := schedule.getD 1 0
  let w₇ := schedule.getD 6 0
  let w₁₅ := schedule.getD 14 0
  let w₁₆ := schedule.getD 15 0
  let s₀ := rotate w₁₅ 7 ^^^ rotate w₁₅ 18 ^^^ (w₁₅ >>> 3)
  let s₁ := rotate w₂ 17 ^^^ rotate w₂ 19 ^^^ (w₂ >>> 10)
  (w₁₆ + s₀ + w₇ + s₁) :: schedule

/-- The sixty-four words of the schedule of a block that is given last byte first. -/
def schedule (block : Bytes) : List UInt32 :=
  ((List.range 48).foldl (fun ws _ => extend ws) (wordsOfReversed block)).reverse

/-- One round, with its constant and its word of the schedule. -/
def round (s : State) (k w : UInt32) : State :=
  let big₁ := rotate s.e 6 ^^^ rotate s.e 11 ^^^ rotate s.e 25
  let choice := (s.e &&& s.f) ^^^ (~~~s.e &&& s.g)
  let t₁ := s.h + big₁ + choice + k + w
  let big₀ := rotate s.a 2 ^^^ rotate s.a 13 ^^^ rotate s.a 22
  let majority := (s.a &&& s.b) ^^^ (s.a &&& s.c) ^^^ (s.b &&& s.c)
  { a := t₁ + (big₀ + majority), b := s.a, c := s.b, d := s.c, e := s.d + t₁, f := s.e, g := s.f, h := s.g }

/-- The chaining value after a block that is given last byte first. -/
def compress (s : State) (block : Bytes) : State :=
  s.add ((constants.zip (schedule block)).foldl (fun t kw => round t kw.1 kw.2) s)

/-! ## Hashing byte by byte -/

/-- A hash in progress. -/
structure Hasher where
  state : State
  /-- The bytes since the last full block, the latest first. -/
  pending : Bytes
  /-- The number of bytes taken so far. -/
  count : Nat
deriving DecidableEq, Inhabited

namespace Hasher

/-- Nothing taken yet. -/
def start : Hasher := ⟨.start, [], 0⟩

/-- Takes one byte; the last one of a block compresses it. -/
def absorb (h : Hasher) (b : UInt8) : Hasher :=
  if (h.count + 1) % 64 = 0 then ⟨compress h.state (b :: h.pending), [], h.count + 1⟩
  else ⟨h.state, b :: h.pending, h.count + 1⟩

/-- Takes bytes in order. -/
def update (h : Hasher) (bytes : Bytes) : Hasher := bytes.foldl absorb h

@[simp] theorem update_nil (h : Hasher) : h.update [] = h := rfl

/-- Grouping does not matter. -/
theorem update_append (h : Hasher) (xs ys : Bytes) : h.update (xs ++ ys) = (h.update xs).update ys :=
  List.foldl_append

end Hasher

/-- What follows a message of the given length in bytes: a one bit, zeros up to eight bytes before the end
of a block, and the length in bits. -/
def padding (count : Nat) : Bytes :=
  0x80 :: (List.replicate ((119 - count % 64) % 64) 0 ++ Bytes.bigEndian (8 * count))

/-- A word as four bytes, the high byte first. -/
def bytesOfWord (w : UInt32) : Bytes :=
  [(w >>> 24).toUInt8, (w >>> 16).toUInt8, (w >>> 8).toUInt8, w.toUInt8]

/-- The digest of the bytes taken. -/
def Hasher.finish (h : Hasher) : Bytes :=
  (h.update (padding h.count)).state.words.flatMap bytesOfWord

/-- The digest of a message. -/
def digest (message : Bytes) : Bytes := (Hasher.start.update message).finish

theorem Hasher.length_finish (h : Hasher) : h.finish.length = 32 := rfl

theorem length_digest (message : Bytes) : (digest message).length = 32 := rfl

end Docket.Sha256
