import Docket.Sha256
import Mathlib.Tactic.Common

/-!
# The digest block by block

The function as it is published takes a whole message, pads it to blocks of sixty-four bytes and compresses these one
after another. A hasher that takes the message byte by byte, in any groups, has the same digest.

* `Sha256.padded`: a message with what follows it.
* `Sha256.chain`: the chaining value after whole blocks.
* `Sha256.Hasher.update_chain`: a hasher at the start of a block takes blocks as the chain does.
* **`Sha256.digest_eq_blockwise`**: the digest of a message.
-/

namespace Docket.Sha256

/-- A message with what follows it. -/
def padded (message : Bytes) : Bytes := message ++ padding message.length

/-- The chaining value after the blocks of bytes, from the first on. Bytes after the last whole block do not count. -/
def chain (s : State) (bytes : Bytes) : State :=
  if 64 ≤ bytes.length then chain (compress s (bytes.take 64).reverse) (bytes.drop 64) else s
termination_by bytes.length
decreasing_by
  rw [List.length_drop]
  omega

/-- The digest of a whole message: the chaining value after the padded message, word by word. -/
def blockwise (message : Bytes) : Bytes := (chain .start (padded message)).words.flatMap bytesOfWord

namespace Hasher

/-- A hasher that has taken whole blocks. -/
structure Aligned (h : Hasher) : Prop where
  count_mod : h.count % 64 = 0
  pending_eq : h.pending = []

theorem aligned_start : start.Aligned := ⟨rfl, rfl⟩

theorem count_update (h : Hasher) (bytes : Bytes) : (h.update bytes).count = h.count + bytes.length := by
  induction bytes generalizing h with
  | nil => rfl
  | cons b rest ih =>
    have habsorb : (h.absorb b).count = h.count + 1 := by
      unfold absorb
      split <;> rfl
    show ((h.absorb b).update rest).count = _
    rw [ih, habsorb, List.length_cons]
    omega

theorem update_of_short {h : Hasher} {bytes : Bytes} (hshort : h.count % 64 + bytes.length < 64) :
    h.update bytes = ⟨h.state, bytes.reverse ++ h.pending, h.count + bytes.length⟩ := by
  induction bytes generalizing h with
  | nil => rfl
  | cons b rest ih =>
    rw [List.length_cons] at hshort
    have habsorb : h.absorb b = ⟨h.state, b :: h.pending, h.count + 1⟩ := if_neg (by omega)
    have hrest : (h.absorb b).count % 64 + rest.length < 64 := by
      rw [habsorb]
      show (h.count + 1) % 64 + rest.length < 64
      omega
    show (h.absorb b).update rest = _
    rw [ih hrest, habsorb, List.reverse_cons, List.append_assoc, List.singleton_append, List.length_cons,
      Nat.add_assoc, Nat.add_comm 1]

/-- A block is compressed with its last byte. -/
theorem Aligned.update_block {h : Hasher} (ha : h.Aligned) {block : Bytes} (hlength : block.length = 64) :
    h.update block = ⟨compress h.state block.reverse, [], h.count + 64⟩ := by
  obtain ⟨body, last, rfl⟩ : ∃ body last, block = body ++ [last] := by
    have hne : block ≠ [] := List.ne_nil_of_length_eq_add_one hlength
    exact ⟨block.dropLast, block.getLast hne, (List.dropLast_concat_getLast hne).symm⟩
  have hbody : body.length = 63 := by
    rw [List.length_append, List.length_singleton] at hlength
    omega
  have hcount := ha.count_mod
  have hshort : h.count % 64 + body.length < 64 := by omega
  have hfull : (h.count + body.length + 1) % 64 = 0 := by omega
  rw [update_append, update_of_short hshort, ha.pending_eq, List.append_nil]
  show absorb _ last = _
  rw [absorb, if_pos hfull, List.reverse_append, List.reverse_singleton, List.singleton_append, Nat.add_assoc, hbody]

/-- **A hasher at the start of a block takes blocks as the chain does.** -/
theorem Aligned.update_chain {h : Hasher} (ha : h.Aligned) (bytes : Bytes) :
    (h.update bytes).state = chain h.state bytes := by
  generalize hn : bytes.length = n
  induction n using Nat.strongRecOn generalizing h bytes with
  | ind n ih =>
    rw [chain]
    split
    · next hlong =>
      have hblock : h.update (bytes.take 64) = _ := ha.update_block (List.length_take_of_le hlong)
      have halign : (h.update (bytes.take 64)).Aligned := by
        rw [hblock]
        have hcount := ha.count_mod
        exact ⟨by show (h.count + 64) % 64 = 0; omega, rfl⟩
      have hdrop : (bytes.drop 64).length < n := by
        rw [List.length_drop]
        omega
      conv_lhs => rw [← List.take_append_drop 64 bytes]
      rw [update_append, ih _ hdrop halign _ rfl, hblock]
    · next hshort =>
      have hcount := ha.count_mod
      rw [update_of_short (by omega)]

end Hasher

/-- **The digest of a message is that of its blocks.** -/
theorem digest_eq_blockwise (message : Bytes) : digest message = blockwise message := by
  have hcount : (Hasher.start.update message).count = message.length := by
    rw [Hasher.count_update]
    exact Nat.zero_add _
  rw [digest, Hasher.finish, hcount, ← Hasher.update_append, Hasher.aligned_start.update_chain]
  rfl

end Docket.Sha256
