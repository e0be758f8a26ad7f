import Docket.Hex
import Docket.Sha256

/-!
# Content keys

Content is named by its digest. The hexadecimal text of a key is also the name of the file that holds the
content, and only that text is read back.

* `ContentKey.digest`: the key of content.
* `ContentKey.hex`, `ContentKey.ofHex?`: the text of a key.
* **`ContentKey.ofHex?_eq_some`**: reading takes exactly what writing produces.
-/

namespace Docket

/-- The digest of content: thirty-two bytes. -/
structure ContentKey where
  bytes : Bytes
  length_bytes : bytes.length = 32
deriving DecidableEq

namespace ContentKey

/-- The key of the bytes that a hasher has taken. -/
def ofHasher (h : Sha256.Hasher) : ContentKey := ⟨h.finish, h.length_finish⟩

/-- The key of content. -/
def digest (content : Bytes) : ContentKey := ⟨Sha256.digest content, Sha256.length_digest content⟩

/-- The text of a key. -/
def hex (key : ContentKey) : String := Hex.text key.bytes

/-- The key of a text of sixty-four lower-case digits. -/
def ofHex? (s : String) : Option ContentKey :=
  match Hex.decode? s.toList with
  | some bytes => if h : bytes.length = 32 then some ⟨bytes, h⟩ else none
  | none => none

@[simp] theorem ofHex?_hex (key : ContentKey) : ofHex? key.hex = some key := by
  simp [ofHex?, hex, Hex.text, key.length_bytes]

/-- Reading takes exactly what writing produces. -/
theorem ofHex?_eq_some {s : String} {key : ContentKey} : ofHex? s = some key ↔ s = key.hex := by
  refine ⟨fun h => ?_, fun h => h ▸ ofHex?_hex key⟩
  unfold ofHex? at h
  split at h
  · next bytes hb =>
    split at h
    · cases h
      rw [hex, Hex.text, ← Hex.eq_encode_of_decode? hb, String.ofList_toList]
    · cases h
  · cases h

theorem hex_injective {k l : ContentKey} (h : k.hex = l.hex) : k = l := by
  have := ofHex?_hex k
  rw [h, ofHex?_hex] at this
  exact (Option.some.inj this).symm

end ContentKey

end Docket
