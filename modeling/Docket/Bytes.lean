/-!
# Bytes

Numbers and strings as bytes.

* `Bytes.bigEndian`: a number as eight bytes, the high byte first.
* `Text.bytes`: the bytes of a string.
* `Text.ofBytes?`: the string of bytes that encode one.
* **`Text.bytes_injective`**: a string is determined by its bytes.
-/

namespace Docket

/-- A sequence of bytes. -/
abbrev Bytes := List UInt8

/-- The low sixty-four bits of a number as eight bytes, the high byte first. -/
def Bytes.bigEndian (n : Nat) : Bytes := (List.range 8).map fun i => UInt8.ofNat (n >>> (8 * (7 - i)))

theorem Bytes.length_bigEndian (n : Nat) : (Bytes.bigEndian n).length = 8 := rfl

namespace Text

/-- The bytes of a string. -/
def bytes (s : String) : Bytes := s.toByteArray.data.toList

/-- The string that bytes encode. -/
def ofBytes? (bytes : Bytes) : Option String := String.fromUTF8? ⟨bytes.toArray⟩

theorem bytes_ofList (cs : List Char) :
    bytes (String.ofList cs) = cs.flatMap String.utf8EncodeChar := by
  simp [bytes, List.utf8Encode]

theorem bytes_injective {s t : String} (h : bytes s = bytes t) : s = t := by
  have h : s.toByteArray.data = t.toByteArray.data := Array.toList_inj.1 h
  exact String.toByteArray_inj.1 (ByteArray.ext h)

@[simp] theorem bytes_append (s t : String) : bytes (s ++ t) = bytes s ++ bytes t := by
  simp [bytes]

end Text

end Docket
