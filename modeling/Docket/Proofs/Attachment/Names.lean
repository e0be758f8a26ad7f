import Docket.Proofs.Bytes
import Docket.Vault

/-!
# Names of contents

Keys and the names of their files determine each other. A name is taken for a key just if it has sixty-four characters,
all of them digits, and keys come in the order of their names. A reader that looks at the bytes of a name, turns away
those of another length and those with a capital, and then reads pairs of digits of either case, takes the same names.

* `Hex.IsDigit`: the digits.
* `Hex.inDigits`, `Hex.compare_inDigits`: bytes in digits of any kind, and their order.
* `Hex.decodePairs?`, `ContentKey.ofName?`: reading from the bytes of a name.
* `ContentKey.ofName?_eq`: it takes what is read from the characters.
* **`ContentKey.hex_faithful`**: keys and names.
-/

namespace Docket

namespace Hex

/-! ## Digits -/

/-- One of `0123456789abcdef`. -/
def IsDigit (c : Char) : Prop := ('0' ≤ c ∧ c ≤ '9') ∨ ('a' ≤ c ∧ c ≤ 'f')

instance (c : Char) : Decidable (IsDigit c) := by unfold IsDigit; infer_instance

theorem isSome_value?_iff {c : Char} : (value? c).isSome = true ↔ IsDigit c := by
  have hle : ∀ d : Char, d ≤ c ↔ d.toNat ≤ c.toNat := fun _ => Iff.rfl
  have hge : ∀ d : Char, c ≤ d ↔ c.toNat ≤ d.toNat := fun _ => Iff.rfl
  have hvalues : '0'.toNat = 48 ∧ '9'.toNat = 57 ∧ 'a'.toNat = 97 ∧ 'f'.toNat = 102 := by decide
  rw [IsDigit, hle, hge, hle, hge, hvalues.1, hvalues.2.1, hvalues.2.2.1, hvalues.2.2.2, value?]
  split
  · next h => exact ⟨fun _ => .inl h, fun _ => rfl⟩
  · next h =>
    split
    · next h' => exact ⟨fun _ => .inr h', fun _ => rfl⟩
    · next h' => exact ⟨nofun, fun hor => absurd hor (not_or.2 ⟨h, h'⟩)⟩

/-- Digits in pairs are read, whichever they are. -/
theorem isSome_decode?_iff {text : List Char} :
    (decode? text).isSome = true ↔ text.length % 2 = 0 ∧ ∀ c ∈ text, IsDigit c := by
  constructor
  · intro h
    obtain ⟨bytes, hbytes⟩ := Option.isSome_iff_exists.1 h
    rw [eq_encode_of_decode? hbytes]
    refine ⟨?_, fun c hc => isSome_value?_iff.1 (isSome_value?_of_mem_encode bytes c hc)⟩
    rw [length_encode]
    omega
  · rintro ⟨hlength, hdigits⟩
    fun_induction decode? text with
    | case1 => rfl
    | case2 c => cases hlength
    | case3 c d rest ih =>
      rw [List.forall_mem_cons, List.forall_mem_cons] at hdigits
      obtain ⟨high, hhigh⟩ := Option.isSome_iff_exists.1 (isSome_value?_iff.2 hdigits.1)
      obtain ⟨low, hlow⟩ := Option.isSome_iff_exists.1 (isSome_value?_iff.2 hdigits.2.1)
      have hrest : rest.length % 2 = 0 := by
        rw [List.length_cons, List.length_cons] at hlength
        omega
      obtain ⟨bytes, hbytes⟩ := Option.isSome_iff_exists.1 (ih hrest hdigits.2.2)
      rw [hhigh, hlow, hbytes]
      rfl

/-! ## Order -/

section Order

variable {α : Type} {digit : Nat → α}

/-- Two digits a byte, in digits of any kind. -/
def inDigits (digit : Nat → α) (bytes : Bytes) : List α :=
  bytes.flatMap fun b => [digit (b.toNat / 16), digit (b.toNat % 16)]

theorem inDigits_cons (b : UInt8) (bytes : Bytes) :
    inDigits digit (b :: bytes) = digit (b.toNat / 16) :: digit (b.toNat % 16) :: inDigits digit bytes := rfl

/-- Bytes are in the order of their high halves, and of their low halves where those are the same. -/
theorem compare_halves (b c : UInt8) :
    compare b c = (compare (b.toNat / 16) (c.toNat / 16)).then (compare (b.toNat % 16) (c.toNat % 16)) := by
  have hdigits := Bytes.compare_mul_add (Nat.mod_lt b.toNat (by decide : 0 < 16)) (Nat.mod_lt c.toNat (by decide))
    (b.toNat / 16) (c.toNat / 16)
  rwa [Nat.div_add_mod, Nat.div_add_mod, ← Bytes.compare_byte] at hdigits

/-- **Digits that are in the order of their values keep the order of bytes.** -/
theorem compare_inDigits [Ord α]
    (hdigit : ∀ m < 16, ∀ n < 16, compare (digit m) (digit n) = compare m n) (xs ys : Bytes) :
    compare (inDigits digit xs) (inDigits digit ys) = compare xs ys := by
  induction xs generalizing ys with
  | nil =>
    cases ys with
    | nil => rfl
    | cons c ys => rfl
  | cons b xs ih =>
    cases ys with
    | nil => rfl
    | cons c ys =>
      have hb := b.toNat_lt
      have hc := c.toNat_lt
      rw [inDigits_cons, inDigits_cons, List.compare_cons_cons, List.compare_cons_cons, List.compare_cons_cons, ih,
        hdigit _ (by omega) _ (by omega), hdigit _ (by omega) _ (by omega), compare_halves b c, Ordering.then_assoc]

end Order

theorem compare_ofList (xs ys : List Char) : compare (String.ofList xs) (String.ofList ys) = compare xs ys := by
  have hlt : (String.ofList xs < String.ofList ys) = (xs < ys) := by
    show ((String.ofList xs).toList < (String.ofList ys).toList) = _
    rw [String.toList_ofList, String.toList_ofList]
  have hwhole : compare (String.ofList xs) (String.ofList ys) = compareOfLessAndEq xs ys := by
    show compareOfLessAndEq (String.ofList xs) (String.ofList ys) = _
    unfold compareOfLessAndEq
    simp only [hlt, String.ofList_inj]
  rw [hwhole]
  clear hlt hwhole
  induction xs generalizing ys with
  | nil => cases ys <;> simp [compareOfLessAndEq]
  | cons x xs ih =>
    cases ys with
    | nil => simp [compareOfLessAndEq]
    | cons y ys =>
      rw [List.compare_cons_cons, ← ih]
      show _ = (compareOfLessAndEq x y).then _
      unfold compareOfLessAndEq
      simp only [List.cons_lt_cons_iff, List.cons.injEq]
      by_cases hlt : x < y
      · simp [hlt]
      · by_cases heq : x = y
        · simp [heq]
        · simp [hlt, heq]

theorem compare_digit : ∀ m < 16, ∀ n < 16, compare (digit m) (digit n) = compare m n := by decide

theorem compare_text (xs ys : Bytes) : compare (text xs) (text ys) = compare xs ys := by
  rw [text, text, compare_ofList]
  exact compare_inDigits compare_digit xs ys

/-! ## The bytes of a text -/

/-- The byte of a digit. -/
def digitByte (n : Nat) : UInt8 := UInt8.ofNat (digit n).toNat

theorem compare_digitByte : ∀ m < 16, ∀ n < 16, compare (digitByte m) (digitByte n) = compare m n := by decide

theorem utf8EncodeChar_digit : ∀ n < 16, String.utf8EncodeChar (digit n) = [digitByte n] := by decide

theorem bytes_text (bytes : Bytes) : Text.bytes (text bytes) = inDigits digitByte bytes := by
  rw [text, Text.bytes_ofList]
  induction bytes with
  | nil => rfl
  | cons b bytes ih =>
    have hb := b.toNat_lt
    rw [encode_cons, List.flatMap_cons, List.flatMap_cons, ih, utf8EncodeChar_digit _ (by omega),
      utf8EncodeChar_digit _ (by omega)]
    rfl

theorem length_inDigits {α : Type} (digit : Nat → α) (bytes : Bytes) :
    (inDigits digit bytes).length = 2 * bytes.length := by
  induction bytes with
  | nil => rfl
  | cons b bytes ih =>
    rw [inDigits_cons, List.length_cons, List.length_cons, ih, List.length_cons]
    omega

/-- A byte that is a capital letter. -/
def IsCapital (b : UInt8) : Prop := 65 ≤ b.toNat ∧ b.toNat ≤ 90

instance (b : UInt8) : Decidable (IsCapital b) := by unfold IsCapital; infer_instance

/-- The value of a byte that is a digit of either case. -/
def nibble? (b : UInt8) : Option Nat :=
  if 48 ≤ b.toNat ∧ b.toNat ≤ 57 then some (b.toNat - 48)
  else if 97 ≤ b.toNat ∧ b.toNat ≤ 102 then some (b.toNat - 87)
  else if 65 ≤ b.toNat ∧ b.toNat ≤ 70 then some (b.toNat - 55)
  else none

/-- Reads pairs of digits of either case to the end of the bytes. -/
def decodePairs? : Bytes → Option Bytes
  | [] => some []
  | [_] => none
  | h :: l :: rest => do
    let high ← nibble? h
    let low ← nibble? l
    let bytes ← decodePairs? rest
    return UInt8.ofNat (16 * high + low) :: bytes

theorem nibble?_digitByte : ∀ n < 16, nibble? (digitByte n) = some n := by decide

theorem not_isCapital_digitByte : ∀ n < 16, ¬ IsCapital (digitByte n) := by decide

theorem digitByte_of_lt_ten : ∀ n < 10, digitByte n = UInt8.ofNat (48 + n) := by decide

theorem digitByte_of_ten_le : ∀ n < 6, digitByte (10 + n) = UInt8.ofNat (97 + n) := by decide

theorem eq_digitByte {b : UInt8} {n : Nat} (h : nibble? b = some n) (hsmall : ¬ IsCapital b) :
    n < 16 ∧ b = digitByte n := by
  unfold nibble? at h
  split at h
  · cases h
    refine ⟨by omega, ?_⟩
    rw [digitByte_of_lt_ten _ (by omega), show 48 + (b.toNat - 48) = b.toNat by omega, UInt8.ofNat_toNat]
  · split at h
    · cases h
      refine ⟨by omega, ?_⟩
      rw [show b.toNat - 87 = 10 + (b.toNat - 97) by omega, digitByte_of_ten_le _ (by omega),
        show 97 + (b.toNat - 97) = b.toNat by omega, UInt8.ofNat_toNat]
    · split at h
      · next hcapital => exact absurd ⟨hcapital.1, by omega⟩ hsmall
      · cases h

theorem not_isCapital_of_mem {bytes : Bytes} {b : UInt8} (h : b ∈ inDigits digitByte bytes) : ¬ IsCapital b := by
  obtain ⟨c, -, hb⟩ := List.mem_flatMap.1 h
  have hc := c.toNat_lt
  simp only [List.mem_cons, List.not_mem_nil, or_false] at hb
  rcases hb with rfl | rfl
  · exact not_isCapital_digitByte _ (by omega)
  · exact not_isCapital_digitByte _ (by omega)

theorem decodePairs?_inDigits (bytes : Bytes) : decodePairs? (inDigits digitByte bytes) = some bytes := by
  induction bytes with
  | nil => rfl
  | cons b bytes ih =>
    have hb := b.toNat_lt
    rw [inDigits_cons, decodePairs?, nibble?_digitByte _ (by omega), nibble?_digitByte _ (by omega), ih]
    simp only [Option.bind_eq_bind, Option.bind_some, Option.pure_def, Nat.div_add_mod, UInt8.ofNat_toNat]

theorem eq_inDigits {name bytes : Bytes} (h : decodePairs? name = some bytes) (hsmall : ∀ b ∈ name, ¬ IsCapital b) :
    name = inDigits digitByte bytes := by
  fun_induction decodePairs? name generalizing bytes with
  | case1 =>
    cases h
    rfl
  | case2 => cases h
  | case3 high low rest ih =>
    rw [List.forall_mem_cons, List.forall_mem_cons] at hsmall
    simp only [Option.bind_eq_bind, Option.bind_eq_some_iff, Option.pure_def, Option.some.injEq] at h
    obtain ⟨m, hm, n, hn, tail, htail, rfl⟩ := h
    obtain ⟨hm, rfl⟩ := eq_digitByte hm hsmall.1
    obtain ⟨hn, rfl⟩ := eq_digitByte hn hsmall.2.1
    have hbyte : (UInt8.ofNat (16 * m + n)).toNat = 16 * m + n := by
      rw [UInt8.toNat_ofNat']
      omega
    rw [inDigits_cons, hbyte, ← ih htail hsmall.2.2, show (16 * m + n) / 16 = m by omega,
      show (16 * m + n) % 16 = n by omega]

end Hex

/-! ## Keys -/

namespace ContentKey

/-- The key of a name, from its bytes: there have to be sixty-four, no capital among them, all of them digits. -/
def ofName? (name : String) : Except AttachmentError ContentKey :=
  if (Text.bytes name).length ≠ 64 ∨ ∃ b ∈ Text.bytes name, Hex.IsCapital b then .error (.invalidKey name)
  else
    match Hex.decodePairs? (Text.bytes name) with
    | some bytes => if h : bytes.length = 32 then .ok ⟨bytes, h⟩ else .error (.invalidKey name)
    | none => .error (.invalidKey name)

theorem ofName?_hex (key : ContentKey) : ofName? key.hex = .ok key := by
  have hname : Text.bytes key.hex = Hex.inDigits Hex.digitByte key.bytes := Hex.bytes_text key.bytes
  have hpass : ¬ ((Text.bytes key.hex).length ≠ 64 ∨ ∃ b ∈ Text.bytes key.hex, Hex.IsCapital b) := by
    rw [hname, Hex.length_inDigits, key.length_bytes]
    rintro (hlength | ⟨b, hb, hcapital⟩)
    · exact hlength rfl
    · exact Hex.not_isCapital_of_mem hb hcapital
  rw [ofName?, if_neg hpass, hname, Hex.decodePairs?_inDigits]
  exact dif_pos key.length_bytes

theorem eq_hex_of_ofName? {name : String} {key : ContentKey} (h : ofName? name = .ok key) : name = key.hex := by
  unfold ofName? at h
  split at h
  · cases h
  · next hpass =>
    split at h
    · next bytes hbytes =>
      split at h
      · cases h
        have hsmall : ∀ b ∈ Text.bytes name, ¬ Hex.IsCapital b := fun b hb hcapital => hpass (.inr ⟨b, hb, hcapital⟩)
        apply Text.bytes_injective
        rw [Hex.eq_inDigits hbytes hsmall]
        exact (Hex.bytes_text bytes).symm
      · cases h
    · cases h

theorem ofName?_cases (name : String) : (∃ key, ofName? name = .ok key) ∨ ofName? name = .error (.invalidKey name) := by
  unfold ofName?
  split
  · exact .inr rfl
  · split
    · split
      · exact .inl ⟨_, rfl⟩
      · exact .inr rfl
    · exact .inr rfl

/-- **What is read from the bytes of a name is what is read from its characters.** -/
theorem ofName?_eq (name : String) : ofName? name = (ofHex? name).elim (.error (.invalidKey name)) .ok := by
  cases hkey : ofHex? name with
  | some key =>
    rw [ofHex?_eq_some.1 hkey]
    exact ofName?_hex key
  | none =>
    rcases ofName?_cases name with ⟨key, hname⟩ | hname
    · rw [eq_hex_of_ofName? hname, ofHex?_hex] at hkey
      cases hkey
    · exact hname

theorem exists_ofHex?_iff {name : String} :
    (∃ key, ofHex? name = some key) ↔ name.toList.length = 64 ∧ ∀ c ∈ name.toList, Hex.IsDigit c := by
  constructor
  · rintro ⟨key, hkey⟩
    rw [ofHex?_eq_some.1 hkey, hex, Hex.text, String.toList_ofList, Hex.length_encode, key.length_bytes]
    exact ⟨rfl, fun c hc => Hex.isSome_value?_iff.1 (Hex.isSome_value?_of_mem_encode key.bytes c hc)⟩
  · rintro ⟨hlength, hdigits⟩
    have heven : name.toList.length % 2 = 0 := by omega
    obtain ⟨bytes, hbytes⟩ := Option.isSome_iff_exists.1 (Hex.isSome_decode?_iff.2 ⟨heven, hdigits⟩)
    have hsize : bytes.length = 32 := by
      rw [Hex.eq_encode_of_decode? hbytes, Hex.length_encode] at hlength
      omega
    refine ⟨⟨bytes, hsize⟩, ?_⟩
    rw [ofHex?, hbytes]
    exact dif_pos hsize

/-- **Keys are in the order of their names**, by characters and by bytes. -/
theorem compare_hex (k l : ContentKey) : compare k.hex l.hex = compare k.bytes l.bytes ∧
    compare (Text.bytes k.hex) (Text.bytes l.hex) = compare k.bytes l.bytes := by
  refine ⟨Hex.compare_text k.bytes l.bytes, ?_⟩
  rw [hex, hex, Hex.bytes_text, Hex.bytes_text]
  exact Hex.compare_inDigits Hex.compare_digitByte k.bytes l.bytes

end ContentKey

/-- What the name of a staged file starts with. -/
def Blobs.stagingStart : String := "temp"

/-- No name of a staged file is that of a key. -/
theorem ContentKey.ofHex?_stagingStart (rest : String) : ofHex? (Blobs.stagingStart ++ rest) = none := by
  rw [Option.eq_none_iff_forall_ne_some]
  intro key hkey
  have hdigits := (exists_ofHex?_iff.1 ⟨key, hkey⟩).2
  have hfirst : 't' ∈ (Blobs.stagingStart ++ rest).toList := by
    rw [String.toList_append]
    exact List.mem_append_left _ (by decide)
  exact absurd (hdigits 't' hfirst) (by decide)

/-- A file is spared just if its name is that of a key that is still referred to. -/
theorem Vault.live_entry_iff {keys : List ContentKey} {name : String} :
    live keys (.entry name) = true ↔ ∃ key ∈ keys, name = key.hex := by
  rw [live, Option.any_eq_true]
  constructor
  · rintro ⟨key, hkey, hmem⟩
    exact ⟨key, of_decide_eq_true hmem, ContentKey.ofHex?_eq_some.1 hkey⟩
  · rintro ⟨key, hmem, rfl⟩
    exact ⟨key, ContentKey.ofHex?_hex key, decide_eq_true hmem⟩

/-- **Keys and names.** What is written for a key reads back as the key. A name is read just if it has sixty-four
characters, each one of `0123456789abcdef`, and then it is what is written for the key that is read; so it is when the
bytes of the name are looked at one after another, where everything else is turned away with the name. Keys are in the
order of their names, whether by characters or by bytes. No name of a staged file is read, and a file is spared by a
collection just if its name is written for a key that is referred to. -/
theorem ContentKey.hex_faithful :
    (∀ key, ofHex? key.hex = some key) ∧
    (∀ name, (∃ key, ofHex? name = some key) ↔ name.toList.length = 64 ∧ ∀ c ∈ name.toList, Hex.IsDigit c) ∧
    (∀ name key, ofHex? name = some key ↔ key.hex = name) ∧
    (∀ name, ofName? name = (ofHex? name).elim (.error (.invalidKey name)) .ok) ∧
    (∀ k l : ContentKey, compare k.hex l.hex = compare k.bytes l.bytes ∧
      compare (Text.bytes k.hex) (Text.bytes l.hex) = compare k.bytes l.bytes) ∧
    (∀ rest, ofHex? (Blobs.stagingStart ++ rest) = none) ∧
    ∀ keys name, Vault.live keys (.entry name) = true ↔ ∃ key ∈ keys, name = key.hex := by
  refine ⟨ofHex?_hex, fun _ => exists_ofHex?_iff, ?_, ofName?_eq, compare_hex, ofHex?_stagingStart,
    fun _ _ => Vault.live_entry_iff⟩
  intro name key
  rw [ofHex?_eq_some, eq_comm]

end Docket
