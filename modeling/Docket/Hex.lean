import Docket.Bytes

/-!
# Lower-case hexadecimal text

A byte is written as two digits from `0123456789abcdef`. Reading takes exactly what writing produces.

* `Hex.encode`, `Hex.decode?`: bytes and their text.
* **`Hex.decode?_encode`**: what is written reads back.
* **`Hex.eq_encode_of_decode?`**: nothing else is read.
-/

namespace Docket.Hex

/-- The digit of a number below sixteen. -/
def digit (n : Nat) : Char := Nat.digitChar n

/-- The value of a lower-case digit. -/
def value? (c : Char) : Option Nat :=
  if 48 ≤ c.toNat ∧ c.toNat ≤ 57 then some (c.toNat - 48)
  else if 97 ≤ c.toNat ∧ c.toNat ≤ 102 then some (c.toNat - 87)
  else none

/-- Two digits a byte, the high half first. -/
def encode (bytes : Bytes) : List Char :=
  bytes.flatMap fun b => [digit (b.toNat / 16), digit (b.toNat % 16)]

/-- Reads pairs of lower-case digits to the end of the text. -/
def decode? : List Char → Option Bytes
  | [] => some []
  | [_] => none
  | h :: l :: rest => do
    let high ← value? h
    let low ← value? l
    let bytes ← decode? rest
    return UInt8.ofNat (16 * high + low) :: bytes

/-- The text of bytes as a string. -/
def text (bytes : Bytes) : String := String.ofList (encode bytes)

/-! ## Reading and writing -/

theorem value?_digit {n : Nat} (h : n < 16) : value? (digit n) = some n := by
  revert n; decide

theorem digit_eq_of_lt_ten : ∀ n : Fin 10, digit n.val = Char.ofNat (48 + n.val) := by decide

theorem digit_eq_of_ten_le : ∀ n : Fin 6, digit (10 + n.val) = Char.ofNat (97 + n.val) := by decide

theorem value?_eq_some {c : Char} {n : Nat} (h : value? c = some n) : n < 16 ∧ digit n = c := by
  unfold value? at h
  split at h
  next hc =>
    cases h
    have := digit_eq_of_lt_ten ⟨c.toNat - 48, by omega⟩
    simp only at this
    rw [this, show 48 + (c.toNat - 48) = c.toNat by omega, Char.ofNat_toNat]
    exact ⟨by omega, rfl⟩
  next hc =>
    split at h
    next hd =>
      cases h
      have := digit_eq_of_ten_le ⟨c.toNat - 97, by omega⟩
      simp only at this
      rw [show c.toNat - 87 = 10 + (c.toNat - 97) by omega, this,
        show 97 + (c.toNat - 97) = c.toNat by omega, Char.ofNat_toNat]
      exact ⟨by omega, rfl⟩
    next => cases h

@[simp] theorem encode_nil : encode [] = [] := rfl

@[simp] theorem encode_cons (b : UInt8) (bytes : Bytes) :
    encode (b :: bytes) = digit (b.toNat / 16) :: digit (b.toNat % 16) :: encode bytes := rfl

theorem length_encode (bytes : Bytes) : (encode bytes).length = 2 * bytes.length := by
  induction bytes with
  | nil => rfl
  | cons b bytes ih => simp only [encode_cons, List.length_cons, ih]; omega

/-- Nothing but lower-case digits is written. -/
theorem isSome_value?_of_mem_encode (bytes : Bytes) : ∀ c ∈ encode bytes, (value? c).isSome = true := by
  intro c hc
  obtain ⟨b, -, hc⟩ := List.mem_flatMap.1 hc
  have hb := b.toNat_lt
  have hhigh : value? (digit (b.toNat / 16)) = some (b.toNat / 16) := value?_digit (by omega)
  have hlow : value? (digit (b.toNat % 16)) = some (b.toNat % 16) := value?_digit (by omega)
  simp only [List.mem_cons, List.not_mem_nil, or_false] at hc
  rcases hc with rfl | rfl
  · exact Option.isSome_of_eq_some hhigh
  · exact Option.isSome_of_eq_some hlow

/-- What is written reads back. -/
@[simp] theorem decode?_encode (bytes : Bytes) : decode? (encode bytes) = some bytes := by
  induction bytes with
  | nil => rfl
  | cons b bytes ih =>
    have hb := b.toNat_lt
    have hh := value?_digit (n := b.toNat / 16) (by omega)
    have hl := value?_digit (n := b.toNat % 16) (by omega)
    simp only [encode_cons, decode?, hh, hl, ih, Option.bind_eq_bind, Option.bind_some,
      Option.pure_def, Nat.div_add_mod, UInt8.ofNat_toNat]

/-- Nothing else is read. -/
theorem eq_encode_of_decode? {text : List Char} {bytes : Bytes} (h : decode? text = some bytes) :
    text = encode bytes := by
  fun_induction decode? text generalizing bytes with
  | case1 => cases h; rfl
  | case2 => cases h
  | case3 a b rest ih =>
    simp only [Option.bind_eq_bind, Option.bind_eq_some_iff, Option.pure_def,
      Option.some.injEq] at h
    obtain ⟨high, hh, low, hl, tail, ht, rfl⟩ := h
    have ⟨hh₁, hh₂⟩ := value?_eq_some hh
    have ⟨hl₁, hl₂⟩ := value?_eq_some hl
    have hn : (UInt8.ofNat (16 * high + low)).toNat = 16 * high + low := by
      rw [UInt8.toNat_ofNat']; omega
    rw [encode_cons, hn, ← ih ht, show (16 * high + low) / 16 = high by omega,
      show (16 * high + low) % 16 = low by omega, hh₂, hl₂]

end Docket.Hex
