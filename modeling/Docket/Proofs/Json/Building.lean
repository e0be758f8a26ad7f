import Docket.Proofs.Json.Scanning
import Mathlib.Data.List.Basic
import Mathlib.Data.List.TakeWhile

/-!
# The tree of printed text

The tokens of a printed value are built into a tree of its own shape. Numbers are read as numerals, and those
of an integer are exact.

* `Json.literal`: the tree of a value as it is printed.
* `Json.ofTokens?_tokens`: the tokens of a value give that tree.
* `Numeral.ofChars?_integerText`: what is read for an integer.
* **`Literal.parse?_render`**: printed text is read as the tree of its value.
-/

namespace Docket.Json

open Literal

/-! ## Numerals -/

/-- The numeral of a number as it is printed. -/
def Number.numeral (n : Number) : Numeral := (Numeral.ofChars? n.render).getD ⟨false, 0, 0, true⟩

/-- The text of a number is read as a numeral. -/
def Number.IsNumeral (n : Number) : Prop := ofWord? n.render = some (.num n.numeral)

theorem digits_toDigits (n : Nat) : Numeral.digits (Nat.toDigits 10 n) = (Nat.toDigits 10 n, []) := by
  have hall : ∀ c ∈ Nat.toDigits 10 n, c.isDigit = true := fun c hc =>
    Nat.isDigit_of_mem_toDigits (by decide) (by decide) hc
  rw [Numeral.digits, List.takeWhile_eq_self_iff.2 hall, List.dropWhile_eq_nil_iff.2 hall]

theorem head?_toDigits_ne {n : Nat} (hn : 0 < n) : (Nat.toDigits 10 n).head? ≠ some '0' := by
  induction n using Nat.strong_induction_on with
  | _ n ih =>
    by_cases hbase : n < 10
    · have hdigit : ∀ m : Fin 10, m.val ≠ 0 → Nat.digitChar m ≠ '0' := by decide
      rw [Nat.toDigits_of_lt_base hbase, List.head?_cons, Ne, Option.some.injEq]
      exact hdigit ⟨n, hbase⟩ (Nat.ne_of_gt hn)
    · have hle : 10 ≤ n := Nat.le_of_not_lt hbase
      rw [Nat.toDigits_of_base_le (by decide) hle, List.head?_append_of_ne_nil _ Nat.toDigits_ne_nil]
      exact ih (n / 10) (by omega) (by omega)

theorem whole?_toDigits (n : Nat) : Numeral.whole? (Nat.toDigits 10 n) = some (Nat.toDigits 10 n, []) := by
  rw [Numeral.whole?, digits_toDigits]
  refine if_neg ?_
  rintro (hnil | ⟨hhead, hne⟩)
  · exact Nat.toDigits_ne_nil hnil
  · rcases Nat.eq_zero_or_pos n with rfl | hpos
    · exact hne (Nat.toDigits_zero 10)
    · exact head?_toDigits_ne hpos hhead

theorem sign_toDigits (n : Nat) : Numeral.sign (Nat.toDigits 10 n) = (false, Nat.toDigits 10 n) := by
  cases h : Nat.toDigits 10 n with
  | nil => rfl
  | cons c rest =>
    have hc : c.isDigit = true :=
      Nat.isDigit_of_mem_toDigits (by decide) (by decide) (h ▸ List.mem_cons_self : c ∈ Nat.toDigits 10 n)
    rw [Numeral.sign]
    rintro rest' he
    cases he
    exact absurd hc (by decide)

theorem ofChars?_integerText (n : Int) :
    Numeral.ofChars? (integerText n) = some ⟨decide (n < 0), n.natAbs, 0, true⟩ := by
  have hsign : Numeral.sign (integerText n) = (decide (n < 0), Nat.toDigits 10 n.natAbs) := by
    by_cases hn : n < 0
    · rw [integerText, if_pos hn, decide_eq_true hn]
      rfl
    · rw [integerText, if_neg hn, decide_eq_false hn]
      exact sign_toDigits _
  unfold Numeral.ofChars?
  simp [hsign, whole?_toDigits, Numeral.fraction?, Numeral.exponent?, Numeral.ofDigits]


theorem ofWord?_integerText (n : Int) :
    ofWord? (integerText n) = some (.num ⟨decide (n < 0), n.natAbs, 0, true⟩) := by
  have hne : ∀ w : List Char, Numeral.ofChars? w = none → integerText n ≠ w := fun w hw he => by
    rw [← he, ofChars?_integerText] at hw
    cases hw
  rw [ofWord?, if_neg (hne _ rfl), if_neg (hne _ rfl), if_neg (hne _ rfl), ofChars?_integerText]
  rfl

theorem numeral_integer (n : Int) (h : InRange n) :
    (Number.integer n h).numeral = ⟨decide (n < 0), n.natAbs, 0, true⟩ := by
  rw [Number.numeral, Number.render, ofChars?_integerText]
  rfl

theorem isNumeral_integer (n : Int) (h : InRange n) : (Number.integer n h).IsNumeral := by
  rw [Number.IsNumeral, numeral_integer]
  exact ofWord?_integerText n

theorem mem_of_endsWord {c : Char} (h : Scanner.EndsWord c) :
    c ∈ [' ', '\n', '\t', '\r', '"', '[', ']', '{', '}', ',', ':'] := by
  rcases h with hblank | rfl | htoken
  · rcases hblank with rfl | rfl | rfl | rfl <;> decide
  · decide
  · unfold Token.ofChar? at htoken
    split at htoken
    · decide
    · decide
    · decide
    · decide
    · decide
    · decide
    · cases htoken

theorem not_endsWord_of_isDigit {c : Char} (hc : c.isDigit = true) : ¬ Scanner.EndsWord c := fun h => by
  have hnone : ([' ', '\n', '\t', '\r', '"', '[', ']', '{', '}', ',', ':'].all fun d => !d.isDigit) = true := by
    decide
  have hnot := List.all_eq_true.1 hnone c (mem_of_endsWord h)
  rw [hc] at hnot
  cases hnot

theorem isWord_integer (n : Int) (h : InRange n) : (Number.integer n h).IsWord := by
  rw [Number.IsWord, Number.render, integerText]
  refine ⟨fun hnil => Nat.toDigits_ne_nil (List.append_eq_nil_iff.1 hnil).2, fun c hc => ?_⟩
  rcases List.mem_append.1 hc with hsign | hc
  · split at hsign
    · rw [List.mem_singleton.1 hsign]
      decide
    · exact absurd hsign List.not_mem_nil
  · exact not_endsWord_of_isDigit (Nat.isDigit_of_mem_toDigits (by decide) (by decide) hc)

theorem natural?_numeral (n : UInt64) : (Number.integer n.toNat (inRange_toNat n)).numeral.natural? = some n := by
  have hlt : n.toNat < UInt64.size := n.toNat_lt
  rw [numeral_integer, Numeral.natural?]
  simp [hlt]

/-! ## Trees -/

mutual

/-- The tree of a value as it is printed. -/
def literal : Json → Literal
  | .null => .null
  | .bool b => .bool b
  | .num n => .num n.numeral
  | .str s => .str (Part.ofString s)
  | .arr items => .arr (itemLiterals items)
  | .obj entries => .obj (entryLiterals entries)

/-- The trees of items. -/
def itemLiterals : List Json → List Literal
  | [] => []
  | v :: rest => literal v :: itemLiterals rest

/-- The trees of entries. -/
def entryLiterals : List (String × Json) → List (List Part × Literal)
  | [] => []
  | (k, v) :: rest => (Part.ofString k, literal v) :: entryLiterals rest

end

/-- A value does not start with a closing bracket, so it may be the first item of a list. -/
theorem run?_firstItem (frames : List Builder.Frame) (v : Json) (rest : List Token) :
    (⟨frames, .firstItem⟩ : Builder).run? (v.tokens ++ rest) =
      (⟨.items [] :: frames, .value⟩ : Builder).run? (v.tokens ++ rest) := by
  cases v with
  | null => rfl
  | bool b => rfl
  | num n => rfl
  | str s => rfl
  | arr items => cases items <;> rfl
  | obj entries => cases entries <;> rfl

mutual

/-- The tokens of a value, where one is expected, are built into its tree. -/
theorem run?_tokens (frames : List Builder.Frame) : (v : Json) → NumbersAre Number.IsNumeral v →
    (⟨frames, .value⟩ : Builder).run? v.tokens = some ⟨frames, .after v.literal⟩
  | .null, _ => rfl
  | .bool true, _ => rfl
  | .bool false, _ => rfl
  | .num n, h => by
    have hword : ofWord? n.render = some (.num n.numeral) := h
    show ((ofWord? n.render).map fun v => (⟨frames, .after v⟩ : Builder)).bind _ = _
    rw [hword]
    rfl
  | .str s, _ => rfl
  | .arr [], _ => rfl
  | .arr (v :: rest), h => by
    rw [tokens, Builder.run?_cons]
    show Builder.run? ⟨frames, .firstItem⟩ _ = _
    rw [run?_firstItem, Builder.run?_append, run?_tokens (.items [] :: frames) v h.1, Option.bind_some,
      run?_itemTokens frames [] v.literal rest h.2]
    rfl
  | .obj [], _ => rfl
  | .obj ((k, v) :: rest), h => by
    rw [tokens, Builder.run?_cons]
    show Builder.run? ⟨.entries [] (Part.ofString k) :: frames, .value⟩ _ = _
    rw [Builder.run?_append, run?_tokens _ v h.1, Option.bind_some,
      run?_entryTokens frames [] (Part.ofString k) v.literal rest h.2]
    rfl

theorem run?_itemTokens (frames : List Builder.Frame) (done : List Literal) (u : Literal) :
    (rest : List Json) → ItemNumbersAre Number.IsNumeral rest →
    (⟨.items done :: frames, .after u⟩ : Builder).run? (itemTokens rest) =
      some ⟨frames, .after (.arr ((u :: done).reverse ++ itemLiterals rest))⟩
  | [], _ => by
    rw [itemLiterals, List.append_nil]
    rfl
  | v :: rest, h => by
    rw [itemTokens, Builder.run?_cons]
    show Builder.run? ⟨.items (u :: done) :: frames, .value⟩ _ = _
    rw [Builder.run?_append, run?_tokens _ v h.1, Option.bind_some,
      run?_itemTokens frames (u :: done) v.literal rest h.2, itemLiterals]
    simp

theorem run?_entryTokens (frames : List Builder.Frame) (done : List (List Part × Literal)) (key : List Part)
    (u : Literal) : (rest : List (String × Json)) → EntryNumbersAre Number.IsNumeral rest →
    (⟨.entries done key :: frames, .after u⟩ : Builder).run? (entryTokens rest) =
      some ⟨frames, .after (.obj (((key, u) :: done).reverse ++ entryLiterals rest))⟩
  | [], _ => by
    rw [entryLiterals, List.append_nil]
    rfl
  | (k, v) :: rest, h => by
    rw [entryTokens, Builder.run?_cons]
    show Builder.run? ⟨.entries ((key, u) :: done) (Part.ofString k) :: frames, .value⟩ _ = _
    rw [Builder.run?_append, run?_tokens _ v h.1, Option.bind_some,
      run?_entryTokens frames ((key, u) :: done) (Part.ofString k) v.literal rest h.2, entryLiterals]
    simp

end

theorem ofTokens?_tokens {v : Json} (h : NumbersAre Number.IsNumeral v) : ofTokens? v.tokens = some v.literal := by
  rw [ofTokens?, Builder.start, run?_tokens [] v h]
  rfl

/-- **Printed text is read as the tree of its value**, if its numbers are words that are numerals. -/
theorem parse?_render {v : Json} (hword : NumbersAre Number.IsWord v) (hnumeral : NumbersAre Number.IsNumeral v) :
    Literal.parse? v.render = some v.literal := by
  rw [Literal.parse?, scan?_render hword, Option.bind_some, ofTokens?_tokens hnumeral]

end Docket.Json
