import Docket.Proofs.Json.Building
import Mathlib.Algebra.Ring.Nat

/-!
# Printed numbers

The text of a finite double is one word, and this word is a numeral: its first digits have no leading zero
because the shortest decimal of a number other than zero has digits. So all printed text is read back as the
tree of its value.

* `Binary64.shortest_digits_pos`: a number other than zero has digits.
* `Json.IsUnsigned`, `Json.unsignedNumeral`: the texts of numerals without a sign, and what is read for them.
* `Decimal.Spells`: a text spells a decimal, as the positional and the scientific text of a decimal do.
* `Json.exists_ofChars?_render_float`: the text of a double is read as a numeral of its shortest decimal.
* **`Json.parse?_render_all`**: printed text is read as the tree of its value, whatever its numbers are.
-/

namespace Docket

/-! ## Digits of the shortest decimal -/

namespace Binary64

variable {x : Binary64}

theorem lowerEnd_pos (h : x.mantissa ≠ 0) : 0 < x.lowerEnd := by
  have hquarters : 4 ≤ x.quarters := by
    unfold quarters
    omega
  unfold lowerEnd
  split <;> omega

theorem measure_pos (scale : Int) {a : Nat} (h : 0 < a) : 0 < x.measure scale a :=
  Nat.mul_pos (Nat.mul_pos h (Nat.pow_pos (by decide))) (Nat.pow_pos (by decide))

theorem Holds.digits_pos {d : Decimal} (h : x.Holds d) (hx : x.mantissa ≠ 0) : 0 < d.digits := by
  have hlow := measure_pos (x := x) d.scale (lowerEnd_pos hx)
  refine Nat.pos_of_ne_zero fun hzero => ?_
  unfold Holds at h
  simp only [hzero, Nat.zero_mul] at h
  split at h <;> omega

theorem holds_of_onGrid {tie : Tie} {scale : Int} {d : Decimal} (h : x.onGrid tie scale = some d) : x.Holds d := by
  unfold onGrid at h
  simp only at h
  split at h
  · next hbelow habove =>
    have hbelow := of_decide_eq_true hbelow
    have habove := of_decide_eq_true habove
    split at h
    · cases h
      exact hbelow
    · split at h
      · cases h
        exact habove
      · split at h
        · split at h <;> cases h
          · exact hbelow
          · exact habove
        · cases h
          exact habove
  · next hbelow _ =>
    cases h
    exact of_decide_eq_true hbelow
  · next _ habove =>
    cases h
    exact of_decide_eq_true habove
  · cases h

theorem shortest_digits_pos (tie : Tie) (hx : x.mantissa ≠ 0) : 0 < (x.shortest tie).digits := by
  rw [shortest, if_neg hx]
  cases hfound : (List.range 22).findSome? fun (i : Nat) => x.onGrid tie (x.coarsest - i) with
  | none =>
    have hquarters : 0 < x.quarters := by
      unfold quarters
      omega
    exact measure_pos _ hquarters
  | some d =>
    obtain ⟨i, -, hgrid⟩ := List.exists_of_findSome?_eq_some hfound
    exact (holds_of_onGrid hgrid).digits_pos hx

end Binary64

namespace Json

/-! ## Texts of numerals -/

/-- Every character is a digit. -/
def AreDigits (ds : List Char) : Prop := ∀ c ∈ ds, c.isDigit = true

/-- The text of a numeral without a sign: digits without a leading zero, perhaps a fraction, perhaps an
exponent. -/
structure IsUnsigned (ds fraction exponent : List Char) : Prop where
  whole : ds ≠ [] ∧ AreDigits ds ∧ (ds.head? = some '0' → ds = ['0'])
  fraction : fraction = [] ∨ ∃ fs, fs ≠ [] ∧ AreDigits fs ∧ fraction = '.' :: fs
  exponent : exponent = [] ∨
    ∃ sign es, sign ∈ ['+', '-'] ∧ es ≠ [] ∧ AreDigits es ∧ exponent = 'e' :: sign :: es

theorem areDigits_toDigits (n : Nat) : AreDigits (Nat.toDigits 10 n) := fun _ hc =>
  Nat.isDigit_of_mem_toDigits (by decide) (by decide) hc

theorem areDigits_replicate (n : Nat) : AreDigits (List.replicate n '0') := fun c hc => by
  rw [(List.mem_replicate.1 hc).2]
  decide

theorem digits_append {ds : List Char} (hds : AreDigits ds) (rest : List Char)
    (hrest : ∀ c ∈ rest.head?, c.isDigit = false) :
    Numeral.digits (ds ++ rest) = (ds, rest) := by
  have htail : rest.takeWhile Char.isDigit = [] ∧ rest.dropWhile Char.isDigit = rest := by
    cases rest with
    | nil => exact ⟨rfl, rfl⟩
    | cons c rest =>
      have hc : c.isDigit = false := hrest c rfl
      simp [hc]
  rw [Numeral.digits, List.takeWhile_append_of_pos hds, List.dropWhile_append_of_pos hds, htail.1, htail.2,
    List.append_nil]

theorem digits_all {ds : List Char} (hds : AreDigits ds) : Numeral.digits ds = (ds, []) := by
  have happend := digits_append hds [] fun _ hc => by cases hc
  rwa [List.append_nil] at happend

theorem signed?_plus {es : List Char} (hne : es ≠ []) (hes : AreDigits es) :
    Numeral.signed? ('+' :: es) = some (Numeral.ofDigits es : Int) := by
  simp [Numeral.signed?, digits_all hes, hne]

theorem signed?_minus {es : List Char} (hne : es ≠ []) (hes : AreDigits es) :
    Numeral.signed? ('-' :: es) = some (-(Numeral.ofDigits es : Int)) := by
  simp [Numeral.signed?, Numeral.sign, digits_all hes, hne]

variable {ds fraction exponent : List Char}

/-- The power of ten that an exponent stands for. -/
def shift (exponent : List Char) : Int := ((Numeral.exponent? exponent).getD none).getD 0

theorem shift_plus {es : List Char} (hne : es ≠ []) (hes : AreDigits es) :
    shift ('e' :: '+' :: es) = Numeral.ofDigits es := by
  rw [shift, Numeral.exponent?, if_pos (.inl rfl), signed?_plus hne hes]
  rfl

theorem shift_minus {es : List Char} (hne : es ≠ []) (hes : AreDigits es) :
    shift ('e' :: '-' :: es) = -(Numeral.ofDigits es : Int) := by
  rw [shift, Numeral.exponent?, if_pos (.inl rfl), signed?_minus hne hes]
  rfl

theorem IsUnsigned.exponent?_eq (h : IsUnsigned ds fraction exponent) :
    ∃ e, Numeral.exponent? exponent = some e ∧ e.getD 0 = shift exponent ∧ (e = none ↔ exponent = []) := by
  rcases h.exponent with rfl | ⟨sign, es, hsign, hne, hes, rfl⟩
  · exact ⟨none, rfl, rfl, by simp⟩
  · have hsigned : ∃ e, Numeral.signed? (sign :: es) = some e := by
      simp only [List.mem_cons, List.not_mem_nil, or_false] at hsign
      rcases hsign with rfl | rfl
      · exact ⟨_, signed?_plus hne hes⟩
      · exact ⟨_, signed?_minus hne hes⟩
    obtain ⟨e, he⟩ := hsigned
    have hexponent : Numeral.exponent? ('e' :: sign :: es) = some (some e) := by
      simp [Numeral.exponent?, he]
    exact ⟨some e, hexponent, by rw [shift, hexponent]; rfl, by simp⟩

theorem IsUnsigned.head_exponent (h : IsUnsigned ds fraction exponent) :
    ∀ c ∈ exponent.head?, c.isDigit = false ∧ c ≠ '.' := by
  intro c hc
  rcases h.exponent with rfl | ⟨sign, es, -, -, -, rfl⟩
  · cases hc
  · cases hc
    decide

/-- The digits end at the point, at the exponent or at the end. -/
theorem IsUnsigned.head_rest (h : IsUnsigned ds fraction exponent) :
    ∀ c ∈ (fraction ++ exponent).head?, c = '.' ∨ c = 'e' := by
  intro c hc
  rcases h.fraction with rfl | ⟨fs, -, -, rfl⟩
  · rcases h.exponent with rfl | ⟨sign, es, -, -, -, rfl⟩
    · cases hc
    · cases hc
      exact .inr rfl
  · cases hc
    exact .inl rfl

theorem IsUnsigned.fraction?_eq (h : IsUnsigned ds fraction exponent) :
    Numeral.fraction? (fraction ++ exponent) = some (fraction.tail, exponent) := by
  rcases h.fraction with rfl | ⟨fs, hne, hfs, rfl⟩
  · rw [List.nil_append]
    unfold Numeral.fraction?
    split
    · next rest => exact absurd rfl (h.head_exponent '.' rfl).2
    · rfl
  · rw [List.cons_append, Numeral.fraction?, digits_append hfs _ fun c hc => (h.head_exponent c hc).1]
    exact if_neg hne

theorem IsUnsigned.tail_eq_nil_iff (h : IsUnsigned ds fraction exponent) : fraction.tail = [] ↔ fraction = [] := by
  rcases h.fraction with rfl | ⟨fs, hne, -, rfl⟩
  · exact Iff.rfl
  · simp [hne]

theorem IsUnsigned.whole?_eq (h : IsUnsigned ds fraction exponent) :
    Numeral.whole? (ds ++ (fraction ++ exponent)) = some (ds, fraction ++ exponent) := by
  obtain ⟨hne, hds, hzero⟩ := h.whole
  have hhead : ∀ c ∈ (fraction ++ exponent).head?, c.isDigit = false := by
    intro c hc
    rcases h.head_rest c hc with rfl | rfl <;> decide
  rw [Numeral.whole?, digits_append hds _ hhead]
  refine if_neg ?_
  rintro (hnil | ⟨hhead, hne'⟩)
  · exact hne hnil
  · exact hne' (hzero hhead)

/-- The numeral of a text after its sign. -/
def unsignedNumeral (negative : Bool) (ds fraction exponent : List Char) : Numeral where
  negative
  coefficient := Numeral.ofDigits (ds ++ fraction.tail)
  scale := shift exponent - fraction.tail.length
  integral := fraction = [] ∧ exponent = []

theorem IsUnsigned.ofChars?_eq (h : IsUnsigned ds fraction exponent) (negative : Bool) :
    Numeral.ofChars? ((if negative then ['-'] else []) ++ (ds ++ (fraction ++ exponent))) =
      some (unsignedNumeral negative ds fraction exponent) := by
  obtain ⟨hne, hds, -⟩ := h.whole
  have hsign : Numeral.sign ((if negative then ['-'] else []) ++ (ds ++ (fraction ++ exponent))) =
      (negative, ds ++ (fraction ++ exponent)) := by
    cases negative with
    | true => rfl
    | false =>
      obtain ⟨c, rest, rfl⟩ := List.exists_cons_of_ne_nil hne
      have hc : c ≠ '-' := fun he => by
        have hdigit := hds c List.mem_cons_self
        rw [he] at hdigit
        exact absurd hdigit (by decide)
      show Numeral.sign (c :: _) = _
      unfold Numeral.sign
      split
      · next he =>
        cases he
        exact absurd rfl hc
      · rfl
  obtain ⟨e, hexponent, hshift, hnone⟩ := h.exponent?_eq
  unfold Numeral.ofChars? unsignedNumeral
  simp only [hsign, h.whole?_eq, h.fraction?_eq, hexponent, hshift, hnone, h.tail_eq_nil_iff, Option.bind_eq_bind,
    Option.bind_some, Option.pure_def]

/-- A numeral that is not written as an integer stands for a decimal, perhaps with zeros at its end. -/
structure Numeral.Writes (n : Numeral) (d : Decimal) : Prop where
  not_integral : n.integral = false
  exists_zeros : ∃ zeros : Nat, n.coefficient = d.digits * 10 ^ zeros ∧ n.scale = d.scale - zeros

theorem not_endsWord_of_mem {c : Char} (h : c ∈ ['-', '+', '.', 'e']) : ¬ Scanner.EndsWord c := by
  simp only [List.mem_cons, List.not_mem_nil, or_false] at h
  rcases h with rfl | rfl | rfl | rfl <;> decide

theorem IsUnsigned.not_endsWord (h : IsUnsigned ds fraction exponent) :
    ∀ c ∈ ds ++ (fraction ++ exponent), ¬ Scanner.EndsWord c := by
  intro c hc
  rw [List.mem_append, List.mem_append] at hc
  rcases hc with hc | hc | hc
  · exact not_endsWord_of_isDigit (h.whole.2.1 c hc)
  · rcases h.fraction with rfl | ⟨fs, -, hfs, rfl⟩
    · exact absurd hc List.not_mem_nil
    · rcases List.mem_cons.1 hc with rfl | hc
      · exact not_endsWord_of_mem (by decide)
      · exact not_endsWord_of_isDigit (hfs c hc)
  · rcases h.exponent with rfl | ⟨sign, es, hsign, -, hes, rfl⟩
    · exact absurd hc List.not_mem_nil
    · rcases List.mem_cons.1 hc with rfl | hc
      · exact not_endsWord_of_mem (by decide)
      · rcases List.mem_cons.1 hc with rfl | hc
        · simp only [List.mem_cons, List.not_mem_nil, or_false] at hsign
          rcases hsign with rfl | rfl <;> exact not_endsWord_of_mem (by decide)
        · exact not_endsWord_of_isDigit (hes c hc)

end Json

/-! ## Texts of doubles -/

namespace Decimal

open Json

theorem head_numerals {d : Decimal} (h : 0 < d.digits) : d.numerals.head? ≠ some '0' := head?_toDigits_ne h

theorem ofDigits_numerals (d : Decimal) : Numeral.ofDigits d.numerals = d.digits := Nat.ofDigitChars_ten_toDigits

theorem ofDigits_append_zeros (ds : List Char) (n : Nat) :
    Numeral.ofDigits (ds ++ List.replicate n '0') = Numeral.ofDigits ds * 10 ^ n := by
  rw [Numeral.ofDigits, Nat.ofDigitChars_append, Nat.ofDigitChars_replicate_zero, Nat.mul_comm]
  rfl

theorem ofDigits_zeros_append (n : Nat) (ds : List Char) :
    Numeral.ofDigits (List.replicate n '0' ++ ds) = Numeral.ofDigits ds := by
  rw [Numeral.ofDigits, Nat.ofDigitChars_append, Nat.ofDigitChars_replicate_zero, Nat.mul_zero]
  rfl

theorem length_numerals_pos (d : Decimal) : 0 < d.numerals.length := Nat.length_toDigits_pos

/-- The text of a decimal is that of a numeral without a sign, which stands for the decimal. -/
def Spells (d : Decimal) (text : List Char) : Prop :=
  ∃ ds fraction exponent, text = ds ++ (fraction ++ exponent) ∧ IsUnsigned ds fraction exponent ∧
    ∀ negative, (unsignedNumeral negative ds fraction exponent).Writes d

theorem spells_point {d : Decimal} {ds fs : List Char} (hne : ds ≠ []) (hds : AreDigits ds)
    (hzero : ds.head? = some '0' → ds = ['0']) (hne' : fs ≠ []) (hfs : AreDigits fs) (zeros : Nat)
    (hdigits : Numeral.ofDigits (ds ++ fs) = d.digits * 10 ^ zeros) (hscale : d.scale = zeros - fs.length) :
    d.Spells (ds ++ ['.'] ++ fs) := by
  refine ⟨ds, '.' :: fs, [], by simp, ⟨⟨hne, hds, hzero⟩, .inr ⟨fs, hne', hfs, rfl⟩, .inl rfl⟩,
    fun negative => ⟨rfl, zeros, hdigits, ?_⟩⟩
  show (0 - fs.length : Int) = d.scale - zeros
  omega

theorem spells_positional {d : Decimal} (h : 0 < d.digits) : d.Spells (d.positional true) := by
  have hne : d.numerals ≠ [] := Nat.toDigits_ne_nil
  have hall : AreDigits d.numerals := areDigits_toDigits d.digits
  have hlength := d.length_numerals_pos
  have hplace : d.place = d.numerals.length + d.scale := rfl
  unfold positional
  simp only
  split
  · next hle =>
    have hspells : d.Spells (['0'] ++ ['.'] ++ (List.replicate (-d.place).toNat '0' ++ d.numerals)) := by
      refine spells_point (by decide) (areDigits_replicate 1) (fun _ => rfl) ?_ ?_ 0 ?_ ?_
      · simp [hne]
      · exact List.forall_mem_append.2 ⟨areDigits_replicate _, hall⟩
      · show Numeral.ofDigits (List.replicate 1 '0' ++ _) = _
        rw [ofDigits_zeros_append, ofDigits_zeros_append, ofDigits_numerals, Nat.pow_zero, Nat.mul_one]
      · rw [List.length_append, List.length_replicate]
        omega
    rwa [← List.append_assoc] at hspells
  · next hpos =>
    split
    · next hle =>
      have hspells : d.Spells
          (d.numerals ++ List.replicate (d.place.toNat - d.numerals.length) '0' ++ ['.'] ++ ['0']) := by
        refine spells_point (by simp [hne]) (List.forall_mem_append.2 ⟨hall, areDigits_replicate _⟩)
          (fun hhead => ?_) (by decide) (areDigits_replicate 1) (d.place.toNat - d.numerals.length + 1) ?_ ?_
        · rw [List.head?_append_of_ne_nil _ hne] at hhead
          exact absurd hhead (head_numerals h)
        · show Numeral.ofDigits (_ ++ List.replicate 1 '0') = _
          rw [ofDigits_append_zeros, ofDigits_append_zeros, ofDigits_numerals, Nat.mul_assoc, ← Nat.pow_add]
        · rw [List.length_singleton]
          omega
      rwa [List.append_assoc] at hspells
    · next hlt =>
      refine spells_point ?_ (fun c hc => hall c (List.mem_of_mem_take hc)) (fun hhead => ?_) ?_
        (fun c hc => hall c (List.mem_of_mem_drop hc)) 0 ?_ ?_
      · rw [Ne, List.take_eq_nil_iff, not_or]
        exact ⟨by omega, hne⟩
      · rw [List.head?_take, if_neg (by omega)] at hhead
        exact absurd hhead (head_numerals h)
      · rw [Ne, List.drop_eq_nil_iff]
        exact hlt
      · rw [List.take_append_drop, ofDigits_numerals, Nat.pow_zero, Nat.mul_one]
      · rw [List.length_drop]
        omega

theorem spells_scientific {d : Decimal} (h : 0 < d.digits) : d.Spells d.scientific := by
  have hne : d.numerals ≠ [] := Nat.toDigits_ne_nil
  have hall : AreDigits d.numerals := areDigits_toDigits d.digits
  have hlength := d.length_numerals_pos
  have hplace : d.place = d.numerals.length + d.scale := rfl
  have htail : (if d.numerals.drop 1 = [] then [] else '.' :: d.numerals.drop 1).tail = d.numerals.drop 1 := by
    split
    · next hnil => rw [hnil, List.tail_nil]
    · rfl
  have hshift : shift (['e', if d.place - 1 < 0 then '-' else '+'] ++ Nat.toDigits 10 (d.place - 1).natAbs) =
      d.place - 1 := by
    have hdigits := areDigits_toDigits (d.place - 1).natAbs
    have hvalue : Numeral.ofDigits (Nat.toDigits 10 (d.place - 1).natAbs) = (d.place - 1).natAbs :=
      Nat.ofDigitChars_ten_toDigits
    split
    · refine (shift_minus Nat.toDigits_ne_nil hdigits).trans ?_
      rw [hvalue]
      omega
    · refine (shift_plus Nat.toDigits_ne_nil hdigits).trans ?_
      rw [hvalue]
      omega
  refine ⟨d.numerals.take 1, if d.numerals.drop 1 = [] then [] else '.' :: d.numerals.drop 1,
    ['e', if d.place - 1 < 0 then '-' else '+'] ++ Nat.toDigits 10 (d.place - 1).natAbs, ?_, ⟨⟨?_, ?_, ?_⟩, ?_, ?_⟩,
    fun negative => ⟨?_, 0, ?_, ?_⟩⟩
  · simp [scientific]
  · rw [Ne, List.take_eq_nil_iff, not_or]
    exact ⟨by decide, hne⟩
  · exact fun c hc => hall c (List.mem_of_mem_take hc)
  · intro hhead
    rw [List.head?_take, if_neg (by decide)] at hhead
    exact absurd hhead (head_numerals h)
  · split
    · exact .inl rfl
    · next hfraction => exact .inr ⟨_, hfraction, fun c hc => hall c (List.mem_of_mem_drop hc), rfl⟩
  · refine .inr ⟨if d.place - 1 < 0 then '-' else '+', _, ?_, Nat.toDigits_ne_nil,
      areDigits_toDigits (d.place - 1).natAbs, rfl⟩
    split <;> decide
  · exact decide_eq_false fun hnil => by cases hnil.2
  · rw [unsignedNumeral, htail, List.take_append_drop, ofDigits_numerals, Nat.pow_zero, Nat.mul_one]
  · show shift _ - (List.tail _).length = _
    rw [htail, hshift, List.length_drop]
    omega

end Decimal

namespace Json

/-- The text of a magnitude spells its shortest decimal. -/
theorem spells_magnitude (x : Binary64) : (x.shortest Layout.wire.tie).Spells (x.magnitudeText .wire) := by
  unfold Binary64.magnitudeText
  by_cases hx : x.mantissa = 0
  · have hzero : x.shortest Layout.wire.tie = ⟨0, 0⟩ := if_pos hx
    rw [hzero]
    have hone : AreDigits ['0'] := areDigits_replicate 1
    exact Decimal.spells_point (by decide) hone (fun _ => rfl) (by decide) hone 1 rfl rfl
  · have hpos : 0 < (x.shortest Layout.wire.tie).digits := Binary64.shortest_digits_pos _ hx
    simp only
    split
    · exact Decimal.spells_positional hpos
    · exact Decimal.spells_scientific hpos

theorem render_float {x : Binary64} (h : x.IsFinite) :
    (Number.float x h).render = (if x.negative then ['-'] else []) ++ x.magnitudeText .wire := by
  have hnan : ¬ x.IsNaN := fun hnan => by
    have hexponent : x.exponent.val < 2047 := h
    have := hnan.1
    omega
  rw [Number.render, Binary64.text, if_neg hnan, if_pos h]

theorem isWord_float {x : Binary64} (h : x.IsFinite) : (Number.float x h).IsWord := by
  obtain ⟨ds, fraction, exponent, htext, hunsigned, -⟩ := spells_magnitude x
  rw [Number.IsWord, render_float, htext]
  refine ⟨fun hnil => ?_, fun c hc => ?_⟩
  · rw [List.append_eq_nil_iff, List.append_eq_nil_iff] at hnil
    exact hunsigned.whole.1 hnil.2.1
  · rcases List.mem_append.1 hc with hsign | hc
    · split at hsign
      · rw [List.mem_singleton.1 hsign]
        exact not_endsWord_of_mem (by decide)
      · exact absurd hsign List.not_mem_nil
    · exact hunsigned.not_endsWord c hc

/-- **The text of a double is read as a numeral of its shortest decimal.** -/
theorem exists_ofChars?_render_float {x : Binary64} (h : x.IsFinite) : ∃ n : Numeral,
    Numeral.ofChars? (Number.float x h).render = some n ∧ n.negative = x.negative ∧
      n.Writes (x.shortest Layout.wire.tie) := by
  obtain ⟨ds, fraction, exponent, htext, hunsigned, hwrites⟩ := spells_magnitude x
  refine ⟨unsignedNumeral x.negative ds fraction exponent, ?_, rfl, hwrites x.negative⟩
  rw [render_float, htext]
  exact hunsigned.ofChars?_eq x.negative

/-- The text of a number that is read as some numeral is no other word. -/
theorem isNumeral_of_isSome {n : Number} (h : (Numeral.ofChars? n.render).isSome) : n.IsNumeral := by
  have hne : ∀ w : List Char, Numeral.ofChars? w = none → n.render ≠ w := fun w hw he => by
    rw [he, hw] at h
    cases h
  obtain ⟨numeral, hnumeral⟩ := Option.isSome_iff_exists.1 h
  rw [Number.IsNumeral, Number.numeral, Literal.ofWord?, if_neg (hne _ rfl), if_neg (hne _ rfl), if_neg (hne _ rfl),
    hnumeral]
  rfl

theorem isNumeral_float {x : Binary64} (h : x.IsFinite) : (Number.float x h).IsNumeral := by
  obtain ⟨n, hn, -⟩ := exists_ofChars?_render_float h
  exact isNumeral_of_isSome (Option.isSome_of_eq_some hn)

/-! ## All printed text -/

mutual

theorem numbersAre_of_forall {p : Number → Prop} (h : ∀ n, p n) : (v : Json) → NumbersAre p v
  | .null | .bool _ | .str _ => trivial
  | .num n => h n
  | .arr items => itemNumbersAre_of_forall h items
  | .obj entries => entryNumbersAre_of_forall h entries

theorem itemNumbersAre_of_forall {p : Number → Prop} (h : ∀ n, p n) : (items : List Json) → ItemNumbersAre p items
  | [] => trivial
  | v :: rest => ⟨numbersAre_of_forall h v, itemNumbersAre_of_forall h rest⟩

theorem entryNumbersAre_of_forall {p : Number → Prop} (h : ∀ n, p n) :
    (entries : List (String × Json)) → EntryNumbersAre p entries
  | [] => trivial
  | (_, v) :: rest => ⟨numbersAre_of_forall h v, entryNumbersAre_of_forall h rest⟩

end

theorem isWord (n : Number) : n.IsWord := by
  cases n with
  | integer n h => exact isWord_integer n h
  | float x h => exact isWord_float h

theorem isNumeral (n : Number) : n.IsNumeral := by
  cases n with
  | integer n h => exact isNumeral_integer n h
  | float x h => exact isNumeral_float h

/-- **Printed text is read as the tree of its value**, whatever its numbers are. -/
theorem parse?_render_all (v : Json) : Literal.parse? v.render = some v.literal :=
  parse?_render (numbersAre_of_forall isWord v) (numbersAre_of_forall isNumeral v)

end Json

end Docket
