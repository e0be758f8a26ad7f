import Docket.Proofs.Revision.Codec

/-!
# How identifiers are written

An identifier is read from a decimal number, perhaps with a plus sign and zeros in front, the first dash and a digest
that may be any text. So it has many written forms, and printing gives one that reads back, also as JSON text
(**`RevisionId.parse_and_print`**).

* `RevisionId.Counts`: the texts that stand for a number.
* `RevisionId.parse?_eq_some_iff`: the texts that stand for an identifier.
* `RevisionId.Obtained`: the identifiers that are read or derived.
-/

namespace Docket.RevisionId

/-! ## Generations -/

/-- The text is a number in decimal, after a plus sign or without one. -/
def Counts (text : List Char) (n : Nat) : Prop :=
  ∃ sign ds, text = sign ++ ds ∧ (sign = [] ∨ sign = ['+']) ∧ ds ≠ [] ∧ (∀ c ∈ ds, c.isDigit = true) ∧
    Nat.ofDigitChars 10 ds 0 = n

/-- What follows the plus sign, if there is one. -/
def unsigned (text : List Char) : List Char := if text.head? = some '+' then text.drop 1 else text

theorem exists_sign (text : List Char) : ∃ sign, text = sign ++ unsigned text ∧ (sign = [] ∨ sign = ['+']) := by
  by_cases hplus : text.head? = some '+'
  · obtain ⟨rest, rfl⟩ := List.head?_eq_some_iff.1 hplus
    exact ⟨['+'], rfl, .inr rfl⟩
  · refine ⟨[], ?_, .inl rfl⟩
    simp [unsigned, hplus]

theorem unsigned_append {sign ds : List Char} (hsign : sign = [] ∨ sign = ['+'])
    (hdigits : ∀ c ∈ ds, c.isDigit = true) : unsigned (sign ++ ds) = ds := by
  rcases hsign with rfl | rfl
  · apply if_neg
    intro hplus
    have hdigit := hdigits '+' (List.mem_of_mem_head? hplus)
    exact absurd hdigit (by decide)
  · exact if_pos rfl

theorem counts_iff {text : List Char} {n : Nat} : Counts text n ↔
    unsigned text ≠ [] ∧ (∀ c ∈ unsigned text, c.isDigit = true) ∧ Nat.ofDigitChars 10 (unsigned text) 0 = n := by
  constructor
  · rintro ⟨sign, ds, rfl, hsign, hne, hdigits, hn⟩
    rw [unsigned_append hsign hdigits]
    exact ⟨hne, hdigits, hn⟩
  · rintro ⟨hne, hdigits, hn⟩
    obtain ⟨sign, htext, hsign⟩ := exists_sign text
    exact ⟨sign, unsigned text, htext, hsign, hne, hdigits, hn⟩

theorem generation?_eq_some_iff {text : List Char} {generation : UInt64} : generation? text = some generation ↔
    ∃ n, Counts text n ∧ n < 2 ^ 64 ∧ generation = UInt64.ofNat n := by
  have hread : generation? text =
      if unsigned text ≠ [] ∧ (unsigned text).all Char.isDigit ∧
          Nat.ofDigitChars 10 (unsigned text) 0 < UInt64.size then
        some (UInt64.ofNat (Nat.ofDigitChars 10 (unsigned text) 0))
      else none := rfl
  have hsize : UInt64.size = 2 ^ 64 := rfl
  simp only [hread, counts_iff, List.all_eq_true, hsize]
  constructor
  · intro h
    split at h
    · next hcond =>
      cases h
      obtain ⟨hne, hdigits, hlt⟩ := hcond
      exact ⟨_, ⟨hne, hdigits, rfl⟩, hlt, rfl⟩
    · cases h
  · rintro ⟨n, ⟨hne, hdigits, rfl⟩, hlt, rfl⟩
    exact if_pos ⟨hne, hdigits, hlt⟩

theorem Counts.dash_not_mem {text : List Char} {n : Nat} (h : Counts text n) : '-' ∉ text := by
  obtain ⟨sign, ds, rfl, hsign, -, hdigits, -⟩ := h
  intro hdash
  rcases List.mem_append.1 hdash with hdash | hdash
  · rcases hsign with rfl | rfl <;> simp at hdash
  · exact absurd (hdigits '-' hdash) (by decide)

/-! ## Reading -/

theorem ofNat_eq_zero_iff {n : Nat} (h : n < 2 ^ 64) : UInt64.ofNat n = 0 ↔ n = 0 := by
  rw [← UInt64.toNat_inj, UInt64.toNat_ofNat_of_lt' h]
  rfl

theorem ofChars?_eq_none {text : List Char} (h : '-' ∉ text) : ofChars? text = none := by
  rw [ofChars?]
  split
  · exact if_pos (.inr (.inl h))
  · rfl

/-- An identifier is read from a number that is not zero, the first dash and a digest that is not empty. -/
theorem parse?_eq_some_iff {s : String} {id : RevisionId} : parse? s = some id ↔
    ∃ before n after, s.toList = before ++ '-' :: after ∧ '-' ∉ before ∧ Counts before n ∧ 1 ≤ n ∧ n < 2 ^ 64 ∧
      after ≠ [] ∧ id = ⟨UInt64.ofNat n, String.ofList after⟩ := by
  rw [parse?]
  constructor
  · intro h
    by_cases hdash : '-' ∈ s.toList
    · obtain ⟨before, after, htext, hfirst⟩ := List.eq_append_cons_of_mem hdash
      rw [htext, ofChars?_dash hfirst] at h
      obtain ⟨generation, hgeneration, h⟩ := Option.bind_eq_some_iff.1 h
      obtain ⟨n, hn, hlt, rfl⟩ := generation?_eq_some_iff.1 hgeneration
      split at h
      · cases h
      · next hproper =>
        cases h
        rw [not_or, ofNat_eq_zero_iff hlt] at hproper
        exact ⟨before, n, after, htext, hfirst, hn, by omega, hlt, hproper.2, rfl⟩
    · rw [ofChars?_eq_none hdash] at h
      cases h
  · rintro ⟨before, n, after, htext, hfirst, hn, hpos, hlt, hafter, rfl⟩
    have hgeneration : generation? before = some (UInt64.ofNat n) := generation?_eq_some_iff.2 ⟨n, hn, hlt, rfl⟩
    rw [htext, ofChars?_dash hfirst, hgeneration, Option.bind_some]
    apply if_neg
    rw [not_or, ofNat_eq_zero_iff hlt]
    exact ⟨by omega, hafter⟩

/-! ## Identifiers that are read or derived -/

/-- The identifiers that are read, and those that are derived from them, one after another, or from none, as long as
the generation does not run over. -/
inductive Obtained : RevisionId → Prop where
  | parsed {s : String} {id : RevisionId} (h : parse? s = some id) : Obtained id
  | first (body : Json) : Obtained (derive none body)
  | next {parent : RevisionId} (h : Obtained parent) (hlt : parent.generation.toNat + 1 < 2 ^ 64) (body : Json) :
      Obtained (derive (some parent) body)

theorem Obtained.generation_ne_zero {id : RevisionId} (h : Obtained id) : id.generation ≠ 0 := by
  cases h with
  | parsed h =>
    obtain ⟨_, n, _, -, -, -, hpos, hlt, -, rfl⟩ := parse?_eq_some_iff.1 h
    intro hzero
    rw [ofNat_eq_zero_iff hlt] at hzero
    omega
  | first body => exact (by decide : (1 : UInt64) ≠ 0)
  | @next parent _ hlt body =>
    intro hzero
    have hnext := toNat_nextGeneration_some hlt
    rw [show nextGeneration (some parent) = 0 from hzero] at hnext
    exact absurd hnext.symm (Nat.succ_ne_zero _)

theorem Obtained.digest_ne_empty {id : RevisionId} (h : Obtained id) : id.digest ≠ "" := by
  cases h with
  | parsed h =>
    obtain ⟨_, _, after, -, -, -, -, -, hafter, rfl⟩ := parse?_eq_some_iff.1 h
    intro hempty
    apply hafter
    simpa using congrArg String.toList hempty
  | first body => exact digest_derive_ne none body
  | @next parent _ _ body => exact digest_derive_ne (some parent) body

theorem Obtained.parse?_text {id : RevisionId} (h : Obtained id) : parse? id.text = some id :=
  RevisionId.parse?_text h.generation_ne_zero h.digest_ne_empty

theorem parse?_json (id : RevisionId) :
    (Json.Literal.parse? (Json.str id.text).text.toList).bind Revision.id? = parse? id.text := by
  rw [Json.text, String.toList_ofList, Json.parse?_render_all, Option.bind_some, Json.literal, Revision.id?_str]

/-- **Identifiers are read exactly in their format and printed without loss.** A text is read as an identifier just if
there is a number from one up to the largest of sixty-four bits before its first dash, in decimal and perhaps after a
plus sign, and some text after it, and these are the generation and the digest. Each identifier that is read, or derived
along a chain, is read again from its text and from its JSON text, so two of them have different texts. -/
theorem parse_and_print :
    (∀ s id, parse? s = some id ↔
      ∃ before n after, s.toList = before ++ '-' :: after ∧ '-' ∉ before ∧ Counts before n ∧ 1 ≤ n ∧ n < 2 ^ 64 ∧
        after ≠ [] ∧ id = ⟨UInt64.ofNat n, String.ofList after⟩) ∧
    (∀ id, Obtained id → parse? id.text = some id ∧
      (Json.Literal.parse? (Json.str id.text).text.toList).bind Revision.id? = some id) ∧
    ∀ id other, Obtained id → Obtained other → id.text = other.text → id = other := by
  refine ⟨fun s id => parse?_eq_some_iff, fun id h => ⟨h.parse?_text, ?_⟩, fun id other h hother htext => ?_⟩
  · rw [parse?_json, h.parse?_text]
  · have hread := h.parse?_text
    rw [htext, hother.parse?_text] at hread
    exact (Option.some.inj hread).symm

/-- A digest with signs in it. -/
def padded : RevisionId := ⟨7, "-+1"⟩

theorem parse_and_print_padded : parse? "+007--+1" = some padded ∧ parse? padded.text = some padded ∧
    parse? (derive (some padded) .null).text = some (derive (some padded) .null) ∧
    padded.text ≠ (derive (some padded) .null).text := by
  obtain ⟨hreads, hprints, hinjective⟩ := parse_and_print
  have hdigits : ['0', '0', '7'].all Char.isDigit = true := rfl
  have hseven : Counts ['+', '0', '0', '7'] 7 :=
    ⟨['+'], ['0', '0', '7'], rfl, .inr rfl, by decide, List.all_eq_true.1 hdigits, rfl⟩
  have hpadded : parse? "+007--+1" = some padded :=
    (hreads _ _).2 ⟨_, 7, ['-', '+', '1'], rfl, hseven.dash_not_mem, hseven, by decide, by decide, by decide, rfl⟩
  have hobtained : Obtained padded := .parsed hpadded
  have hnext : Obtained (derive (some padded) .null) := .next hobtained (by decide) .null
  refine ⟨hpadded, (hprints _ hobtained).1, (hprints _ hnext).1, fun htext => ?_⟩
  have hgeneration := congrArg RevisionId.generation (hinjective _ _ hobtained hnext htext)
  exact absurd hgeneration (by decide)

end Docket.RevisionId
