import Docket.Json.Printer
import Docket.Json.Reader
import Mathlib.Tactic.Common

/-!
# The tokens of printed text

Printed text is read back token by token: a string gives the parts of its characters, a number one word, and
every bracket, comma and colon itself.

* `Part.ofString`: the parts of a string as it is printed.
* `Json.tokens`: the tokens of a value as it is printed.
* **`Json.scan?_render`**: printed text has just these tokens, if its numbers are words.
-/

namespace Docket.Json

/-! ## Strings -/

/-- How a character is read back. A control character without a letter of its own comes as a unit. -/
def Part.ofChar (c : Char) : Part :=
  if c.toNat < 32 ∧ c ∉ ['\x08', '\x0c', '\n', '\r', '\t'] then .unit (UInt16.ofNat c.toNat) else .char c

/-- The parts of a string as it is printed. -/
def Part.ofString (s : String) : List Part := s.toList.map Part.ofChar

theorem chars?_unit {u : UInt16} (hlow : ¬ Part.IsLow u) (hhigh : ¬ Part.IsHigh u) (rest : List Part) :
    Part.chars? (.unit u :: rest) = (Part.chars? rest).map (Char.ofNat u.toNat :: ·) := by
  rw [Part.chars?.eq_def]
  simp only [if_neg hlow, if_neg hhigh]

theorem chars?_map_ofChar (cs : List Char) : Part.chars? (cs.map Part.ofChar) = some cs := by
  induction cs with
  | nil => rfl
  | cons c rest ih =>
    rw [List.map_cons, Part.ofChar]
    split
    · next h =>
      have hc : c.toNat < 65536 := by omega
      have hlow : ¬ Part.IsLow (UInt16.ofNat c.toNat) := by
        unfold Part.IsLow
        rw [UInt16.toNat_ofNat', Nat.mod_eq_of_lt hc]
        omega
      have hhigh : ¬ Part.IsHigh (UInt16.ofNat c.toNat) := by
        unfold Part.IsHigh
        rw [UInt16.toNat_ofNat', Nat.mod_eq_of_lt hc]
        omega
      rw [chars?_unit hlow hhigh, ih, UInt16.toNat_ofNat', Nat.mod_eq_of_lt hc, Char.ofNat_toNat]
      rfl
    · rw [Part.chars?, ih]
      rfl

@[simp] theorem string?_ofString (s : String) : Part.string? (Part.ofString s) = some s := by
  rw [Part.string?, Part.ofString, chars?_map_ofChar, Option.map_some, String.ofList_toList]

theorem hexCode_read {n : Nat} (hn : n < 32) : hexDigit? (Nat.digitChar (n / 16)) = some (n / 16) ∧
    hexDigit? (Nat.digitChar (n % 16)) = some (n % 16) := by
  revert n
  decide

theorem step?_digits {parts : List Part} {done : List Token} {value missing d : Nat} {c : Char}
    (h : hexDigit? c = some d) : (⟨.digits parts value missing, done⟩ : Scanner).step? c =
      some (if missing ≤ 1 then ⟨.quoted (.unit (UInt16.ofNat (16 * value + d)) :: parts), done⟩
        else ⟨.digits parts (16 * value + d) (missing - 1), done⟩) := by
  simp only [Scanner.step?, h, Option.map_some]

theorem run?_hexCode (parts : List Part) (done : List Token) {n : Nat} (hn : n < 32) :
    (⟨.quoted parts, done⟩ : Scanner).run? ('\\' :: 'u' :: Escape.hexCode n) =
      some ⟨.quoted (.unit (UInt16.ofNat n) :: parts), done⟩ := by
  obtain ⟨hhigh, hlow⟩ := hexCode_read hn
  have hvalue : 16 * (16 * 0 + n / 16) + n % 16 = n := by omega
  show (⟨.digits parts 0 2, done⟩ : Scanner).run? [Nat.digitChar (n / 16), Nat.digitChar (n % 16)] = _
  rw [Scanner.run?_cons, step?_digits hhigh, Option.bind_some, if_neg (by decide), Scanner.run?_cons,
    step?_digits hlow, Option.bind_some, if_pos (by decide), hvalue, Scanner.run?_nil]

theorem run?_char (parts : List Part) (done : List Token) (c : Char) :
    (⟨.quoted parts, done⟩ : Scanner).run? (Escape.char c) = some ⟨.quoted (Part.ofChar c :: parts), done⟩ := by
  by_cases hspecial : c ∈ ['"', '\\', '\x08', '\x0c', '\n', '\r', '\t']
  · simp only [List.mem_cons, List.not_mem_nil, or_false] at hspecial
    rcases hspecial with rfl | rfl | rfl | rfl | rfl | rfl | rfl <;> rfl
  · simp only [List.mem_cons, List.not_mem_nil, or_false, not_or] at hspecial
    obtain ⟨h1, h2, h3, h4, h5, h6, h7⟩ := hspecial
    rw [Escape.char, if_neg h1, if_neg h2, if_neg h3, if_neg h4, if_neg h5, if_neg h6, if_neg h7]
    by_cases hcontrol : c.toNat < 32
    · have hpart : Part.ofChar c = .unit (UInt16.ofNat c.toNat) := if_pos ⟨hcontrol, by simp [h3, h4, h5, h6, h7]⟩
      rw [if_pos hcontrol, hpart]
      exact run?_hexCode parts done hcontrol
    · have hpart : Part.ofChar c = .char c := if_neg fun h => hcontrol h.1
      rw [if_neg hcontrol, hpart]
      simp only [Scanner.run?_cons, Scanner.run?_nil, Scanner.step?, if_neg h1, if_neg h2, if_neg hcontrol]
      rfl

theorem run?_chars (parts : List Part) (done : List Token) (cs : List Char) :
    (⟨.quoted parts, done⟩ : Scanner).run? (cs.flatMap Escape.char) =
      some ⟨.quoted ((cs.map Part.ofChar).reverse ++ parts), done⟩ := by
  induction cs generalizing parts with
  | nil => rfl
  | cons c rest ih =>
    rw [List.flatMap_cons, Scanner.run?_append, run?_char, Option.bind_some, ih, List.map_cons,
      List.reverse_cons, List.append_assoc, List.singleton_append]

theorem run?_quoted (done : List Token) (s : String) :
    (⟨.between, done⟩ : Scanner).run? (Escape.quoted s) =
      some ⟨.between, .quoted (Part.ofString s) :: done⟩ := by
  have hopen : (⟨.between, done⟩ : Scanner).step? '"' = some ⟨.quoted [], done⟩ := rfl
  rw [Escape.quoted, Scanner.run?_cons, hopen, Option.bind_some, Scanner.run?_append, run?_chars,
    Option.bind_some, List.append_nil]
  simp only [Scanner.run?_cons, Scanner.run?_nil, Scanner.step?, List.reverse_reverse]
  rfl

/-! ## Words -/

theorem not_endsWord_of_all {cs : List Char} (h : (cs.all fun c => decide (¬ Scanner.EndsWord c)) = true) :
    ∀ c ∈ cs, ¬ Scanner.EndsWord c := fun c hc => of_decide_eq_true (List.all_eq_true.1 h c hc)

theorem run?_letters (letters : List Char) (done : List Token) {cs : List Char}
    (h : ∀ c ∈ cs, ¬ Scanner.EndsWord c) :
    (⟨.word letters, done⟩ : Scanner).run? cs = some ⟨.word (cs.reverse ++ letters), done⟩ := by
  induction cs generalizing letters with
  | nil => rfl
  | cons c rest ih =>
    rw [List.forall_mem_cons] at h
    have hstep : (⟨.word letters, done⟩ : Scanner).step? c = some ⟨.word (c :: letters), done⟩ := if_neg h.1
    rw [Scanner.run?_cons, hstep, Option.bind_some, ih (c :: letters) h.2, List.reverse_cons, List.append_assoc,
      List.singleton_append]

/-- Letters that are no token of their own begin a word. -/
theorem run?_word (done : List Token) {cs : List Char} (hne : cs ≠ []) (h : ∀ c ∈ cs, ¬ Scanner.EndsWord c) :
    (⟨.between, done⟩ : Scanner).run? cs = some ⟨.word cs.reverse, done⟩ := by
  obtain ⟨c, rest, rfl⟩ := List.exists_cons_of_ne_nil hne
  rw [List.forall_mem_cons] at h
  obtain ⟨hc, hrest⟩ := h
  have hstep : (⟨.between, done⟩ : Scanner).step? c = some ⟨.word [c], done⟩ := by
    unfold Scanner.EndsWord at hc
    rw [not_or, not_or] at hc
    obtain ⟨hblank, hquote, htoken⟩ := hc
    rw [Option.not_isSome_iff_eq_none] at htoken
    simp only [Scanner.step?, Scanner.begin, if_neg hblank, if_neg hquote, htoken]
  rw [Scanner.run?_cons, hstep, Option.bind_some, run?_letters [c] done hrest, List.reverse_cons]

/-! ## Values -/

/-- The text of a number is one word. -/
def Number.IsWord (n : Number) : Prop := n.render ≠ [] ∧ ∀ c ∈ n.render, ¬ Scanner.EndsWord c

mutual

/-- Every number in a value has a property. -/
def NumbersAre (p : Number → Prop) : Json → Prop
  | .num n => p n
  | .arr items => ItemNumbersAre p items
  | .obj entries => EntryNumbersAre p entries
  | _ => True

/-- Every number in items has a property. -/
def ItemNumbersAre (p : Number → Prop) : List Json → Prop
  | [] => True
  | v :: rest => NumbersAre p v ∧ ItemNumbersAre p rest

/-- Every number in entries has a property. -/
def EntryNumbersAre (p : Number → Prop) : List (String × Json) → Prop
  | [] => True
  | (_, v) :: rest => NumbersAre p v ∧ EntryNumbersAre p rest

end

mutual

/-- The tokens of a value as it is printed. -/
def tokens : Json → List Token
  | .null => [.word ['n', 'u', 'l', 'l']]
  | .bool b => [.word (renderBool b)]
  | .num n => [.word n.render]
  | .str s => [.quoted (Part.ofString s)]
  | .arr [] => [.openList, .closeList]
  | .arr (v :: rest) => .openList :: (tokens v ++ itemTokens rest)
  | .obj [] => [.openMap, .closeMap]
  | .obj ((k, v) :: rest) =>
    .openMap :: .quoted (Part.ofString k) :: .colon :: (tokens v ++ entryTokens rest)

/-- The tokens of the items after the first one, and of the closing bracket. -/
def itemTokens : List Json → List Token
  | [] => [.closeList]
  | v :: rest => .comma :: (tokens v ++ itemTokens rest)

/-- The tokens of the entries after the first one, and of the closing brace. -/
def entryTokens : List (String × Json) → List Token
  | [] => [.closeMap]
  | (k, v) :: rest => .comma :: .quoted (Part.ofString k) :: .colon :: (tokens v ++ entryTokens rest)

end

/-- The scanner stands after these tokens, the last one first; a word may still be open. -/
def Scanner.Stands (s : Scanner) (done : List Token) : Prop :=
  s = ⟨.between, done⟩ ∨ ∃ letters rest, s = ⟨.word letters, rest⟩ ∧ done = .word letters.reverse :: rest

theorem Scanner.Stands.step? {s : Scanner} {done : List Token} (h : s.Stands done) {c : Char} (hc : EndsWord c) :
    s.step? c = some (begin done c) := by
  rcases h with rfl | ⟨letters, rest, rfl, rfl⟩
  · rfl
  · exact if_pos hc

theorem Scanner.Stands.tokens? {s : Scanner} {done : List Token} (h : s.Stands done) :
    s.tokens? = some done.reverse := by
  rcases h with rfl | ⟨letters, rest, rfl, rfl⟩ <;> rfl

theorem exists_run?_word (done : List Token) {cs : List Char} (hne : cs ≠ [])
    (h : ∀ c ∈ cs, ¬ Scanner.EndsWord c) :
    ∃ s, (⟨.between, done⟩ : Scanner).run? cs = some s ∧ s.Stands (.word cs :: done) :=
  ⟨_, run?_word done hne h, .inr ⟨cs.reverse, done, rfl, by rw [List.reverse_reverse]⟩⟩

mutual

/-- After a value the scanner stands after its tokens. -/
theorem exists_run?_render (done : List Token) : (v : Json) → NumbersAre Number.IsWord v →
    ∃ s, (⟨.between, done⟩ : Scanner).run? v.render = some s ∧ s.Stands (v.tokens.reverse ++ done)
  | .null, _ => exists_run?_word done (by decide) (not_endsWord_of_all (by decide))
  | .bool true, _ => exists_run?_word done (by decide) (not_endsWord_of_all (by decide))
  | .bool false, _ => exists_run?_word done (by decide) (not_endsWord_of_all (by decide))
  | .num n, h => exists_run?_word done h.1 h.2
  | .str s, _ => ⟨_, run?_quoted done s, .inl rfl⟩
  | .arr [], _ => ⟨_, rfl, .inl rfl⟩
  | .arr (v :: rest), h => by
    obtain ⟨s, hrun, hs⟩ := exists_run?_render (.openList :: done) v h.1
    obtain ⟨t, hrest, ht⟩ := exists_run?_renderItems hs rest h.2
    refine ⟨t, ?_, ?_⟩
    · rw [render, Scanner.run?_cons]
      show Scanner.run? ⟨.between, .openList :: done⟩ _ = _
      rw [Scanner.run?_append, hrun, Option.bind_some, hrest]
    · rw [tokens, List.reverse_cons, List.reverse_append, List.append_assoc, List.append_assoc,
        List.singleton_append]
      exact ht
  | .obj [], _ => ⟨_, rfl, .inl rfl⟩
  | .obj ((k, v) :: rest), h => by
    obtain ⟨s, hrun, hs⟩ := exists_run?_render (.colon :: .quoted (Part.ofString k) :: .openMap :: done) v h.1
    obtain ⟨t, hrest, ht⟩ := exists_run?_renderEntries hs rest h.2
    refine ⟨t, ?_, ?_⟩
    · rw [render, Scanner.run?_cons]
      show Scanner.run? ⟨.between, .openMap :: done⟩ _ = _
      rw [Scanner.run?_append, run?_quoted, Option.bind_some, Scanner.run?_cons]
      show Scanner.run? ⟨.between, .colon :: .quoted (Part.ofString k) :: .openMap :: done⟩ _ = _
      rw [Scanner.run?_append, hrun, Option.bind_some, hrest]
    · rw [tokens]
      simpa using ht

theorem exists_run?_renderItems {s : Scanner} {done : List Token} (hs : s.Stands done) :
    (rest : List Json) → ItemNumbersAre Number.IsWord rest →
    ∃ t, s.run? (renderItems rest) = some t ∧ t.Stands ((itemTokens rest).reverse ++ done)
  | [], _ => by
    rw [renderItems, Scanner.run?_cons, hs.step? (by decide)]
    exact ⟨_, rfl, .inl rfl⟩
  | v :: rest, h => by
    obtain ⟨t, hrun, ht⟩ := exists_run?_render (.comma :: done) v h.1
    obtain ⟨u, hrest, hu⟩ := exists_run?_renderItems ht rest h.2
    refine ⟨u, ?_, ?_⟩
    · rw [renderItems, Scanner.run?_cons, hs.step? (by decide), Option.bind_some]
      show Scanner.run? ⟨.between, .comma :: done⟩ _ = _
      rw [Scanner.run?_append, hrun, Option.bind_some, hrest]
    · rw [itemTokens]
      simpa using hu

theorem exists_run?_renderEntries {s : Scanner} {done : List Token} (hs : s.Stands done) :
    (rest : List (String × Json)) → EntryNumbersAre Number.IsWord rest →
    ∃ t, s.run? (renderEntries rest) = some t ∧ t.Stands ((entryTokens rest).reverse ++ done)
  | [], _ => by
    rw [renderEntries, Scanner.run?_cons, hs.step? (by decide)]
    exact ⟨_, rfl, .inl rfl⟩
  | (k, v) :: rest, h => by
    obtain ⟨t, hrun, ht⟩ := exists_run?_render (.colon :: .quoted (Part.ofString k) :: .comma :: done) v h.1
    obtain ⟨u, hrest, hu⟩ := exists_run?_renderEntries ht rest h.2
    refine ⟨u, ?_, ?_⟩
    · rw [renderEntries, Scanner.run?_cons, hs.step? (by decide), Option.bind_some]
      show Scanner.run? ⟨.between, .comma :: done⟩ _ = _
      rw [Scanner.run?_append, run?_quoted, Option.bind_some, Scanner.run?_cons]
      show Scanner.run? ⟨.between, .colon :: .quoted (Part.ofString k) :: .comma :: done⟩ _ = _
      rw [Scanner.run?_append, hrun, Option.bind_some, hrest]
    · rw [entryTokens]
      simpa using hu

end

/-- Printed text has just the tokens of its value, if its numbers are words. -/
theorem scan?_render {v : Json} (h : NumbersAre Number.IsWord v) : Token.scan? v.render = some v.tokens := by
  obtain ⟨s, hrun, hs⟩ := exists_run?_render [] v h
  rw [Token.scan?, Scanner.start, hrun, Option.bind_some, hs.tokens?, List.append_nil, List.reverse_reverse]

end Docket.Json
