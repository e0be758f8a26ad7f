import Docket.Proofs.Json.Nesting

/-!
# The layout in lines

Blanks stand between tokens only. So the two layouts of a value have the same tokens, and a value in lines is read
just as the value without blanks.

* `Json.run?_line`: the start of a line ends a word and leaves no token.
* `Json.run?_mark`: a bracket, comma or colon ends a word and leaves itself.
* **`Json.scan?_indentedAt`**: the tokens of a value in lines are those of the value.
* `Json.ofText?_indented_eq`: what is printed in lines is read as what is printed without blanks.
-/

namespace Docket.Json

/-! ## Between words -/

section Between

variable {s : Scanner} {done : List Token}

theorem run?_blank (hs : s.Stands done) {c : Char} (hc : IsBlank c) (cs : List Char) :
    s.run? (c :: cs) = (⟨.between, done⟩ : Scanner).run? cs := by
  rw [Scanner.run?_cons, hs.step? (.inl hc), Scanner.begin, if_pos hc, Option.bind_some]

theorem run?_spaces (done : List Token) (n : Nat) (cs : List Char) :
    (⟨.between, done⟩ : Scanner).run? (List.replicate n ' ' ++ cs) = (⟨.between, done⟩ : Scanner).run? cs := by
  induction n with
  | zero => rfl
  | succ n ih => rw [List.replicate_succ, List.cons_append, run?_blank (.inl rfl) (.inl rfl), ih]

theorem run?_line (hs : s.Stands done) (depth : Nat) (cs : List Char) :
    s.run? (newline depth ++ cs) = (⟨.between, done⟩ : Scanner).run? cs := by
  rw [newline, List.cons_append, run?_blank hs (.inr (.inl rfl)), run?_spaces]

theorem begin_of_ofChar? {c : Char} {token : Token} (hc : Token.ofChar? c = some token) (done : List Token) :
    Scanner.begin done c = ⟨.between, token :: done⟩ := by
  unfold Token.ofChar? at hc
  split at hc <;> cases hc <;> rfl

/-- A bracket, comma or colon ends a word and leaves itself. -/
theorem run?_mark (hs : s.Stands done) {c : Char} {token : Token} (hc : Token.ofChar? c = some token)
    (cs : List Char) : s.run? (c :: cs) = (⟨.between, token :: done⟩ : Scanner).run? cs := by
  have hends : Scanner.EndsWord c := .inr (.inr (Option.isSome_of_eq_some hc))
  rw [Scanner.run?_cons, hs.step? hends, begin_of_ofChar? hc, Option.bind_some]

theorem run?_key (done : List Token) (k : String) (cs : List Char) :
    (⟨.between, done⟩ : Scanner).run? (Escape.quoted k ++ ':' :: ' ' :: cs) =
      (⟨.between, .colon :: .quoted (Part.ofString k) :: done⟩ : Scanner).run? cs := by
  rw [Scanner.run?_append, run?_quoted, Option.bind_some, run?_mark (.inl rfl) rfl, run?_blank (.inl rfl) (.inl rfl)]

end Between

/-! ## Values in lines -/

mutual

/-- After a value in lines the scanner stands after the tokens of the value. -/
theorem exists_run?_indentedAt (depth : Nat) (done : List Token) : (v : Json) →
    ∃ s, (⟨.between, done⟩ : Scanner).run? (v.indentedAt depth) = some s ∧ s.Stands (v.tokens.reverse ++ done)
  | .null => exists_run?_render done .null trivial
  | .bool b => exists_run?_render done (.bool b) trivial
  | .num n => exists_run?_render done (.num n) (isWord n)
  | .str s => exists_run?_render done (.str s) trivial
  | .arr [] => ⟨_, rfl, .inl rfl⟩
  | .arr (v :: rest) => by
    obtain ⟨s, hrun, hs⟩ := exists_run?_indentedAt (depth + 1) (.openList :: done) v
    obtain ⟨t, hrest, ht⟩ := exists_run?_indentedItems depth hs rest
    refine ⟨t, ?_, ?_⟩
    · rw [indentedAt, run?_mark (.inl rfl) rfl, List.append_assoc, run?_line (.inl rfl), Scanner.run?_append, hrun,
        Option.bind_some, hrest]
    · rw [tokens]
      simpa using ht
  | .obj [] => ⟨_, rfl, .inl rfl⟩
  | .obj ((k, v) :: rest) => by
    obtain ⟨s, hrun, hs⟩ :=
      exists_run?_indentedAt (depth + 1) (.colon :: .quoted (Part.ofString k) :: .openMap :: done) v
    obtain ⟨t, hrest, ht⟩ := exists_run?_indentedEntries depth hs rest
    refine ⟨t, ?_, ?_⟩
    · rw [indentedAt, run?_mark (.inl rfl) rfl, List.append_assoc, List.append_assoc, run?_line (.inl rfl),
        List.cons_append, List.cons_append, run?_key, Scanner.run?_append, hrun, Option.bind_some, hrest]
    · rw [tokens]
      simpa using ht

theorem exists_run?_indentedItems (depth : Nat) {s : Scanner} {done : List Token} (hs : s.Stands done) :
    (rest : List Json) →
    ∃ t, s.run? (indentedItems depth rest) = some t ∧ t.Stands ((itemTokens rest).reverse ++ done)
  | [] => by
    rw [indentedItems, run?_line hs, run?_mark (.inl rfl) rfl]
    exact ⟨_, rfl, .inl rfl⟩
  | v :: rest => by
    obtain ⟨t, hrun, ht⟩ := exists_run?_indentedAt (depth + 1) (.comma :: done) v
    obtain ⟨u, hrest, hu⟩ := exists_run?_indentedItems depth ht rest
    refine ⟨u, ?_, ?_⟩
    · rw [indentedItems, run?_mark hs rfl, List.append_assoc, run?_line (.inl rfl), Scanner.run?_append, hrun,
        Option.bind_some, hrest]
    · rw [itemTokens]
      simpa using hu

theorem exists_run?_indentedEntries (depth : Nat) {s : Scanner} {done : List Token} (hs : s.Stands done) :
    (rest : List (String × Json)) →
    ∃ t, s.run? (indentedEntries depth rest) = some t ∧ t.Stands ((entryTokens rest).reverse ++ done)
  | [] => by
    rw [indentedEntries, run?_line hs, run?_mark (.inl rfl) rfl]
    exact ⟨_, rfl, .inl rfl⟩
  | (k, v) :: rest => by
    obtain ⟨t, hrun, ht⟩ :=
      exists_run?_indentedAt (depth + 1) (.colon :: .quoted (Part.ofString k) :: .comma :: done) v
    obtain ⟨u, hrest, hu⟩ := exists_run?_indentedEntries depth ht rest
    refine ⟨u, ?_, ?_⟩
    · rw [indentedEntries, run?_mark hs rfl, List.append_assoc, List.append_assoc, run?_line (.inl rfl),
        List.cons_append, List.cons_append, run?_key, Scanner.run?_append, hrun, Option.bind_some, hrest]
    · rw [entryTokens]
      simpa using hu

end

/-- **The tokens of a value in lines are those of the value.** -/
theorem scan?_indentedAt (depth : Nat) (v : Json) : Token.scan? (v.indentedAt depth) = some v.tokens := by
  obtain ⟨s, hrun, hs⟩ := exists_run?_indentedAt depth [] v
  rw [Token.scan?, Scanner.start, hrun, Option.bind_some, hs.tokens?, List.append_nil, List.reverse_reverse]

theorem ofText?_indented_eq (v : Json) : ofText? v.indented = ofText? v.text := by
  have hcompact : Token.scan? v.render = some v.tokens := scan?_render (numbersAre_of_forall isWord v)
  rw [ofText?, ofText?, indented, text, String.toList_ofList, String.toList_ofList, parse?, parse?, Literal.parse?,
    Literal.parse?, scan?_indentedAt, hcompact]

end Docket.Json
