import Docket.Proofs.Selector.Checking

/-!
# What the rewriting does to a selector

Spelling out equalities and collapsing negations act on every field on its own, so the two passes over the
clauses are one (`collapseClauses_spellEq`), and a field goes through `longhandField`.

* `signed`: a predicate under one negation or none.
* `expandShorthand_signed`, `expandShorthand_signed_ne`: `$ne` turns the sign of a test, other operators keep it.
* **`collapse_of_unwrapNot?`**: a chain of negations counts only by its parity.
* **`WrittenField.canonicalField`**, **`writtenField_of_checkedField`**: what may be written for a field becomes
  canonical, and nothing else passes the check afterwards.
* `clauseOver_longhandClause`, `clauseOver_of_longhandClause`: the same for clauses.
* `longhand_compound`, `longhand_fields`: whole selectors.
-/

namespace Docket.Selector

/-! ## Chains of negations -/

/-- A predicate under a negation, or as it is. -/
def signed (negated : Bool) (p : Value) : Value := if negated then .single "$not" p else p

theorem unwrapNot?_not (v : Value) :
    unwrapNot? (.single "$not" v) = (unwrapNot? v).map fun r => (r.1, !r.2) := by
  rw [Value.single, unwrapNot?, if_pos rfl]

theorem unwrapNot?_of_ne {op : String} (hop : op ≠ "$not") (v : Value) :
    unwrapNot? (.single op v) = some (.single op v, false) := by
  rw [Value.single, unwrapNot?, if_neg hop, Value.single]

/-- Under a chain of negations stands a map of one entry that is no negation. -/
theorem exists_of_unwrapNot? {p q : Value} {b : Bool} (h : unwrapNot? p = some (q, b)) :
    ∃ op v, op ≠ "$not" ∧ q = .single op v := by
  fun_induction unwrapNot? p generalizing b with
  | case1 v ih =>
    obtain ⟨r, hr, he⟩ := Option.map_eq_some_iff.1 h
    cases he
    exact ih hr
  | case2 op v hop =>
    cases h
    exact ⟨op, v, hop, rfl⟩
  | case3 => cases h

theorem shorthand?_of_ne {op : String} (he : op ≠ "$ne") :
    (Keyword.ofText? op).bind Keyword.shorthand? = none := by
  cases h : Keyword.ofText? op with
  | none => rfl
  | some k =>
    rw [Keyword.ofText?_eq_some] at h
    subst h
    cases k with
    | ne => exact absurd rfl he
    | junction j | not | compare c => rfl

theorem expandShorthand_of_ne {op : String} (hn : op ≠ "$not") (he : op ≠ "$ne") (v : Value) :
    expandShorthand (.single op v) = .single op v := by
  simp only [expandShorthand, Value.single?_single, shorthand?_of_ne he, if_neg hn]

theorem expandShorthand_not_of_ne {op : String} (he : op ≠ "$ne") (v : Value) :
    expandShorthand (.single "$not" (.single op v)) = .single "$not" (.single op v) := by
  have hnot : (Keyword.ofText? "$not").bind Keyword.shorthand? = none := rfl
  simp only [expandShorthand, Value.single?_single, hnot, shorthand?_of_ne he, if_true]

theorem expandShorthand_signed {op : String} (hn : op ≠ "$not") (he : op ≠ "$ne") (b : Bool) (v : Value) :
    expandShorthand (signed b (.single op v)) = signed b (.single op v) := by
  cases b
  · exact expandShorthand_of_ne hn he v
  · exact expandShorthand_not_of_ne he v

theorem expandShorthand_signed_ne (b : Bool) (v : Value) :
    expandShorthand (signed b (.single "$ne" v)) = signed (!b) (.single "$eq" v) := by
  cases b <;> rfl

theorem unwrapNot?_signed {op : String} (hop : op ≠ "$not") (b : Bool) (v : Value) :
    unwrapNot? (signed b (.single op v)) = some (.single op v, b) := by
  cases b
  · exact unwrapNot?_of_ne hop v
  · rw [signed, if_pos rfl, unwrapNot?_not, unwrapNot?_of_ne hop]
    rfl

theorem collapse_of_ne {op : String} (hop : op ≠ "$not") (v : Value) :
    collapse (.single op v) = expandShorthand (.single op v) := by
  simp only [collapse, Value.single?_single, if_neg hop]

/-- **A chain of negations counts only by its parity.** -/
theorem collapse_of_unwrapNot? {p q : Value} {b : Bool} (h : unwrapNot? p = some (q, b)) :
    collapse p = expandShorthand (signed b q) := by
  unfold unwrapNot? at h
  split at h
  · next op v =>
    split at h
    · next hop =>
      subst hop
      obtain ⟨⟨r, c⟩, hr, he⟩ := Option.map_eq_some_iff.1 h
      cases he
      change collapse (.single "$not" v) = _
      simp only [collapse, Value.single?_single, if_true, hr]
      cases c <;> rfl
    · next hop =>
      cases h
      exact collapse_of_ne hop v
  · cases h

theorem collapse_signed {op : String} (hn : op ≠ "$not") (he : op ≠ "$ne") (b : Bool) (v : Value) :
    collapse (signed b (.single op v)) = signed b (.single op v) := by
  rw [collapse_of_unwrapNot? (unwrapNot?_signed hn b v), expandShorthand_signed hn he]

theorem collapse_of_unwrapNot?_none {p : Value} (h : unwrapNot? p = none) : collapse p = p := by
  cases hs : p.single? with
  | none => simp only [collapse, hs]
  | some e =>
    obtain ⟨op, v⟩ := e
    obtain rfl := Value.eq_single_of_single? hs
    obtain rfl : op = "$not" := by
      by_contra hop
      rw [unwrapNot?_of_ne hop] at h
      cases h
    rw [unwrapNot?_not, Option.map_eq_none_iff] at h
    simp only [collapse, Value.single?_single, if_true, h]
    cases hv : v.single? with
    | none => simp only [expandShorthand, Value.single?_single, hv]; rfl
    | some e =>
      obtain ⟨inner, w⟩ := e
      obtain rfl := Value.eq_single_of_single? hv
      refine expandShorthand_not_of_ne (fun he => ?_) w
      rw [he, unwrapNot?_of_ne (by decide)] at h
      cases h

/-! ## Tests under a chain -/

theorem Comparison.text_ne_not (c : Comparison) : c.text ≠ "$not" := by cases c <;> decide

theorem Comparison.text_ne_ne (c : Comparison) : c.text ≠ "$ne" := by cases c <;> decide

theorem TestForm.canonicalField_signed {q : Value} (h : TestForm q) (b : Bool) :
    CanonicalField (expandShorthand (signed b q)) := by
  cases h with
  | compare h =>
    obtain @⟨c, v, hs⟩ := h
    rw [expandShorthand_signed c.text_ne_not c.text_ne_ne]
    cases b
    · exact .is (.compare hs)
    · exact .not (.compare hs)
  | @ne v hv =>
    have heq : ComparisonForm (.single Comparison.eq.text v) := .compare (.operand nofun hv)
    rw [expandShorthand_signed_ne]
    cases b
    · exact .not heq
    · exact .is heq

theorem testForm_single_eq {v : Value} : TestForm (.single "$eq" v) ↔ IsOperand v := by
  rw [← operandFits_ne]
  exact (@testForm_single (.compare .eq) trivial nofun v).trans (by cases v <;> rfl)

theorem testForm_single_ne {v : Value} : TestForm (.single "$ne" v) ↔ IsOperand v := by
  rw [← operandFits_ne]
  exact @testForm_single .ne trivial nofun v

theorem checkedField_not {v : Value} : CheckedField (.single "$not" v) ↔ TestForm v := by
  refine ⟨fun h => ?_, .not⟩
  generalize hp : Value.single "$not" v = p at h
  cases h with
  | is h => exact absurd (hp ▸ h) not_testForm_not
  | not h => cases hp; exact h

theorem checkedField_of_ne {op : String} (hop : op ≠ "$not") {v : Value} :
    CheckedField (.single op v) ↔ TestForm (.single op v) := by
  refine ⟨fun h => ?_, .is⟩
  generalize hp : Value.single op v = p at h ⊢
  cases h with
  | is h => exact h
  | not h => cases hp; exact absurd rfl hop

theorem testForm_of_checkedField_signed {op : String} (hop : op ≠ "$not") {v : Value} {b : Bool}
    (h : CheckedField (expandShorthand (signed b (.single op v)))) : TestForm (.single op v) := by
  by_cases he : op = "$ne"
  · subst he
    rw [testForm_single_ne]
    cases b
    · exact testForm_single_eq.1 (checkedField_not.1 h)
    · exact testForm_single_eq.1 ((checkedField_of_ne (by decide)).1 h)
  · rw [expandShorthand_signed hop he] at h
    cases b
    · exact (checkedField_of_ne hop).1 h
    · exact checkedField_not.1 h

/-! ## Predicates -/

theorem unwrapNot?_of_testForm {q : Value} (h : TestForm q) : unwrapNot? q = some (q, false) := by
  obtain ⟨k, v, -, hn, rfl, -⟩ := testForm_iff.1 h
  exact unwrapNot?_of_ne (fun he => hn (@Keyword.text_injective k .not he)) v

/-- A predicate as it is written is a test under a chain of negations. -/
theorem WrittenPredicate.exists_unwrapNot? {p : Value} (h : WrittenPredicate p) :
    ∃ q b, unwrapNot? p = some (q, b) ∧ TestForm q := by
  induction h with
  | test h => exact ⟨_, _, unwrapNot?_of_testForm h, h⟩
  | not _ ih =>
    obtain ⟨q, b, hp, hq⟩ := ih
    exact ⟨q, !b, by rw [unwrapNot?_not, hp]; rfl, hq⟩

theorem writtenPredicate_of_unwrapNot? {p q : Value} {b : Bool} (h : unwrapNot? p = some (q, b))
    (hq : TestForm q) : WrittenPredicate p := by
  fun_induction unwrapNot? p generalizing b with
  | case1 v ih =>
    obtain ⟨r, hr, he⟩ := Option.map_eq_some_iff.1 h
    cases he
    exact .not (ih hr)
  | case2 op v hop => cases h; exact .test hq
  | case3 => cases h

theorem unwrapNot?_isSome_of_checkedField {p : Value} (h : CheckedField p) : (unwrapNot? p).isSome := by
  cases h with
  | is h => rw [unwrapNot?_of_testForm h]; rfl
  | not h => rw [unwrapNot?_not, unwrapNot?_of_testForm h]; rfl

theorem WrittenPredicate.canonicalField_collapse {p : Value} (h : WrittenPredicate p) :
    CanonicalField (collapse p) := by
  obtain ⟨q, b, hp, hq⟩ := h.exists_unwrapNot?
  rw [collapse_of_unwrapNot? hp]
  exact hq.canonicalField_signed b

theorem writtenPredicate_of_checkedField_collapse {p : Value} (h : CheckedField (collapse p)) :
    WrittenPredicate p := by
  cases hp : unwrapNot? p with
  | none =>
    rw [collapse_of_unwrapNot?_none hp] at h
    have := unwrapNot?_isSome_of_checkedField h
    rw [hp] at this
    cases this
  | some r =>
    obtain ⟨q, b⟩ := r
    rw [collapse_of_unwrapNot? hp] at h
    obtain ⟨op, v, hop, rfl⟩ := exists_of_unwrapNot? hp
    exact writtenPredicate_of_unwrapNot? hp (testForm_of_checkedField_signed hop h)

/-! ## Fields -/

/-- A field in longhand: an operand that stands alone is compared by `$eq`, a predicate is collapsed. -/
def longhandField : Value → Value
  | .map entries => collapse (.map entries)
  | v => collapse (.single "$eq" v)

theorem WrittenPredicate.longhandField_eq {p : Value} (h : WrittenPredicate p) :
    longhandField p = collapse p := by
  obtain ⟨q, b, hp, -⟩ := h.exists_unwrapNot?
  cases p with
  | map entries => rfl
  | null | bool _ | num _ | str _ | list _ => cases hp

theorem collapse_eq (v : Value) : collapse (.single "$eq" v) = .single "$eq" v := by
  rw [collapse_of_ne (by decide), expandShorthand_of_ne (by decide) (by decide)]

theorem IsOperand.longhandField_eq {v : Value} (h : IsOperand v) : longhandField v = .single "$eq" v := by
  cases h with
  | str s => exact collapse_eq _
  | num h => exact collapse_eq _

/-- **What may be written for a field becomes canonical.** -/
theorem WrittenField.canonicalField {v : Value} (h : WrittenField v) : CanonicalField (longhandField v) := by
  cases h with
  | operand h =>
    rw [h.longhandField_eq]
    exact .is (.compare (c := .eq) (.operand nofun h))
  | predicate h =>
    rw [h.longhandField_eq]
    exact h.canonicalField_collapse

/-- **Nothing else passes the check afterwards.** -/
theorem writtenField_of_checkedField {v : Value} (h : CheckedField (longhandField v)) : WrittenField v := by
  cases v with
  | map entries => exact .predicate (writtenPredicate_of_checkedField_collapse h)
  | null | bool _ | num _ | str _ | list _ =>
    rw [longhandField, collapse_eq, checkedField_of_ne (by decide), testForm_single_eq] at h
    · exact .operand h
    · exact nofun

/-! ## Clauses -/

/-- A clause in longhand. -/
def longhandClause (c : Value) : Value := collapseClause (spellEqClause c)

theorem collapseClauses_spellEq (clauses : List Value) :
    collapseClauses (spellEq clauses) = clauses.map longhandClause := by
  induction clauses with
  | nil => rfl
  | cons c rest ih => rw [spellEq, collapseClauses, ih]; rfl

theorem longhandClause_field {name : String} (hname : ¬ IsOperator name) (v : Value) :
    longhandClause (.single name v) = .single name (longhandField v) := by
  cases v <;> simp only [longhandClause, Value.single, spellEqClause, if_neg hname, collapseClause] <;> rfl

theorem longhandClause_compound {op : String} (hop : IsOperator op) (clauses : List Value) :
    longhandClause (.single op (.list clauses)) = .single op (.list (clauses.map longhandClause)) := by
  simp only [longhandClause, Value.single, spellEqClause, if_pos hop, collapseClause, collapseClauses_spellEq]

theorem longhandClause_of_single?_eq_none {c : Value} (h : c.single? = none) : longhandClause c = c := by
  cases c with
  | map entries =>
    rcases entries with _ | ⟨e, _ | ⟨f, rest⟩⟩
    · rfl
    · cases h
    · rfl
  | null => rfl
  | bool b => rfl
  | num n => rfl
  | str s => rfl
  | list items => rfl

/-- The key of a clause stays; under a field the form of the field is rewritten, under an operator with a list
the clauses in it. -/
theorem exists_of_longhandClause {c w : Value} {key : String} (h : longhandClause c = .single key w) :
    (¬ IsOperator key ∧ ∃ v, c = .single key v ∧ w = longhandField v) ∨
      (IsOperator key ∧ ∀ clauses, w = .list clauses →
        ∃ raw, c = .single key (.list raw) ∧ clauses = raw.map longhandClause) := by
  cases hs : c.single? with
  | none =>
    rw [longhandClause_of_single?_eq_none hs] at h
    subst h
    cases hs
  | some e =>
    obtain ⟨op, v⟩ := e
    obtain rfl := Value.eq_single_of_single? hs
    by_cases hop : IsOperator op
    · right
      cases v with
      | list raw =>
        rw [longhandClause_compound hop] at h
        cases h
        exact ⟨hop, fun clauses hw => ⟨raw, rfl, by cases hw; rfl⟩⟩
      | null | bool _ | num _ | str _ | map _ =>
        simp only [longhandClause, Value.single, spellEqClause, if_pos hop, collapseClause] at h
        cases h
        exact ⟨hop, fun _ hw => by cases hw⟩
    · left
      rw [longhandClause_field hop] at h
      cases h
      exact ⟨hop, v, rfl, rfl⟩

theorem clauseOver_longhandClause {c : Value} (h : ClauseOver WrittenField c) :
    ClauseOver CanonicalField (longhandClause c) := by
  induction h with
  | field hname hv =>
    rw [longhandClause_field hname]
    exact .field hname hv.canonicalField
  | @junction j _ hne _ ih =>
    rw [longhandClause_compound j.isOperator_text]
    exact .junction (by simpa using hne) (List.forall_mem_map.2 ih)
  | not hne _ ih =>
    rw [longhandClause_compound isOperator_not]
    exact .not (by simpa using hne) (List.forall_mem_map.2 ih)

/-- A clause that passes the check in longhand is one that may be written. -/
theorem clauseOver_of_longhandClause {c : Value} (h : ClauseOver CheckedField (longhandClause c)) :
    ClauseOver WrittenField c := by
  generalize hc : longhandClause c = d at h
  induction h generalizing c with
  | @field name w hname hw =>
    obtain ⟨-, v, rfl, rfl⟩ | ⟨hop, -⟩ := exists_of_longhandClause hc
    · exact .field hname (writtenField_of_checkedField hw)
    · exact absurd hop hname
  | @junction j clauses hne _ ih =>
    obtain ⟨hname, -⟩ | ⟨-, hl⟩ := exists_of_longhandClause hc
    · exact absurd j.isOperator_text hname
    · obtain ⟨raw, rfl, rfl⟩ := hl clauses rfl
      exact .junction (by simpa using hne) fun c hm => ih _ (List.mem_map_of_mem hm) rfl
  | @not clauses hne _ ih =>
    obtain ⟨hname, -⟩ | ⟨-, hl⟩ := exists_of_longhandClause hc
    · exact absurd isOperator_not hname
    · obtain ⟨raw, rfl, rfl⟩ := hl clauses rfl
      exact .not (by simpa using hne) fun c hm => ih _ (List.mem_map_of_mem hm) rfl

/-! ## Selectors -/

theorem wrapFields_of_isOperator {op : String} (hop : IsOperator op) (v : Value) :
    wrapFields (.single op v) = .single op v := by
  rw [Value.single, wrapFields, if_pos ⟨_, List.mem_cons_self, hop⟩]

theorem longhand_compound {op : String} (hop : IsOperator op) (clauses : List Value) :
    longhand (.single op (.list clauses)) = .single op (.list (clauses.map longhandClause)) := by
  rw [longhand, wrapFields_of_isOperator hop, Value.single?_single]
  simp only [collapseClauses_spellEq]

/-- The clauses of a selector without operators. -/
def fieldClauses (entries : List (String × Value)) : List Value := entries.map fun e => .single e.1 e.2

theorem longhand_fields {entries : List (String × Value)} (h : ∀ e ∈ entries, ¬ IsOperator e.1) :
    longhand (.map entries) = .single "$and" (.list ((fieldClauses entries).map longhandClause)) := by
  have hw : wrapFields (.map entries) = .single "$and" (.list (fieldClauses entries)) := by
    rw [wrapFields, if_neg (by simpa using h), fieldClauses]
  rw [longhand, hw, Value.single?_single]
  simp only [collapseClauses_spellEq]

end Docket.Selector
