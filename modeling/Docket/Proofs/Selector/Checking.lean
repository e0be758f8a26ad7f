import Docket.Proofs.Value.Members
import Docket.Selector.Check
import Docket.Selector.Grammar
import Mathlib.Tactic.Common

/-!
# What the check accepts

The check reads a selector from the outside in and stops at the first fault. It passes exactly the language
of checked selectors (**`check_eq_ok_iff`**), level by level.

* `operandFits_ne`, `operandFits_compare`: operands.
* `checkPredicate_true_eq_ok_iff`, `checkPredicate_false_eq_ok_iff`: what a field holds, under a negation and not.
* `checkClause_eq_ok_iff`, `checkCompound_eq_ok_iff`: clauses and lists of them.
-/

namespace Docket.Selector

/-! ## Shapes -/

theorem Junction.isOperator_text (j : Junction) : IsOperator j.text := Keyword.isOperator_text (.junction j)

theorem isOperator_not : IsOperator "$not" := rfl

theorem ofText?_eq_none_of_not_isOperator {name : String} (hname : ¬ IsOperator name) :
    Keyword.ofText? name = none := by
  by_contra h
  obtain ⟨k, hk⟩ := Option.ne_none_iff_exists'.1 h
  rw [Keyword.ofText?_eq_some] at hk
  exact hname (hk ▸ k.isOperator_text)

theorem ClauseOver.of_field {F : Value → Prop} {name : String} (hname : ¬ IsOperator name) {v : Value}
    (h : ClauseOver F (.single name v)) : F v := by
  generalize hc : Value.single name v = c at h
  cases h with
  | field _ hv => exact (Value.single_inj.1 hc).2 ▸ hv
  | @junction j => exact absurd ((Value.single_inj.1 hc).1 ▸ j.isOperator_text) hname
  | not => exact absurd ((Value.single_inj.1 hc).1 ▸ isOperator_not) hname

theorem JunctionOver.exists_clauses {F : Value → Prop} {op : String} {v : Value}
    (h : JunctionOver F (.single op v)) : ∃ (j : Junction) (clauses : List Value), op = j.text ∧
      v = .list clauses ∧ clauses ≠ [] ∧ ∀ c ∈ clauses, ClauseOver F c := by
  generalize hc : Value.single op v = c at h
  obtain @⟨j, clauses, hne, h⟩ := h
  exact ⟨j, clauses, (Value.single_inj.1 hc).1, (Value.single_inj.1 hc).2, hne, h⟩

/-! ## Operands and predicates -/

theorem operandFits_ne {v : Value} : OperandFits .ne v ↔ IsOperand v := by
  constructor
  · intro h
    cases v with
    | num n => exact .num h
    | str s => exact .str s
    | null | bool _ | list _ | map _ => exact h.elim
  · rintro (s | h)
    · trivial
    · exact h

theorem operandFits_compare {c : Comparison} {v : Value} : OperandFits (.compare c) v ↔ Suits c v := by
  by_cases hc : c = .present
  · subst hc
    constructor
    · intro h
      cases v with
      | bool b => exact .present b
      | null | num _ | str _ | list _ | map _ => exact h.elim
    · rintro (b | ⟨hc, _⟩)
      · trivial
      · exact absurd rfl hc
  · have hne : OperandFits (.compare c) v ↔ OperandFits .ne v := by
      cases c with
      | present => exact absurd rfl hc
      | eq | lt | lte | gt | gte => cases v <;> rfl
    rw [hne, operandFits_ne]
    refine ⟨.operand hc, ?_⟩
    rintro (b | ⟨_, hv⟩)
    · exact absurd rfl hc
    · exact hv

/-- A test is a keyword that compares, with an operand that fits it. -/
theorem testForm_iff {p : Value} :
    TestForm p ↔ ∃ k v, k.OnField ∧ k ≠ .not ∧ p = .single k.text v ∧ OperandFits k v := by
  constructor
  · rintro (⟨⟨h⟩⟩ | h)
    · exact ⟨.compare _, _, trivial, nofun, rfl, operandFits_compare.2 h⟩
    · exact ⟨.ne, _, trivial, nofun, rfl, operandFits_ne.2 h⟩
  · rintro ⟨k, v, hk, hn, rfl, h⟩
    cases k with
    | junction j => exact hk.elim
    | not => exact absurd rfl hn
    | ne => exact .ne (operandFits_ne.1 h)
    | compare c => exact .compare (.compare (operandFits_compare.1 h))

theorem Keyword.text_injective {k l : Keyword} (h : k.text = l.text) : k = l := by
  have := ofText?_text k
  rw [h, ofText?_text] at this
  exact (Option.some.inj this).symm

theorem testForm_single {k : Keyword} (hk : k.OnField) (hn : k ≠ .not) {v : Value} :
    TestForm (.single k.text v) ↔ OperandFits k v := by
  rw [testForm_iff]
  constructor
  · rintro ⟨l, w, -, -, he, h⟩
    rw [Value.single_inj] at he
    rw [Keyword.text_injective he.1, he.2]
    exact h
  · exact fun h => ⟨k, v, hk, hn, rfl, h⟩

theorem not_testForm_not {v : Value} : ¬ TestForm (.single "$not" v) := by
  rw [testForm_iff]
  rintro ⟨l, w, -, hl, he, -⟩
  exact hl (@Keyword.text_injective .not l (Value.single_inj.1 he).1).symm

theorem checkPredicate_test {field : String} (negated : Bool) {k : Keyword} {v : Value} (hk : k.OnField)
    (hn : k ≠ .not) : checkPredicate field negated (.single k.text v) =
      if OperandFits k v then .ok () else .error (.invalidOperand field k v) := by
  rw [Value.single, checkPredicate.eq_def]
  simp only [Keyword.ofText?_text]
  cases k with
  | junction j => exact hk.elim
  | not => exact absurd rfl hn
  | ne | compare c => rfl

theorem checkPredicate_not {field : String} {v : Value} :
    checkPredicate field false (.single "$not" v) = .ok () ↔ checkPredicate field true v = .ok () := by
  have hnot : Keyword.ofText? "$not" = some .not := rfl
  cases v with
  | map entries => simp [Value.single, checkPredicate, hnot]
  | null | bool _ | num _ | str _ | list _ => simp [Value.single, checkPredicate, hnot]

theorem exists_keyword_of_checkPredicate {field : String} {negated : Bool} {p : Value}
    (h : checkPredicate field negated p = .ok ()) : ∃ (k : Keyword) (v : Value), k.OnField ∧ p = .single k.text v := by
  unfold checkPredicate at h
  split at h
  · next op v =>
    split at h
    · cases h
    · cases h
    · next hk => exact ⟨.not, v, trivial, by rw [Keyword.ofText?_eq_some.1 hk]; rfl⟩
    · next k hj hn hk =>
      refine ⟨k, v, ?_, by rw [Keyword.ofText?_eq_some.1 hk]; rfl⟩
      cases k with
      | junction j => exact (hj j rfl).elim
      | not | ne | compare c => trivial
  · cases h
  · cases h

theorem checkPredicate_true_eq_ok_iff {field : String} {p : Value} :
    checkPredicate field true p = .ok () ↔ TestForm p := by
  rw [testForm_iff]
  constructor
  · intro h
    obtain ⟨k, v, hk, rfl⟩ := exists_keyword_of_checkPredicate h
    by_cases hn : k = .not
    · subst hn
      rw [show Value.single Keyword.not.text v = .map [("$not", v)] from rfl, checkPredicate.eq_def] at h
      cases h
    · refine ⟨k, v, hk, hn, rfl, ?_⟩
      rw [checkPredicate_test true hk hn] at h
      by_contra hv
      rw [if_neg hv] at h
      cases h
  · rintro ⟨k, v, hk, hn, rfl, hv⟩
    rw [checkPredicate_test true hk hn, if_pos hv]

theorem checkPredicate_false_eq_ok_iff {field : String} {p : Value} :
    checkPredicate field false p = .ok () ↔ CheckedField p := by
  constructor
  · intro h
    obtain ⟨k, v, hk, rfl⟩ := exists_keyword_of_checkPredicate h
    by_cases hn : k = .not
    · subst hn
      exact .not (checkPredicate_true_eq_ok_iff.1 (checkPredicate_not.1 h))
    · rw [checkPredicate_test false hk hn, ← checkPredicate_test true hk hn] at h
      exact .is (checkPredicate_true_eq_ok_iff.1 h)
  · rintro (h | h)
    · obtain ⟨k, v, hk, hn, rfl, -⟩ := testForm_iff.1 h
      rw [checkPredicate_test false hk hn, ← checkPredicate_test true hk hn]
      exact checkPredicate_true_eq_ok_iff.2 h
    · exact checkPredicate_not.2 (checkPredicate_true_eq_ok_iff.2 h)

/-! ## Clauses -/

theorem checkClauses_eq_ok_iff {clauses : List Value} :
    checkClauses clauses = .ok () ↔ ∀ c ∈ clauses, checkClause c = .ok () := by
  induction clauses with
  | nil => simp [checkClauses]
  | cons c rest ih =>
    rw [checkClauses, List.forall_mem_cons, ← ih]
    cases checkClause c <;> simp [bind, Except.bind]

theorem checkCompound_eq_ok_iff {op : Keyword} {v : Value} : checkCompound op v = .ok () ↔
    ∃ clauses, v = .list clauses ∧ clauses ≠ [] ∧ ∀ c ∈ clauses, checkClause c = .ok () := by
  constructor
  · intro h
    cases v with
    | list clauses =>
      cases clauses with
      | nil => cases h
      | cons c rest => exact ⟨_, rfl, nofun, checkClauses_eq_ok_iff.1 h⟩
    | null | bool _ | num _ | str _ | map _ => cases h
  · rintro ⟨clauses, rfl, hne, h⟩
    cases clauses with
    | nil => exact absurd rfl hne
    | cons c rest => exact checkClauses_eq_ok_iff.2 h

theorem checkClause_junction (j : Junction) (v : Value) :
    checkClause (.single j.text v) = checkCompound (.junction j) v := by
  cases j <;> rfl

theorem checkClause_not (v : Value) : checkClause (.single "$not" v) = checkCompound .not v := rfl

theorem checkClause_field {name : String} (hname : ¬ IsOperator name) (v : Value) :
    checkClause (.single name v) = checkPredicate name false v := by
  rw [Value.single, checkClause, ofText?_eq_none_of_not_isOperator hname]
  exact if_neg hname

/-- A clause that passes has one entry: a compound or a field. -/
theorem exists_entry_of_checkClause {v : Value} (h : checkClause v = .ok ()) :
    (∃ (j : Junction) (w : Value), v = .single j.text w) ∨ (∃ w, v = .single "$not" w) ∨
      ∃ name w, ¬ IsOperator name ∧ v = .single name w := by
  unfold checkClause at h
  split at h
  · next key w =>
    split at h
    · next j hj => exact .inl ⟨j, w, by rw [Keyword.ofText?_eq_some.1 hj]; rfl⟩
    · next hn => exact .inr (.inl ⟨w, by rw [Keyword.ofText?_eq_some.1 hn]; rfl⟩)
    · split at h
      · cases h
      · next hname => exact .inr (.inr ⟨key, w, hname, rfl⟩)
  · cases h
  · cases h

theorem clauseOver_of_checkClause {v : Value} (h : checkClause v = .ok ()) : ClauseOver CheckedField v := by
  obtain ⟨j, w, rfl⟩ | ⟨w, rfl⟩ | ⟨name, w, hname, rfl⟩ := exists_entry_of_checkClause h
  · rw [checkClause_junction, checkCompound_eq_ok_iff] at h
    obtain ⟨clauses, rfl, hne, hc⟩ := h
    exact .junction hne fun c hm => clauseOver_of_checkClause (hc c hm)
  · rw [checkClause_not, checkCompound_eq_ok_iff] at h
    obtain ⟨clauses, rfl, hne, hc⟩ := h
    exact .not hne fun c hm => clauseOver_of_checkClause (hc c hm)
  · rw [checkClause_field hname, checkPredicate_false_eq_ok_iff] at h
    exact .field hname h
termination_by sizeOf v
decreasing_by
  · subst_vars
    exact Value.sizeOf_lt_of_mem_clauses hm
  · subst_vars
    exact Value.sizeOf_lt_of_mem_clauses hm

theorem checkClause_eq_ok_iff {v : Value} : checkClause v = .ok () ↔ ClauseOver CheckedField v := by
  refine ⟨clauseOver_of_checkClause, fun h => ?_⟩
  induction h with
  | field hname hv => rw [checkClause_field hname, checkPredicate_false_eq_ok_iff]; exact hv
  | junction hne _ ih => rw [checkClause_junction, checkCompound_eq_ok_iff]; exact ⟨_, rfl, hne, ih⟩
  | not hne _ ih => rw [checkClause_not, checkCompound_eq_ok_iff]; exact ⟨_, rfl, hne, ih⟩

/-! ## Selectors -/

/-- **The check passes exactly the checked selectors.** -/
theorem check_eq_ok_iff {v : Value} : check v = .ok () ↔ Checked v := by
  constructor
  · intro h
    unfold check at h
    split at h
    · next key w =>
      split at h
      · next j hj =>
        obtain ⟨clauses, rfl, hne, hc⟩ := checkCompound_eq_ok_iff.1 h
        rw [Keyword.ofText?_eq_some.1 hj]
        exact .mk hne fun c hm => checkClause_eq_ok_iff.1 (hc c hm)
      · cases h
    · cases h
  · rintro @⟨j, clauses, hne, h⟩
    have hj : check (.single j.text (.list clauses)) = checkCompound (.junction j) (.list clauses) := by
      cases j <;> rfl
    rw [hj, checkCompound_eq_ok_iff]
    exact ⟨_, rfl, hne, fun c hm => checkClause_eq_ok_iff.2 (h c hm)⟩

end Docket.Selector
