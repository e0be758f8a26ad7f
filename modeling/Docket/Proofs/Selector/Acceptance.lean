import Docket.Proofs.Selector.Rewriting

/-!
# Which selectors have a canonical form

A selector has a canonical form exactly if it may be written (**`canonical_isOk_iff_written`**). What is
accepted is decided on the rewritten selector, so both directions go through the rewriting.

* `Written.fraction?_eq_none`: nothing in a selector that may be written is fractional.
* `canonical_eq_ok_iff`: the canonical form by the steps that make it.
* `isCanonical_longhand`: longhand is canonical form.
* `written_of_checked_longhand`: what passes the check in longhand may be written.
-/

namespace Docket.Selector

/-! ## No fractional number -/

theorem IsOperand.fraction?_eq_none {v : Value} (h : IsOperand v) : v.fraction? = none := by
  cases h with
  | str s => rfl
  | num h => rw [Value.fraction?, if_neg h]

theorem TestForm.fraction?_eq_none {p : Value} (h : TestForm p) : p.fraction? = none := by
  cases h with
  | compare h =>
    obtain ⟨h⟩ := h
    rw [Value.fraction?_single]
    cases h with
    | present b => rfl
    | operand _ h => exact h.fraction?_eq_none
  | ne h => exact Value.fraction?_single.2 h.fraction?_eq_none

theorem WrittenField.fraction?_eq_none {v : Value} (h : WrittenField v) : v.fraction? = none := by
  cases h with
  | operand h => exact h.fraction?_eq_none
  | predicate h =>
    induction h with
    | test h => exact h.fraction?_eq_none
    | not _ ih => exact Value.fraction?_single.2 ih

theorem ClauseOver.fraction?_eq_none {c : Value} (h : ClauseOver WrittenField c) : c.fraction? = none := by
  induction h with
  | field _ hv => exact Value.fraction?_single.2 hv.fraction?_eq_none
  | junction _ _ ih => exact Value.fraction?_single.2 (Value.fraction?_list.2 ih)
  | not _ _ ih => exact Value.fraction?_single.2 (Value.fraction?_list.2 ih)

theorem Written.fraction?_eq_none {raw : Value} (h : Written raw) : raw.fraction? = none := by
  cases h with
  | everything => rfl
  | junction h =>
    obtain ⟨_, h⟩ := h
    exact Value.fraction?_single.2 (Value.fraction?_list.2 fun c hc => (h c hc).fraction?_eq_none)
  | fields _ h => exact Value.fraction?_map.2 fun e he => (h e he).2.fraction?_eq_none

/-! ## Longhand -/

theorem canonical_eq_ok_iff {raw c : Value} : canonical raw = .ok c ↔ raw.fraction? = none ∧
    ((raw = .empty ∧ c = .empty) ∨ (raw ≠ .empty ∧ Checked (longhand raw) ∧ c = longhand raw)) := by
  rw [← check_eq_ok_iff]
  unfold canonical
  split
  · next n hn => simp [hn]
  · next hn =>
    split
    · simp [hn, Value.empty, eq_comm]
    · next hne =>
      have hne : raw ≠ .empty := fun he => hne he
      cases check (longhand raw) <;> simp [hn, hne, eq_comm]

theorem isCanonical_longhand {raw : Value} (h : Written raw) (hne : raw ≠ .empty) :
    JunctionOver CanonicalField (longhand raw) := by
  cases h with
  | everything => exact absurd rfl hne
  | junction h =>
    obtain @⟨j, clauses, hc, h⟩ := h
    rw [longhand_compound j.isOperator_text]
    refine .mk (by simpa using hc) (List.forall_mem_map.2 fun c hm => ?_)
    exact clauseOver_longhandClause (h c hm)
  | @fields entries he h =>
    rw [longhand_fields fun e hm => (h e hm).1]
    refine .mk (j := .and) (by simpa [fieldClauses] using he) ?_
    rw [fieldClauses, List.forall_mem_map, List.forall_mem_map]
    exact fun e hm => clauseOver_longhandClause (.field (h e hm).1 (h e hm).2)

theorem written_of_checked_fields {entries : List (String × Value)} (hop : ∀ e ∈ entries, ¬ IsOperator e.1)
    (h : Checked (longhand (.map entries))) : Written (.map entries) := by
  rw [longhand_fields hop] at h
  obtain ⟨j, clauses, -, hl, hne, hc⟩ := h.exists_clauses
  cases hl
  refine .fields (by simpa [fieldClauses] using hne) fun e he => ⟨hop e he, ?_⟩
  have hm : longhandClause (.single e.1 e.2) ∈ (fieldClauses entries).map longhandClause :=
    List.mem_map_of_mem (List.mem_map_of_mem he)
  exact (clauseOver_of_longhandClause (hc _ hm)).of_field (hop e he)

theorem written_of_checked_compound {op : String} (hop : IsOperator op) {v : Value}
    (h : Checked (longhand (.single op v))) : Written (.single op v) := by
  cases v with
  | list raw =>
    rw [longhand_compound hop] at h
    obtain ⟨j, clauses, rfl, hl, hne, hc⟩ := h.exists_clauses
    cases hl
    refine .junction (.mk (by simpa using hne) fun c hm => ?_)
    exact clauseOver_of_longhandClause (hc _ (List.mem_map_of_mem hm))
  | null | bool _ | num _ | str _ | map _ =>
    rw [longhand, wrapFields_of_isOperator hop] at h
    obtain ⟨j, clauses, -, hl, -⟩ := h.exists_clauses
    cases hl

theorem written_of_checked_longhand {raw : Value} (h : Checked (longhand raw)) : Written raw := by
  cases raw with
  | map entries =>
    by_cases hop : ∃ e ∈ entries, IsOperator e.1
    · match entries, hop with
      | [(op, v)], hop =>
        obtain ⟨e, he, ho⟩ := hop
        cases List.mem_singleton.1 he
        exact written_of_checked_compound ho h
      | e :: f :: rest, hop =>
        rw [longhand, wrapFields, if_pos hop] at h
        cases h
    · push Not at hop
      exact written_of_checked_fields hop h
  | null | bool _ | num _ | str _ | list _ => cases h

theorem written_of_canonical {raw c : Value} (h : canonical raw = .ok c) : Written raw := by
  obtain ⟨-, ⟨rfl, -⟩ | ⟨-, hc, -⟩⟩ := canonical_eq_ok_iff.1 h
  · exact .everything
  · exact written_of_checked_longhand hc

/-- **A selector has a canonical form exactly if it may be written.** -/
theorem canonical_isOk_iff_written (raw : Value) : (∃ c, canonical raw = .ok c) ↔ Written raw := by
  constructor
  · rintro ⟨c, h⟩
    exact written_of_canonical h
  · intro h
    by_cases hne : raw = .empty
    · exact ⟨.empty, canonical_eq_ok_iff.2 ⟨h.fraction?_eq_none, .inl ⟨hne, rfl⟩⟩⟩
    · have hc := (isCanonical_longhand h hne).mono fun _ => CanonicalField.checked
      exact ⟨_, canonical_eq_ok_iff.2 ⟨h.fraction?_eq_none, .inr ⟨hne, hc, rfl⟩⟩⟩

end Docket.Selector
