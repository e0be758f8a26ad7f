import Docket.Proofs.Selector.Fixed
import Docket.Proofs.Value.Exact

/-!
# Rewriting what JSON holds exactly

The rewriting moves operands and puts maps of one entry around them. So a selector that JSON holds exactly has a
canonical form that JSON holds exactly (**`exact_of_canonical`**).

* `exact_expandShorthand`, `exact_collapse`, `exact_longhandField`: the steps on a predicate.
* `exact_longhandClause`: the steps on clauses.
* `exact_longhand_fields`: the fields of a selector, also when they share a name.
-/

namespace Docket.Selector

/-! ## Predicates -/

theorem exact_expandShorthand {p : Value} (h : p.Exact) : (expandShorthand p).Exact := by
  unfold expandShorthand
  split
  · exact h
  · next op operand hp =>
    obtain rfl := Value.eq_single_of_single? hp
    rw [Value.exact_single] at h
    split
    · rwa [Value.exact_single, Value.exact_single]
    · split
      · split
        · rwa [Value.exact_single]
        · next inner v hv =>
          obtain rfl := Value.eq_single_of_single? hv
          split
          · rw [Value.exact_single] at h ⊢
            exact h
          · rwa [Value.exact_single]
      · rwa [Value.exact_single]

theorem exact_of_unwrapNot? {p q : Value} {b : Bool} (h : p.Exact) (hp : unwrapNot? p = some (q, b)) : q.Exact := by
  fun_induction unwrapNot? p generalizing b with
  | case1 v ih =>
    obtain ⟨r, hr, he⟩ := Option.map_eq_some_iff.1 hp
    cases he
    exact ih (Value.exact_single.1 h) hr
  | case2 op v hop =>
    cases hp
    exact h
  | case3 => cases hp

theorem exact_signed {b : Bool} {q : Value} (h : q.Exact) : (signed b q).Exact := by
  cases b with
  | false => exact h
  | true => exact Value.exact_single.2 h

theorem exact_collapse {p : Value} (h : p.Exact) : (collapse p).Exact := by
  cases hp : unwrapNot? p with
  | none => rwa [collapse_of_unwrapNot?_none hp]
  | some r =>
    rw [collapse_of_unwrapNot? hp]
    exact exact_expandShorthand (exact_signed (exact_of_unwrapNot? h hp))

theorem exact_longhandField {v : Value} (h : v.Exact) : (longhandField v).Exact := by
  cases v with
  | map entries => exact exact_collapse h
  | null | bool _ | num _ | str _ | list _ => exact exact_collapse (p := .single "$eq" _) (Value.exact_single.2 h)

/-! ## Clauses and selectors -/

theorem exact_compound {op : String} {clauses : List Value}
    (ih : ∀ c ∈ clauses, c.Exact → (longhandClause c).Exact) (h : (Value.single op (.list clauses)).Exact) :
    (Value.single op (.list (clauses.map longhandClause))).Exact := by
  rw [Value.exact_single, Value.exact_list] at h ⊢
  exact List.forall_mem_map.2 fun c hc => ih c hc (h c hc)

theorem exact_longhandClause {c : Value} (hc : ClauseOver WrittenField c) (h : c.Exact) :
    (longhandClause c).Exact := by
  induction hc with
  | field hname _ =>
    rw [longhandClause_field hname]
    exact Value.exact_single.2 (exact_longhandField (Value.exact_single.1 h))
  | @junction j clauses _ _ ih =>
    rw [longhandClause_compound j.isOperator_text]
    exact exact_compound ih h
  | not _ _ ih =>
    rw [longhandClause_compound isOperator_not]
    exact exact_compound ih h

/-- The fields of a selector stand apart in longhand, so that they may share a name. -/
theorem exact_longhand_fields {entries : List (String × Value)}
    (hfields : ∀ e ∈ entries, ¬ IsOperator e.1 ∧ WrittenField e.2) (h : ∀ e ∈ entries, e.2.Exact) :
    (longhand (.map entries)).Exact := by
  rw [longhand_fields fun e he => (hfields e he).1, Value.exact_single, Value.exact_list, fieldClauses,
    List.forall_mem_map, List.forall_mem_map]
  intro e he
  exact exact_longhandClause (.field (hfields e he).1 (hfields e he).2) (Value.exact_single.2 (h e he))

theorem exact_longhand {raw : Value} (hraw : Written raw) (hne : raw ≠ .empty) (h : raw.Exact) :
    (longhand raw).Exact := by
  cases hraw with
  | everything => exact absurd rfl hne
  | junction hj =>
    obtain @⟨j, clauses, -, hclauses⟩ := hj
    rw [longhand_compound j.isOperator_text]
    exact exact_compound (fun c hc => exact_longhandClause (hclauses c hc)) h
  | fields _ hfields => exact exact_longhand_fields hfields fun e he => h.of_mem he

/-- **The canonical form of a selector that JSON holds exactly is held exactly by JSON.** -/
theorem exact_of_canonical {raw c : Value} (h : raw.Exact) (hc : canonical raw = .ok c) : c.Exact := by
  have hwritten := written_of_canonical hc
  obtain ⟨-, ⟨-, rfl⟩ | ⟨hne, -, rfl⟩⟩ := canonical_eq_ok_iff.1 hc
  · exact ⟨List.nodup_nil, trivial⟩
  · exact exact_longhand hwritten hne h

end Docket.Selector
