import Docket.Proofs.Selector.Acceptance
import Docket.Selector.Meaning

/-!
# The meaning of a selector is kept

Neither the rewriting nor the step to a typed tree changes the truth value of a selector, whatever the
comparisons say (**`holds_canonical_and_parse`**). Negations are the delicate part: three rules move them, the
parity of a chain, the expansion of `$ne` and the opposite of a predicate in the tree.

* `fieldHolds_signed`, `fieldHolds_of_unwrapNot?`: a chain of negations by its parity.
* `fieldHolds_longhandField`, `holds_longhandClause`, `holds_longhand`: the rewriting.
* `Predicate.exists_ofValue`, `Clause.exists_ofValue`, `exists_lift`: the tree.
-/

namespace Docket

open Selector (Junction Comparison Keyword Rejection)

namespace Selector

variable (T : Valuation)

/-! ## What a field holds -/

theorem fieldHolds_not (field : String) (p : Value) :
    Value.fieldHolds T field (.single "$not" p) = !Value.fieldHolds T field p := rfl

theorem fieldHolds_ne (field : String) (v : Value) :
    Value.fieldHolds T field (.single "$ne" v) = !T field .eq v := rfl

theorem fieldHolds_compare (field : String) (c : Comparison) (v : Value) :
    Value.fieldHolds T field (.single c.text v) = T field c v := by
  cases c <;> rfl

theorem fieldHolds_signed (field : String) (b : Bool) (p : Value) :
    Value.fieldHolds T field (signed b p) = (b ^^ Value.fieldHolds T field p) := by
  cases b
  · simp [signed]
  · rw [signed, if_pos rfl, fieldHolds_not, Bool.true_xor]

/-- A chain of negations inverts what stands under it if it is odd. -/
theorem fieldHolds_of_unwrapNot? (field : String) {p q : Value} {b : Bool} (h : unwrapNot? p = some (q, b)) :
    Value.fieldHolds T field p = (b ^^ Value.fieldHolds T field q) := by
  fun_induction unwrapNot? p generalizing b with
  | case1 v ih =>
    obtain ⟨⟨r, c⟩, hr, he⟩ := Option.map_eq_some_iff.1 h
    cases he
    change Value.fieldHolds T field (.single "$not" v) = _
    rw [fieldHolds_not, ih hr, ← Bool.not_xor]
  | case2 op v hop =>
    cases h
    rw [Bool.false_xor, Value.single]
  | case3 => cases h

theorem fieldHolds_expandShorthand (field : String) {q : Value} (h : TestForm q) (b : Bool) :
    Value.fieldHolds T field (expandShorthand (signed b q)) = Value.fieldHolds T field (signed b q) := by
  cases h with
  | compare h =>
    obtain @⟨c, v, -⟩ := h
    rw [expandShorthand_signed c.text_ne_not c.text_ne_ne]
  | @ne v hv =>
    rw [expandShorthand_signed_ne, fieldHolds_signed, fieldHolds_signed, fieldHolds_ne, Bool.not_xor, ← Bool.xor_not]
    exact congrArg (fun t => b ^^ !t) (fieldHolds_compare T field .eq v)

theorem fieldHolds_longhandField (field : String) {v : Value} (h : WrittenField v) :
    Value.fieldHolds T field (longhandField v) = Value.fieldHolds T field v := by
  cases h with
  | operand h =>
    rw [h.longhandField_eq]
    cases h with
    | str s => exact fieldHolds_compare T field .eq _
    | num h => exact fieldHolds_compare T field .eq _
  | predicate h =>
    obtain ⟨q, b, hp, hq⟩ := h.exists_unwrapNot?
    rw [h.longhandField_eq, collapse_of_unwrapNot? hp, fieldHolds_expandShorthand T field hq,
      fieldHolds_signed, fieldHolds_of_unwrapNot? T field hp]

/-! ## Clauses -/

theorem holds_junction (j : Junction) (clauses : List Value) :
    Value.holds T (.single j.text (.list clauses)) = match j with
      | .and => Value.allHold T clauses
      | .or => Value.anyHolds T clauses := by
  cases j <;> exact Bool.and_true _

theorem holds_not (clauses : List Value) :
    Value.holds T (.single "$not" (.list clauses)) = !Value.allHold T clauses := Bool.and_true _

theorem WrittenField.entryHolds_eq {v : Value} (h : WrittenField v) (field : String) :
    Value.entryHolds T field v = Value.fieldHolds T field v := by
  cases v with
  | list items =>
    cases h with
    | operand h => cases h
    | predicate h =>
      obtain ⟨q, b, hq, -⟩ := h.exists_unwrapNot?
      cases hq
  | null | bool _ | num _ | str _ | map _ => rfl

theorem holds_field {name : String} {v : Value} (h : WrittenField v) :
    Value.holds T (.single name v) = Value.fieldHolds T name v := by
  rw [← h.entryHolds_eq]
  exact Bool.and_true _

theorem allHold_map_eq {f : Value → Value} {clauses : List Value}
    (h : ∀ c ∈ clauses, Value.holds T (f c) = Value.holds T c) :
    Value.allHold T (clauses.map f) = Value.allHold T clauses := by
  induction clauses with
  | nil => rfl
  | cons c rest ih =>
    rw [List.forall_mem_cons] at h
    rw [List.map_cons, Value.allHold, Value.allHold, h.1, ih h.2]

theorem anyHolds_map_eq {f : Value → Value} {clauses : List Value}
    (h : ∀ c ∈ clauses, Value.holds T (f c) = Value.holds T c) :
    Value.anyHolds T (clauses.map f) = Value.anyHolds T clauses := by
  induction clauses with
  | nil => rfl
  | cons c rest ih =>
    rw [List.forall_mem_cons] at h
    rw [List.map_cons, Value.anyHolds, Value.anyHolds, h.1, ih h.2]

/-- **Longhand keeps the truth value of a clause.** -/
theorem holds_longhandClause {c : Value} (h : ClauseOver WrittenField c) :
    Value.holds T (longhandClause c) = Value.holds T c := by
  induction h with
  | @field name v hname hv =>
    have hc := CheckedField.written (CanonicalField.checked hv.canonicalField)
    rw [longhandClause_field hname, holds_field T hc, holds_field T hv, fieldHolds_longhandField T name hv]
  | @junction j clauses _ _ ih =>
    rw [longhandClause_compound j.isOperator_text, holds_junction, holds_junction, allHold_map_eq T ih,
      anyHolds_map_eq T ih]
  | not _ _ ih =>
    rw [longhandClause_compound isOperator_not, holds_not, holds_not, allHold_map_eq T ih]

/-- Longhand keeps the truth value of a selector. -/
theorem holds_longhand {raw : Value} (h : Written raw) (hne : raw ≠ .empty) :
    Value.holds T (longhand raw) = Value.holds T raw := by
  cases h with
  | everything => exact absurd rfl hne
  | junction h =>
    obtain @⟨j, clauses, -, h⟩ := h
    have hc := fun c hm => holds_longhandClause T (h c hm)
    rw [longhand_compound j.isOperator_text, holds_junction, holds_junction, allHold_map_eq T hc,
      anyHolds_map_eq T hc]
  | @fields entries he h =>
    have hc : ∀ c ∈ fieldClauses entries, Value.holds T (longhandClause c) = Value.holds T c := by
      rw [fieldClauses, List.forall_mem_map]
      exact fun e hm => holds_longhandClause T (.field (h e hm).1 (h e hm).2)
    rw [longhand_fields fun e hm => (h e hm).1]
    calc Value.holds T (.single Junction.and.text (.list ((fieldClauses entries).map longhandClause)))
        = Value.allHold T (fieldClauses entries) := by rw [holds_junction, allHold_map_eq T hc]
      _ = entries.all fun e => Value.entryHolds T e.1 e.2 := by
        rw [Value.allHold_eq_all, fieldClauses, List.all_map]
        exact List.all_congr rfl fun e => Bool.and_true _
      _ = Value.holds T (.map entries) := by rw [Value.holds, Value.entriesHold_eq_all]

end Selector

/-! ## Trees -/

theorem Operand.exists_ofValue (field : String) (op : Keyword) {c : Comparison} {v : Value}
    (h : Selector.Suits c v) : ∃ o, Operand.ofValue field op v = .ok o ∧ o.toValue = v := by
  cases h with
  | present b => exact ⟨.bool b, rfl, rfl⟩
  | operand _ h =>
    cases h with
    | str s => exact ⟨.str s, rfl, rfl⟩
    | @num n h =>
      cases n with
      | int n => exact ⟨.int n, rfl, rfl⟩
      | uint n => exact ⟨.uint n, rfl, rfl⟩
      | float x => exact ⟨.float x, if_pos (not_not.1 h), rfl⟩

theorem Predicate.exists_ofValue_comparison (field : String) {p : Value} (h : Selector.ComparisonForm p) :
    ∃ c, Predicate.ofValue field p = .ok (.is c) ∧
      ∀ T : Selector.Valuation, c.holds T field = Value.fieldHolds T field p := by
  obtain @⟨c, v, hv⟩ := h
  obtain ⟨o, ho, rfl⟩ := Operand.exists_ofValue field (.compare c) hv
  have hk : Keyword.ofText? c.text = some (.compare c) := Keyword.ofText?_text (.compare c)
  refine ⟨⟨c, o⟩, ?_, fun T => (Selector.fieldHolds_compare T field c _).symm⟩
  simp only [Value.single, Predicate.ofValue, hk, ho]
  rfl

theorem Predicate.exists_ofValue (field : String) {p : Value} (h : Selector.CanonicalField p) :
    ∃ q, Predicate.ofValue field p = .ok q ∧
      ∀ T : Selector.Valuation, q.holds T field = Value.fieldHolds T field p := by
  cases h with
  | is h =>
    obtain ⟨c, hc, hT⟩ := Predicate.exists_ofValue_comparison field h
    exact ⟨.is c, hc, hT⟩
  | @not p h =>
    obtain ⟨c, hc, hT⟩ := Predicate.exists_ofValue_comparison field h
    have hn : Predicate.ofValue field (.single "$not" p) = (Predicate.ofValue field p).map negate := rfl
    refine ⟨.not c, by rw [hn, hc]; rfl, fun T => ?_⟩
    rw [Selector.fieldHolds_not, ← hT]
    rfl

namespace Clause

theorem ofValue_field {name : String} (hname : ¬ Selector.IsOperator name) (v : Value) :
    Clause.ofValue (.single name v) = (Predicate.ofValue name v).map (.field name) := by
  rw [Value.single, Clause.ofValue, Selector.ofText?_eq_none_of_not_isOperator hname]

theorem ofValue_junction (j : Junction) (clauses : List Value) :
    Clause.ofValue (.single j.text (.list clauses)) = (ofValues clauses).map (.junction j) := by
  cases j <;> rfl

theorem ofValue_not (clauses : List Value) :
    Clause.ofValue (.single "$not" (.list clauses)) = (ofValues clauses).map .not := rfl

theorem exists_ofValues {clauses : List Value} (h : ∀ c ∈ clauses, ∃ d, Clause.ofValue c = .ok d ∧
      ∀ T : Selector.Valuation, d.holds T = Value.holds T c) :
    ∃ ds, ofValues clauses = .ok ds ∧ ∀ T : Selector.Valuation,
      allHold T ds = Value.allHold T clauses ∧ anyHolds T ds = Value.anyHolds T clauses := by
  induction clauses with
  | nil => exact ⟨[], rfl, fun T => ⟨rfl, rfl⟩⟩
  | cons c rest ih =>
    rw [List.forall_mem_cons] at h
    obtain ⟨d, hd, hT⟩ := h.1
    obtain ⟨ds, hds, hTs⟩ := ih h.2
    refine ⟨d :: ds, by rw [ofValues, hd, hds]; rfl, fun T => ?_⟩
    rw [allHold, anyHolds, Value.allHold, Value.anyHolds, hT, (hTs T).1, (hTs T).2]
    exact ⟨rfl, rfl⟩

/-- **A canonical clause is read as a clause with the same truth value.** -/
theorem exists_ofValue {c : Value} (h : Selector.ClauseOver Selector.CanonicalField c) :
    ∃ d, Clause.ofValue c = .ok d ∧ ∀ T : Selector.Valuation, d.holds T = Value.holds T c := by
  induction h with
  | @field name v hname hv =>
    obtain ⟨p, hp, hT⟩ := Predicate.exists_ofValue name hv
    refine ⟨.field name p, by rw [ofValue_field hname, hp]; rfl, fun T => ?_⟩
    rw [Selector.holds_field T hv.checked.written, ← hT]
    rfl
  | @junction j clauses _ _ ih =>
    obtain ⟨ds, hds, hT⟩ := exists_ofValues ih
    refine ⟨.junction j ds, by rw [ofValue_junction, hds]; rfl, fun T => ?_⟩
    rw [Selector.holds_junction, ← (hT T).1, ← (hT T).2]
    cases j <;> rfl
  | @not clauses _ _ ih =>
    obtain ⟨ds, hds, hT⟩ := exists_ofValues ih
    refine ⟨.not ds, by rw [ofValue_not, hds]; rfl, fun T => ?_⟩
    rw [Selector.holds_not, ← (hT T).1]
    rfl

end Clause

namespace Selector

theorem exists_lift {v : Value} (h : JunctionOver CanonicalField v) :
    ∃ s, lift v = .ok s ∧ ∀ T : Valuation, s.holds T = Value.holds T v := by
  obtain @⟨j, clauses, -, h⟩ := h
  obtain ⟨ds, hds, hT⟩ := Clause.exists_ofValues fun c hm => Clause.exists_ofValue (h c hm)
  have hl : lift (.single j.text (.list clauses)) = (Clause.ofValues clauses).map (.junction j) := by
    cases j <;> rfl
  refine ⟨.junction j ds, by rw [hl, hds]; rfl, fun T => ?_⟩
  rw [holds_junction, ← (hT T).1, ← (hT T).2]
  cases j <;> rfl

theorem liftCanonical_of_junctionOver {F : Value → Prop} {v : Value} (h : JunctionOver F v) :
    liftCanonical v = lift v := by
  obtain ⟨_, _⟩ := h
  rfl

/-- **A selector, its canonical form and its tree have the same truth value** under every valuation. -/
theorem holds_canonical_and_parse {raw c : Value} (h : canonical raw = .ok c) : ∃ s, parse raw = .ok s ∧
    ∀ T : Valuation, Value.holds T c = Value.holds T raw ∧ s.holds T = Value.holds T raw := by
  have hw := written_of_canonical h
  obtain ⟨-, ⟨rfl, rfl⟩ | ⟨hne, -, rfl⟩⟩ := canonical_eq_ok_iff.1 h
  · exact ⟨.wildcard, rfl, fun T => ⟨rfl, rfl⟩⟩
  · have hj := isCanonical_longhand hw hne
    obtain ⟨s, hs, hT⟩ := exists_lift hj
    refine ⟨s, ?_, fun T => ⟨holds_longhand T hw hne, (hT T).trans (holds_longhand T hw hne)⟩⟩
    rw [parse, h, Except.bind, liftCanonical_of_junctionOver hj, hs]

/-- An even chain over `$ne`, an odd one, and a negated list. -/
def tangled : Value :=
  .single "$or" (.list [.single "a" (.single "$not" (.single "$not" (.single "$ne" (.str "x")))),
    .single "$not" (.list [.single "b" (.single "$not" (.single "$ne" (.str "y"))), .single "c" (.str "z")])])

theorem holds_canonical_and_parse_tangled : ∃ c, canonical tangled = .ok c ∧ ∃ s, parse tangled = .ok s ∧
    ∀ T : Valuation, Value.holds T c = Value.holds T tangled ∧ s.holds T = Value.holds T tangled :=
  ⟨_, rfl, holds_canonical_and_parse rfl⟩

end Selector

end Docket
