import Docket.Proofs.Selector.Fixed
import Docket.Proofs.Selector.Truth

/-!
# Two ways to a tree

A selector in any form is brought into canonical form and then lifted; one that passes the check may also be
lifted as it stands, and then the lift itself deals with `$ne` and with negations. Both ways end at one tree, and
lowering the tree gives the canonical form (**`parse_and_ofCanonical`**).

* `Predicate.ofValue_longhandField`, `Clause.ofValue_longhandClause`, `lift_longhand`: where the check has passed,
  the rewriting changes nothing about the tree.
* `Predicate.map_toValue_ofValue`, `Clause.map_toValue_ofValue`, `map_toValue_lift`: canonical form is what its tree
  is lowered to.
* **`map_toValue_parse`**: the canonical form of any value, or the reason why it has none, by way of the tree.
-/

theorem Except.exists_of_map_eq_ok {ε α β : Type} {f : α → β} {x : Except ε α} {b : β} (h : x.map f = .ok b) :
    ∃ a, x = .ok a ∧ f a = b := by
  cases x with
  | error e => cases h
  | ok a => exact ⟨a, rfl, Except.ok.inj h⟩

namespace Docket

open Selector (IsOperand Suits ComparisonForm TestForm CanonicalField CheckedField ClauseOver longhandField longhandClause)
open Selector (Junction Comparison Keyword Rejection)

/-! ## Operands -/

theorem Operand.ofValue_congr {c : Comparison} {v : Value} (h : Suits c v) (field : String) (op op' : Keyword) :
    Operand.ofValue field op v = Operand.ofValue field op' v := by
  obtain ⟨o, ho, hv⟩ := Operand.exists_ofValue field op h
  obtain ⟨o', ho', hv'⟩ := Operand.exists_ofValue field op' h
  have heq : o = o' := by
    rw [← hv'] at hv
    cases o <;> cases o' <;> cases hv <;> rfl
  rw [ho, ho', heq]

/-! ## Predicates -/

namespace Predicate

@[simp] theorem negate_negate (p : Predicate) : p.negate.negate = p := by cases p <;> rfl

theorem ofValue_not (field : String) (p : Value) :
    ofValue field (.single "$not" p) = (ofValue field p).map negate := rfl

theorem ofValue_compare (field : String) (c : Comparison) (v : Value) :
    ofValue field (.single c.text v) = (Operand.ofValue field (.compare c) v).map fun o => .is ⟨c, o⟩ := by
  cases c <;> rfl

theorem ofValue_ne (field : String) {v : Value} (h : IsOperand v) :
    ofValue field (.single "$ne" v) = (ofValue field (.single Comparison.eq.text v)).map negate := by
  have hne : ofValue field (.single "$ne" v) = (Operand.ofValue field .ne v).map fun o => .not ⟨.eq, o⟩ := rfl
  have hsuits : Suits .eq v := .operand nofun h
  rw [hne, ofValue_compare, Operand.ofValue_congr hsuits field .ne (.compare .eq)]
  cases Operand.ofValue field (.compare .eq) v <;> rfl

/-- **Where the check has passed, expanding `$ne` and collapsing negations changes nothing about the predicate.** -/
theorem ofValue_longhandField (field : String) {p : Value} (h : CheckedField p) :
    ofValue field (longhandField p) = ofValue field p := by
  cases h with
  | is h =>
    cases h with
    | compare h => rw [(CanonicalField.is h).longhandField_eq]
    | @ne v h =>
      have hlong : longhandField (.single "$ne" v) = .single "$not" (.single Comparison.eq.text v) := rfl
      rw [hlong, ofValue_not, ofValue_ne field h]
  | not h =>
    cases h with
    | compare h => rw [(CanonicalField.not h).longhandField_eq]
    | @ne v h =>
      have hlong : longhandField (.single "$not" (.single "$ne" v)) = .single Comparison.eq.text v := rfl
      rw [hlong, ofValue_not, ofValue_ne field h]
      cases ofValue field (.single Comparison.eq.text v) with
      | error e => rfl
      | ok p => exact congrArg Except.ok p.negate_negate.symm

theorem map_toValue_ofValue (field : String) {p : Value} (h : CanonicalField p) :
    (ofValue field p).map toValue = .ok p := by
  cases h with
  | is h =>
    obtain @⟨c, v, hv⟩ := h
    obtain ⟨o, ho, rfl⟩ := Operand.exists_ofValue field (.compare c) hv
    rw [ofValue_compare, ho]
    rfl
  | not h =>
    obtain @⟨c, v, hv⟩ := h
    obtain ⟨o, ho, rfl⟩ := Operand.exists_ofValue field (.compare c) hv
    rw [ofValue_not, ofValue_compare, ho]
    rfl

end Predicate

/-! ## Clauses -/

namespace Clause

theorem ofValues_map {f : Value → Value} {clauses : List Value} (h : ∀ c ∈ clauses, ofValue (f c) = ofValue c) :
    ofValues (clauses.map f) = ofValues clauses := by
  induction clauses with
  | nil => rfl
  | cons c rest ih =>
    rw [List.forall_mem_cons] at h
    rw [List.map_cons, ofValues, ofValues, h.1, ih h.2]

theorem ofValue_longhandClause {c : Value} (h : ClauseOver CheckedField c) :
    ofValue (longhandClause c) = ofValue c := by
  induction h with
  | @field name v hname hv =>
    rw [Selector.longhandClause_field hname, ofValue_field hname, ofValue_field hname,
      Predicate.ofValue_longhandField name hv]
  | @junction j clauses _ _ ih =>
    rw [Selector.longhandClause_compound j.isOperator_text, ofValue_junction, ofValue_junction, ofValues_map ih]
  | @not clauses _ _ ih =>
    rw [Selector.longhandClause_compound Selector.isOperator_not, ofValue_not, ofValue_not, ofValues_map ih]

theorem map_toValues_ofValues {clauses : List Value} (h : ∀ c ∈ clauses, (ofValue c).map toValue = .ok c) :
    (ofValues clauses).map toValues = .ok clauses := by
  induction clauses with
  | nil => rfl
  | cons c rest ih =>
    rw [List.forall_mem_cons] at h
    obtain ⟨d, hd, hc⟩ := Except.exists_of_map_eq_ok h.1
    obtain ⟨ds, hds, hrest⟩ := Except.exists_of_map_eq_ok (ih h.2)
    rw [ofValues, hd, hds, ← hc, ← hrest]
    rfl

theorem map_toValue_ofValue {c : Value} (h : ClauseOver CanonicalField c) : (ofValue c).map toValue = .ok c := by
  induction h with
  | @field name v hname hv =>
    obtain ⟨p, hp, rfl⟩ := Except.exists_of_map_eq_ok (Predicate.map_toValue_ofValue name hv)
    rw [ofValue_field hname, hp]
    rfl
  | @junction j clauses _ _ ih =>
    obtain ⟨ds, hds, rfl⟩ := Except.exists_of_map_eq_ok (map_toValues_ofValues ih)
    rw [ofValue_junction, hds]
    rfl
  | @not clauses _ _ ih =>
    obtain ⟨ds, hds, rfl⟩ := Except.exists_of_map_eq_ok (map_toValues_ofValues ih)
    rw [ofValue_not, hds]
    rfl

end Clause

/-! ## Selectors -/

namespace Selector

theorem lift_junction (j : Junction) (clauses : List Value) :
    lift (.single j.text (.list clauses)) = (Clause.ofValues clauses).map (.junction j) := by
  cases j <;> rfl

/-- **Where the check has passed, the rewriting changes nothing about the tree.** -/
theorem lift_longhand {v : Value} (h : Checked v) : lift (longhand v) = lift v := by
  obtain @⟨j, clauses, -, h⟩ := h
  rw [longhand_compound j.isOperator_text, lift_junction, lift_junction,
    Clause.ofValues_map fun c hc => Clause.ofValue_longhandClause (h c hc)]

theorem map_toValue_lift {v : Value} (h : JunctionOver CanonicalField v) : (lift v).map toValue = .ok v := by
  obtain @⟨j, clauses, -, h⟩ := h
  have hclauses := Clause.map_toValues_ofValues fun c hc => Clause.map_toValue_ofValue (h c hc)
  obtain ⟨ds, hds, rfl⟩ := Except.exists_of_map_eq_ok hclauses
  rw [lift_junction, hds]
  rfl

/-- **A tree is lowered to the canonical form of the value that it was read from**, and what has no canonical form
has no tree, for the same reason. -/
theorem map_toValue_parse (raw : Value) : (parse raw).map toValue = canonical raw := by
  cases hcanonical : canonical raw with
  | error e =>
    rw [parse, hcanonical]
    rfl
  | ok c =>
    rw [parse, hcanonical]
    change (liftCanonical c).map toValue = .ok c
    cases isCanonical_of_canonical hcanonical with
    | everything => rfl
    | junction h => rw [liftCanonical_of_junctionOver h, map_toValue_lift h]

theorem Checked.ne_empty {v : Value} (h : Checked v) : v ≠ .empty := by
  obtain ⟨_, _⟩ := h
  exact nofun

/-- A checked selector has a canonical form. -/
theorem Checked.canonical_eq {v : Value} (h : Checked v) : canonical v = .ok (longhand v) := by
  have hwritten : Written v := .junction (h.mono fun _ => CheckedField.written)
  have hlong := (isCanonical_longhand hwritten h.ne_empty).mono fun _ => CanonicalField.checked
  exact canonical_eq_ok_iff.2 ⟨hwritten.fraction?_eq_none, .inr ⟨h.ne_empty, hlong, rfl⟩⟩

theorem ofCanonical_of_ne_empty {v : Value} (h : v ≠ .empty) :
    ofCanonical v = match check v with
      | .error fault => .error (.invalid fault)
      | .ok () => lift v := by
  unfold ofCanonical
  split
  · exact absurd rfl h
  · rfl

/-- **Where the check has passed, both ways lead to the same tree.** -/
theorem Checked.ofCanonical_eq_parse {v : Value} (h : Checked v) : ofCanonical v = parse v := by
  have hlong : JunctionOver CanonicalField (longhand v) :=
    isCanonical_longhand (.junction (h.mono fun _ => CheckedField.written)) h.ne_empty
  calc ofCanonical v = lift v := by rw [ofCanonical_of_ne_empty h.ne_empty, check_eq_ok_iff.2 h]
    _ = lift (longhand v) := (lift_longhand h).symm
    _ = liftCanonical (longhand v) := (liftCanonical_of_junctionOver hlong).symm
    _ = parse v := by rw [parse, h.canonical_eq]; rfl

theorem canonical_ne_unknownOperator (raw : Value) (op : String) : canonical raw ≠ .error (.unknownOperator op) := by
  unfold canonical
  split
  · exact nofun
  · split
    · exact nofun
    · split <;> exact nofun

theorem parse_ne_unknownOperator (raw : Value) (op : String) : parse raw ≠ .error (.unknownOperator op) := by
  intro h
  have hcanonical := map_toValue_parse raw
  rw [h] at hcanonical
  exact canonical_ne_unknownOperator raw op hcanonical.symm

theorem ofCanonical_ne_unknownOperator (v : Value) (op : String) :
    ofCanonical v ≠ .error (.unknownOperator op) := by
  by_cases hne : v = .empty
  · subst hne
    exact nofun
  · cases hcheck : check v with
    | error fault =>
      rw [ofCanonical_of_ne_empty hne, hcheck]
      exact nofun
    | ok =>
      rw [Checked.ofCanonical_eq_parse (check_eq_ok_iff.1 hcheck)]
      exact parse_ne_unknownOperator v op

/-- **The two ways into the typed tree agree with each other and with canonical form.** Reading a value in any form
gives a tree exactly if the value has a canonical form, which the tree is lowered to, and otherwise fails for the
same reason. A value that passes the check has a canonical form and is the same selector both ways. What does not
pass is refused by that fault when it is taken as it stands. So the lift, which comes after the check, never meets
an operator that it does not know. -/
theorem parse_and_ofCanonical :
    (∀ raw, (parse raw).map toValue = canonical raw) ∧
    (∀ v, check v = .ok () →
      ofCanonical v = parse v ∧ ∃ s, ofCanonical v = .ok s ∧ canonical v = .ok s.toValue) ∧
    (∀ v fault, v ≠ .empty → check v = .error fault → ofCanonical v = .error (.invalid fault)) ∧
    ∀ v op, parse v ≠ .error (.unknownOperator op) ∧ ofCanonical v ≠ .error (.unknownOperator op) := by
  refine ⟨map_toValue_parse, fun v h => ?_, fun v fault hne h => ?_, fun v op =>
    ⟨parse_ne_unknownOperator v op, ofCanonical_ne_unknownOperator v op⟩⟩
  · have hchecked : Checked v := check_eq_ok_iff.1 h
    have hsame := hchecked.ofCanonical_eq_parse
    obtain ⟨s, hs, hvalue⟩ := Except.exists_of_map_eq_ok ((map_toValue_parse v).trans hchecked.canonical_eq)
    exact ⟨hsame, s, hsame.trans hs, hchecked.canonical_eq.trans (congrArg Except.ok hvalue.symm)⟩
  · rw [ofCanonical_of_ne_empty hne, h]

/-- A negated `$ne`, and a `$ne` in a negated list. -/
def shortened : Value :=
  .single "$and" (.list [.single "a" (.single "$not" (.single "$ne" (.str "x"))),
    .single "$not" (.list [.single "b" (.single "$ne" (.str "y"))])])

theorem parse_and_ofCanonical_shortened :
    (check shortened = .ok () ∧ ofCanonical shortened = parse shortened) ∧
      ofCanonical (.single "$or" (.list [])) = .error (.invalid (.emptyCompound (.junction .or))) :=
  ⟨⟨rfl, (parse_and_ofCanonical.2.1 shortened rfl).1⟩, parse_and_ofCanonical.2.2.1 _ _ nofun rfl⟩

end Selector

end Docket
