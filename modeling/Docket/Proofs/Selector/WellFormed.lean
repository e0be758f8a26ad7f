import Docket.Proofs.Selector.Lifting

/-!
# Trees that are the form of a selector

Not every tree can be read: a list of clauses may be empty, the name of a field may be an operator, an operand may
not suit its operator. The trees without these faults are the ones that a value can be read as, and they are
recovered from the value that they are lowered to (**`Selector.ofCanonical_toValue_iff`**).

* `Condition.WellFormed`, `Clause.WellFormed`, `Selector.WellFormed`: trees without faults.
* `Condition.wellFormed_iff`: an operand suits its operator just if the value that it is lowered to does.
* `Clause.ofValue_toValue`: a tree without faults is lowered to a canonical form and lifted again.
* `Clause.wellFormed_of_ofValue`: what is lifted from a canonical form has no faults.
-/

namespace Docket

open Selector (IsOperator Junction Comparison Suits IsOperand ComparisonForm CanonicalField ClauseOver JunctionOver)

/-! ## Trees without faults -/

/-- Presence is compared with a truth value; everything else with a string or an integer, which may be a whole
double. -/
def Condition.WellFormed (c : Condition) : Prop :=
  match c.operand with
  | .bool _ => c.op = .present
  | .float x => c.op ≠ .present ∧ x.IsWhole
  | .int _ | .uint _ | .str _ => c.op ≠ .present

/-- Fields have names that are no operators, conditions suit their operands, and no list of clauses is empty. -/
inductive Clause.WellFormed : Clause → Prop where
  | field {name : String} {p : Predicate} (hname : ¬ IsOperator name) (hp : p.condition.WellFormed) :
      WellFormed (.field name p)
  | junction {j : Junction} {clauses : List Clause} (hne : clauses ≠ []) (h : ∀ c ∈ clauses, WellFormed c) :
      WellFormed (.junction j clauses)
  | not {clauses : List Clause} (hne : clauses ≠ []) (h : ∀ c ∈ clauses, WellFormed c) : WellFormed (.not clauses)

/-- Everything, or a junction of clauses without faults. -/
inductive Selector.WellFormed : Selector → Prop where
  | wildcard : WellFormed .wildcard
  | junction {j : Junction} {clauses : List Clause} (hne : clauses ≠ []) (h : ∀ c ∈ clauses, c.WellFormed) :
      WellFormed (.junction j clauses)

/-! ## Conditions -/

theorem Operand.toValue_injective {o o' : Operand} (h : o.toValue = o'.toValue) : o = o' := by
  cases o <;> cases o' <;> cases h <;> rfl

theorem Operand.ofValue_toValue (field : String) (op : Selector.Keyword) {c : Comparison} {o : Operand}
    (h : Suits c o.toValue) : Operand.ofValue field op o.toValue = .ok o := by
  obtain ⟨o', ho', heq⟩ := Operand.exists_ofValue field op h
  rw [ho', Operand.toValue_injective heq]

theorem Condition.wellFormed_iff (c : Condition) : c.WellFormed ↔ Suits c.op c.operand.toValue := by
  obtain ⟨op, operand⟩ := c
  constructor
  · intro h
    cases operand with
    | bool b =>
      obtain rfl : op = .present := h
      exact .present b
    | int n => exact .operand h (.num id)
    | uint n => exact .operand h (.num id)
    | float x => exact .operand h.1 (.num (not_not.2 h.2))
    | str s => exact .operand h (.str s)
  · intro h
    cases operand with
    | bool b =>
      cases h with
      | present => rfl
      | operand _ hv => cases hv
    | int n | uint n | str s =>
      cases h with
      | operand hc _ => exact hc
    | float x =>
      cases h with
      | operand hc hv =>
        cases hv with
        | num hwhole => exact ⟨hc, not_not.1 hwhole⟩

/-! ## Predicates -/

namespace Predicate

theorem canonicalField_toValue {p : Predicate} (h : p.condition.WellFormed) : CanonicalField p.toValue := by
  have hform : ComparisonForm (.single p.condition.op.text p.condition.operand.toValue) :=
    .compare ((Condition.wellFormed_iff _).1 h)
  cases p with
  | is c => exact .is hform
  | not c => exact .not hform

theorem ofValue_toValue (field : String) {p : Predicate} (h : p.condition.WellFormed) :
    ofValue field p.toValue = .ok p := by
  cases p with
  | is c =>
    have hsuits : Suits c.op c.operand.toValue := c.wellFormed_iff.1 h
    rw [toValue, ofValue_compare, Operand.ofValue_toValue field _ hsuits]
    rfl
  | not c =>
    have hsuits : Suits c.op c.operand.toValue := c.wellFormed_iff.1 h
    rw [toValue, ofValue_not, ofValue_compare, Operand.ofValue_toValue field _ hsuits]
    rfl

theorem exists_of_comparisonForm (field : String) {v : Value} (hv : ComparisonForm v) :
    ∃ c : Condition, ofValue field v = .ok (.is c) ∧ c.WellFormed := by
  obtain @⟨c, v, hsuits⟩ := hv
  obtain ⟨o, ho, rfl⟩ := Operand.exists_ofValue field (.compare c) hsuits
  refine ⟨⟨c, o⟩, ?_, (Condition.wellFormed_iff _).2 hsuits⟩
  rw [ofValue_compare, ho]
  rfl

theorem wellFormed_of_ofValue {field : String} {v : Value} (hv : CanonicalField v) {p : Predicate}
    (h : ofValue field v = .ok p) : p.condition.WellFormed := by
  cases hv with
  | is hv =>
    obtain ⟨c, hc, hwell⟩ := exists_of_comparisonForm field hv
    rw [hc] at h
    cases h
    exact hwell
  | not hv =>
    obtain ⟨c, hc, hwell⟩ := exists_of_comparisonForm field hv
    rw [ofValue_not, hc] at h
    cases h
    exact hwell

end Predicate

/-! ## Clauses -/

namespace Clause

theorem toValues_eq_map (clauses : List Clause) : toValues clauses = clauses.map toValue := by
  induction clauses with
  | nil => rfl
  | cons c rest ih => rw [toValues, ih, List.map_cons]

theorem forall_mem_toValues {clauses : List Clause} {P : Value → Prop} (h : ∀ c ∈ clauses, P c.toValue) :
    ∀ v ∈ toValues clauses, P v := by
  rw [toValues_eq_map]
  exact List.forall_mem_map.2 h

theorem toValues_ne_nil {clauses : List Clause} (h : clauses ≠ []) : toValues clauses ≠ [] := by
  rw [toValues_eq_map]
  exact fun hnil => h (List.map_eq_nil_iff.1 hnil)

theorem ofValues_toValues {clauses : List Clause} (h : ∀ c ∈ clauses, ofValue c.toValue = .ok c) :
    ofValues (toValues clauses) = .ok clauses := by
  induction clauses with
  | nil => rfl
  | cons c rest ih =>
    rw [List.forall_mem_cons] at h
    rw [toValues, ofValues, h.1, ih h.2]
    rfl

theorem clauseOver_toValue {c : Clause} (h : c.WellFormed) : ClauseOver CanonicalField c.toValue := by
  induction h with
  | field hname hp => exact .field hname (Predicate.canonicalField_toValue hp)
  | junction hne _ ih => exact .junction (toValues_ne_nil hne) (forall_mem_toValues ih)
  | not hne _ ih => exact .not (toValues_ne_nil hne) (forall_mem_toValues ih)

/-- **Lifting undoes lowering** where a clause has no faults. -/
theorem ofValue_toValue {c : Clause} (h : c.WellFormed) : ofValue c.toValue = .ok c := by
  induction h with
  | @field name p hname hp =>
    rw [toValue, ofValue_field hname, Predicate.ofValue_toValue name hp]
    rfl
  | @junction j clauses _ _ ih =>
    rw [toValue, ofValue_junction, ofValues_toValues ih]
    rfl
  | @not clauses _ _ ih =>
    rw [toValue, ofValue_not, ofValues_toValues ih]
    rfl

theorem wellFormed_of_ofValues {clauses : List Value} (h : ∀ v ∈ clauses, ∀ c, ofValue v = .ok c → c.WellFormed)
    {lifted : List Clause} (hlifted : ofValues clauses = .ok lifted) :
    (clauses ≠ [] → lifted ≠ []) ∧ ∀ c ∈ lifted, c.WellFormed := by
  induction clauses generalizing lifted with
  | nil =>
    cases hlifted
    exact ⟨fun hne => absurd rfl hne, nofun⟩
  | cons v rest ih =>
    rw [List.forall_mem_cons] at h
    rw [ofValues] at hlifted
    cases hv : ofValue v with
    | error e =>
      rw [hv] at hlifted
      cases hlifted
    | ok c =>
      cases hrest : ofValues rest with
      | error e =>
        rw [hv, hrest] at hlifted
        cases hlifted
      | ok others =>
        rw [hv, hrest] at hlifted
        cases hlifted
        exact ⟨fun _ => List.cons_ne_nil _ _, List.forall_mem_cons.2 ⟨h.1 c hv, (ih h.2 hrest).2⟩⟩

theorem wellFormed_of_ofValue {v : Value} (hv : ClauseOver CanonicalField v) {c : Clause}
    (h : ofValue v = .ok c) : c.WellFormed := by
  induction hv generalizing c with
  | @field name v hname hv =>
    rw [ofValue_field hname] at h
    obtain ⟨p, hp, rfl⟩ := Except.exists_of_map_eq_ok h
    exact .field hname (Predicate.wellFormed_of_ofValue hv hp)
  | @junction j clauses hne _ ih =>
    rw [ofValue_junction] at h
    obtain ⟨lifted, hlifted, rfl⟩ := Except.exists_of_map_eq_ok h
    obtain ⟨hnonempty, hwell⟩ := wellFormed_of_ofValues (fun v hv c => ih v hv) hlifted
    exact .junction (hnonempty hne) hwell
  | @not clauses hne _ ih =>
    rw [ofValue_not] at h
    obtain ⟨lifted, hlifted, rfl⟩ := Except.exists_of_map_eq_ok h
    obtain ⟨hnonempty, hwell⟩ := wellFormed_of_ofValues (fun v hv c => ih v hv) hlifted
    exact .not (hnonempty hne) hwell

end Clause

/-! ## Selectors -/

namespace Selector

theorem junctionOver_toValue {clauses : List Clause} (hne : clauses ≠ []) (h : ∀ c ∈ clauses, c.WellFormed)
    (j : Junction) : JunctionOver CanonicalField (toValue (.junction j clauses)) :=
  .mk (Clause.toValues_ne_nil hne) (Clause.forall_mem_toValues fun c hc => Clause.clauseOver_toValue (h c hc))

theorem WellFormed.isCanonical_toValue {s : Selector} (h : s.WellFormed) : IsCanonical s.toValue := by
  cases h with
  | wildcard => exact .everything
  | @junction j _ hne h => exact .junction (junctionOver_toValue hne h j)

theorem lift_toValue {clauses : List Clause} (h : ∀ c ∈ clauses, c.WellFormed) (j : Junction) :
    lift (toValue (.junction j clauses)) = .ok (.junction j clauses) := by
  have hclauses := Clause.ofValues_toValues fun c hc => Clause.ofValue_toValue (h c hc)
  rw [toValue, lift_junction, hclauses]
  rfl

theorem wellFormed_of_liftCanonical {v : Value} (hv : IsCanonical v) {s : Selector}
    (h : liftCanonical v = .ok s) : s.WellFormed := by
  cases hv with
  | everything =>
    cases h
    exact .wildcard
  | junction hv =>
    rw [liftCanonical_of_junctionOver hv] at h
    obtain @⟨j, clauses, hne, hclauses⟩ := hv
    rw [lift_junction] at h
    obtain ⟨lifted, hlifted, rfl⟩ := Except.exists_of_map_eq_ok h
    obtain ⟨hnonempty, hwell⟩ := Clause.wellFormed_of_ofValues
      (fun v hv c => Clause.wellFormed_of_ofValue (hclauses v hv)) hlifted
    exact .junction (hnonempty hne) hwell

theorem wellFormed_of_parse {raw : Value} {s : Selector} (h : parse raw = .ok s) : s.WellFormed := by
  rw [parse] at h
  cases hcanonical : canonical raw with
  | error e =>
    rw [hcanonical] at h
    cases h
  | ok c =>
    rw [hcanonical] at h
    exact wellFormed_of_liftCanonical (isCanonical_of_canonical hcanonical) h

theorem parse_of_ofCanonical {v : Value} {s : Selector} (h : ofCanonical v = .ok s) : parse v = .ok s := by
  by_cases hne : v = .empty
  · subst hne
    exact h
  · cases hcheck : check v with
    | error fault =>
      rw [ofCanonical_of_ne_empty hne, hcheck] at h
      cases h
    | ok => rw [← Checked.ofCanonical_eq_parse (check_eq_ok_iff.1 hcheck), h]

theorem wellFormed_of_ofCanonical {v : Value} {s : Selector} (h : ofCanonical v = .ok s) : s.WellFormed :=
  wellFormed_of_parse (parse_of_ofCanonical h)

theorem WellFormed.ofCanonical_toValue {s : Selector} (h : s.WellFormed) : ofCanonical s.toValue = .ok s := by
  cases h with
  | wildcard => rfl
  | @junction j clauses hne h =>
    have hchecked : Checked (toValue (.junction j clauses)) :=
      (junctionOver_toValue hne h j).mono fun _ => CanonicalField.checked
    rw [ofCanonical_of_ne_empty hchecked.ne_empty, check_eq_ok_iff.2 hchecked]
    exact lift_toValue h j

/-- **Lowering and lifting are inverse on the trees without faults, and on no others.** A tree is recovered from the
value that it is lowered to just if it has no faults; this value is then canonical already. Every tree that a value
is read as, in any form or as it stands, has no faults. -/
theorem ofCanonical_toValue_iff (s : Selector) :
    (ofCanonical s.toValue = .ok s ↔ s.WellFormed) ∧
    (s.WellFormed → canonical s.toValue = .ok s.toValue) ∧
    (∀ raw, parse raw = .ok s → s.WellFormed) ∧
    ∀ v, ofCanonical v = .ok s → s.WellFormed :=
  ⟨⟨wellFormed_of_ofCanonical, WellFormed.ofCanonical_toValue⟩, fun h => h.isCanonical_toValue.canonical_eq,
    fun _ => wellFormed_of_parse, fun _ => wellFormed_of_ofCanonical⟩

/-- A negated presence beside a negated list. -/
def sparse : Selector :=
  .junction .or [.field "a" (.not ⟨.present, .bool true⟩), .not [.field "b" (.is ⟨.lt, .uint 3⟩)]]

theorem wellFormed_sparse : sparse.WellFormed := by
  have hpresent : (Clause.field "a" (.not ⟨.present, .bool true⟩)).WellFormed := .field (by decide) rfl
  have hless : (Clause.field "b" (.is ⟨.lt, .uint 3⟩)).WellFormed := .field (by decide) nofun
  refine .junction (List.cons_ne_nil _ _) (List.forall_mem_cons.2 ⟨hpresent, List.forall_mem_singleton.2 ?_⟩)
  exact .not (List.cons_ne_nil _ _) (List.forall_mem_singleton.2 hless)

theorem ofCanonical_toValue_iff_sparse : sparse.WellFormed ∧ canonical sparse.toValue = .ok sparse.toValue ∧
    ofCanonical sparse.toValue = .ok sparse ∧
    ofCanonical (toValue (.junction .and [.field "$or" (.is ⟨.eq, .int 1⟩)])) ≠
      .ok (.junction .and [.field "$or" (.is ⟨.eq, .int 1⟩)]) := by
  refine ⟨wellFormed_sparse, (ofCanonical_toValue_iff sparse).2.1 wellFormed_sparse,
    (ofCanonical_toValue_iff sparse).1.2 wellFormed_sparse, fun h => ?_⟩
  -- the name of the field is an operator
  cases (ofCanonical_toValue_iff _).1.1 h with
  | junction _ hclauses =>
    cases hclauses _ List.mem_cons_self with
    | field hname _ => exact hname rfl

end Selector

end Docket
