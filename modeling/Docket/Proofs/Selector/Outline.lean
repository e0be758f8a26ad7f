import Docket.Proofs.Selector.Lifting
import Docket.Selector.Outline
import Mathlib.Data.List.Basic

/-!
# Nothing is lost, repeated or moved

The rewriting keeps the outline of every clause, well-formed or not, and puts one junction around the fields of a
selector without operators. Lowering keeps the outline of every tree. So a selector, its canonical form and its tree
make the same tests from left to right (**`Selector.outlines_canonical_and_parse`**).

* `Value.innermost_longhandField`: the operand under the operators on a field stays.
* `Selector.outlines_longhandClause`, `Selector.outlines_longhand_compound`, `Selector.outlines_longhand_fields`: the
  outline of what is rewritten.
* `Clause.outlines_toValue`, `Selector.outlines_toValue`: the outline of what is lowered.
* `Selector.fields_eq`: the fields of a tree are those of its tests.
-/

namespace Docket

open Selector (IsOperator Junction longhandField longhandClause)

/-! ## Outlines in order -/

namespace Value

theorem clauseOutlines_eq (clauses : List Value) : clauseOutlines clauses = clauses.flatMap outlines := by
  induction clauses with
  | nil => rfl
  | cons c rest ih => rw [clauseOutlines, ih, List.flatMap_cons]

theorem entryOutlines_eq (entries : List (String × Value)) :
    entryOutlines entries = entries.map fun e => entryOutline e.1 e.2 := by
  induction entries with
  | nil => rfl
  | cons e rest ih => rw [entryOutlines, ih, List.map_cons]

theorem outlines_single (key : String) (v : Value) : (single key v).outlines = [entryOutline key v] := rfl

theorem outlines_compound {op : String} (hop : IsOperator op) (clauses : List Value) :
    (single op (.list clauses)).outlines = [.compound op (clauses.flatMap outlines)] := by
  rw [outlines_single, entryOutline, if_pos hop, clauseOutlines_eq]

theorem outlines_field {name : String} (hname : ¬ IsOperator name) (v : Value) :
    (single name v).outlines = [.test name v.innermost] := by
  cases v with
  | list items =>
    rw [outlines_single, entryOutline, if_neg hname]
    rfl
  | null | bool _ | num _ | str _ | map _ => rfl

/-! ## The operand under the operators -/

theorem innermost_single (key : String) (v : Value) : (single key v).innermost = v.innermost := by
  rw [single, innermost]

theorem innermost_expandShorthand (p : Value) : (Selector.expandShorthand p).innermost = p.innermost := by
  unfold Selector.expandShorthand
  split
  · rfl
  · next op operand hp =>
    obtain rfl := eq_single_of_single? hp
    split
    · simp only [innermost_single]
    · split
      · split
        · rfl
        · next inner v hv =>
          obtain rfl := eq_single_of_single? hv
          split
          · simp only [innermost_single]
          · rfl
      · rfl

theorem innermost_signed (b : Bool) (p : Value) : (Selector.signed b p).innermost = p.innermost := by
  cases b with
  | false => rfl
  | true => exact innermost_single _ p

theorem innermost_of_unwrapNot? {p q : Value} {b : Bool} (h : Selector.unwrapNot? p = some (q, b)) :
    q.innermost = p.innermost := by
  fun_induction Selector.unwrapNot? p generalizing b with
  | case1 v ih =>
    obtain ⟨⟨r, c⟩, hr, he⟩ := Option.map_eq_some_iff.1 h
    cases he
    exact (ih hr).trans (innermost_single _ v).symm
  | case2 op v hop =>
    cases h
    rfl
  | case3 => cases h

theorem innermost_collapse (p : Value) : (Selector.collapse p).innermost = p.innermost := by
  cases hp : Selector.unwrapNot? p with
  | none => rw [Selector.collapse_of_unwrapNot?_none hp]
  | some r =>
    obtain ⟨q, b⟩ := r
    rw [Selector.collapse_of_unwrapNot? hp, innermost_expandShorthand, innermost_signed, innermost_of_unwrapNot? hp]

/-- **The operand of a field stays.** -/
theorem innermost_longhandField (v : Value) : (longhandField v).innermost = v.innermost := by
  cases v with
  | map entries => exact innermost_collapse _
  | null | bool _ | num _ | str _ | list _ => exact (innermost_collapse _).trans (innermost_single "$eq" _)

end Value

/-! ## What is rewritten -/

namespace Selector

/-- The rewriting leaves an operator alone that has no list of clauses. -/
theorem longhandClause_operator {op : String} (hop : IsOperator op) {v : Value} (hv : v.items? = none) :
    longhandClause (.single op v) = .single op v := by
  cases v with
  | list items => cases hv
  | null | bool _ | num _ | str _ | map _ =>
    simp only [longhandClause, Value.single, spellEqClause, if_pos hop, collapseClause]

theorem flatMap_outlines_map {f : Value → Value} {clauses : List Value}
    (h : ∀ c ∈ clauses, (f c).outlines = c.outlines) :
    (clauses.map f).flatMap Value.outlines = clauses.flatMap Value.outlines := by
  rw [List.flatMap_map]
  exact List.flatMap_congr h

/-- **The rewriting keeps the outline of a clause**, well-formed or not. -/
theorem outlines_longhandClause (c : Value) : (longhandClause c).outlines = c.outlines := by
  cases hs : c.single? with
  | none => rw [longhandClause_of_single?_eq_none hs]
  | some e =>
    obtain ⟨key, v⟩ := e
    have hc : c = .single key v := Value.eq_single_of_single? hs
    rw [hc]
    by_cases hop : IsOperator key
    · cases hv : v.items? with
      | none => rw [longhandClause_operator hop hv]
      | some clauses =>
        obtain rfl : v = .list clauses := by
          cases v <;> cases hv
          rfl
        have hclauses : ∀ d ∈ clauses, (longhandClause d).outlines = d.outlines :=
          fun d hd => outlines_longhandClause d
        rw [longhandClause_compound hop, Value.outlines_compound hop, Value.outlines_compound hop,
          flatMap_outlines_map hclauses]
    · rw [longhandClause_field hop, Value.outlines_field hop, Value.outlines_field hop, Value.innermost_longhandField]
termination_by sizeOf c
decreasing_by
  rw [hc]
  exact Value.sizeOf_lt_of_mem_clauses hd

theorem outlines_longhand_compound {op : String} (hop : IsOperator op) (clauses : List Value) :
    (longhand (.single op (.list clauses))).outlines = (Value.single op (.list clauses)).outlines := by
  rw [longhand_compound hop, ← longhandClause_compound hop, outlines_longhandClause]

/-- Without operators the entries are what the one junction is over. -/
theorem outlines_longhand_fields {entries : List (String × Value)} (h : ∀ e ∈ entries, ¬ IsOperator e.1) :
    (longhand (.map entries)).outlines = [.compound "$and" (Value.map entries).outlines] := by
  have hclauses : (fieldClauses entries).flatMap Value.outlines = (Value.map entries).outlines := by
    rw [fieldClauses, List.flatMap_map, Value.outlines, Value.entryOutlines_eq]
    exact List.map_eq_flatMap.symm
  have hand : IsOperator "$and" := Junction.and.isOperator_text
  rw [longhand_fields h, Value.outlines_compound hand, flatMap_outlines_map fun c _ => outlines_longhandClause c,
    hclauses]

end Selector

/-! ## What is lowered -/

theorem Operand.innermost_toValue (o : Operand) : o.toValue.innermost = o.toValue := by cases o <;> rfl

theorem Predicate.innermost_toValue (p : Predicate) : p.toValue.innermost = p.condition.operand.toValue := by
  cases p with
  | is c => exact (Value.innermost_single _ _).trans c.operand.innermost_toValue
  | not c =>
    rw [toValue, Value.innermost_single, Value.innermost_single]
    exact c.operand.innermost_toValue

theorem Predicate.outlines_single_toValue (name : String) (p : Predicate) :
    (Value.single name p.toValue).outlines = [.test name p.condition.operand.toValue] := by
  have htest : (Value.single name p.toValue).outlines = [.test name p.toValue.innermost] := by cases p <;> rfl
  rw [htest, p.innermost_toValue]

namespace Clause

mutual

/-- **Lowering keeps the outline of a clause.** -/
theorem outlines_toValue : ∀ c : Clause, c.toValue.outlines = [c.outline]
  | .field name p => by rw [toValue, p.outlines_single_toValue, outline]
  | .junction j clauses => by
    rw [toValue, Value.outlines_compound j.isOperator_text, flatMap_outlines_toValues clauses, outline]
  | .not clauses => by
    rw [toValue, Value.outlines_compound Selector.isOperator_not, flatMap_outlines_toValues clauses, outline]

theorem flatMap_outlines_toValues :
    ∀ clauses : List Clause, (toValues clauses).flatMap Value.outlines = outlinesOf clauses
  | [] => rfl
  | c :: rest => by
    rw [toValues, List.flatMap_cons, outlines_toValue c, flatMap_outlines_toValues rest, outlinesOf]
    rfl

end

mutual

theorem names_eq : ∀ c : Clause, c.names = c.outline.tests.map (·.1)
  | .field _ _ => rfl
  | .junction _ clauses => namesOf_eq clauses
  | .not clauses => namesOf_eq clauses

theorem namesOf_eq : ∀ clauses : List Clause, namesOf clauses = (Outline.testsOf (outlinesOf clauses)).map (·.1)
  | [] => rfl
  | c :: rest => by
    rw [namesOf, names_eq c, namesOf_eq rest, outlinesOf, Outline.testsOf, List.map_append]

end

end Clause

namespace Selector

theorem outlines_toValue (s : Selector) : s.toValue.outlines = s.outlines := by
  cases s with
  | wildcard => rfl
  | junction j clauses =>
    rw [toValue, Value.outlines_compound j.isOperator_text, Clause.flatMap_outlines_toValues, outlines]

theorem tests_toValue (s : Selector) : s.toValue.tests = s.tests := by
  rw [Value.tests, outlines_toValue, tests]

/-! ## Fields in order of first use -/

/-- Names that have been seen before are passed over. -/
theorem foldl_firstUses (names seen : List String) :
    names.foldl (fun seen name => if name ∈ seen then seen else seen ++ [name]) seen =
      seen ++ (names.filter (· ∉ seen)).eraseDups := by
  induction names generalizing seen with
  | nil => simp
  | cons name rest ih =>
    rw [List.foldl_cons, ih]
    by_cases hseen : name ∈ seen
    · rw [if_pos hseen, List.filter_cons_of_neg (by simpa using hseen)]
    · have hrest : (rest.filter (· ∉ seen)).filter (fun n => !n == name) = rest.filter (· ∉ seen ++ [name]) := by
        rw [List.filter_filter]
        refine List.filter_congr fun n _ => ?_
        simp [beq_eq_decide, Bool.and_comm]
      rw [if_neg hseen, List.filter_cons_of_pos (by simpa using hseen), List.eraseDups_cons, hrest, List.append_assoc]
      rfl

theorem firstUses_eq_eraseDups (names : List String) : firstUses names = names.eraseDups := by
  rw [firstUses, foldl_firstUses]
  simp

theorem tests_junction (j : Junction) (clauses : List Clause) :
    (Selector.junction j clauses).tests = Outline.testsOf (Clause.outlinesOf clauses) := List.append_nil _

theorem fields_eq (s : Selector) : s.fields = (s.tests.map (·.1)).eraseDups := by
  cases s with
  | wildcard => rfl
  | junction j clauses => rw [fields, firstUses_eq_eraseDups, Clause.namesOf_eq, tests_junction]

/-! ## Selectors -/

/-- A selector that leaves out the junction around its fields. -/
def LeavesJunctionOut : Value → Prop
  | .map entries => entries ≠ [] ∧ ∀ e ∈ entries, ¬ IsOperator e.1
  | _ => False

/-- The outline of a canonical form is the one of the selector, in the junction that the selector leaves out. -/
theorem outlines_canonical {raw c : Value} (h : canonical raw = .ok c) :
    (LeavesJunctionOut raw → c.outlines = [.compound "$and" raw.outlines]) ∧
      (¬ LeavesJunctionOut raw → c.outlines = raw.outlines) := by
  obtain ⟨-, ⟨rfl, rfl⟩ | ⟨hne, -, rfl⟩⟩ := canonical_eq_ok_iff.1 h
  · exact ⟨fun hout => absurd rfl hout.1, fun _ => rfl⟩
  · cases written_of_canonical h with
    | everything => exact absurd rfl hne
    | junction hwritten =>
      obtain @⟨j, clauses, -, -⟩ := hwritten
      refine ⟨fun hout => ?_, fun _ => outlines_longhand_compound j.isOperator_text clauses⟩
      exact absurd j.isOperator_text (hout.2 _ List.mem_cons_self)
    | fields hentries hwritten =>
      have hout := fun e he => (hwritten e he).1
      exact ⟨fun _ => outlines_longhand_fields hout, fun hin => absurd ⟨hentries, hout⟩ hin⟩

theorem tests_canonical {raw c : Value} (h : canonical raw = .ok c) : c.tests = raw.tests := by
  by_cases hout : LeavesJunctionOut raw
  · rw [Value.tests, (outlines_canonical h).1 hout]
    exact List.append_nil _
  · rw [Value.tests, (outlines_canonical h).2 hout, Value.tests]

/-- **Nothing is lost, repeated or moved.** A selector that is accepted is read as a tree, and its canonical form and
the tree make the tests that it makes itself, in the same order. Their compounds are nested as in the selector, but
for the junction that the selector may leave out around its fields. The fields of the tree are those of the tests,
each at its first use. -/
theorem outlines_canonical_and_parse {raw c : Value} (h : canonical raw = .ok c) :
    c.tests = raw.tests ∧
    (LeavesJunctionOut raw → c.outlines = [.compound "$and" raw.outlines]) ∧
    (¬ LeavesJunctionOut raw → c.outlines = raw.outlines) ∧
    ∃ s, parse raw = .ok s ∧ s.tests = raw.tests ∧ s.outlines = c.outlines ∧
      s.fields = (raw.tests.map (·.1)).eraseDups := by
  obtain ⟨s, hs, rfl⟩ := Except.exists_of_map_eq_ok ((map_toValue_parse raw).trans h)
  have htests : s.tests = raw.tests := s.tests_toValue.symm.trans (tests_canonical h)
  refine ⟨tests_canonical h, (outlines_canonical h).1, (outlines_canonical h).2, s, hs, htests,
    s.outlines_toValue.symm, ?_⟩
  rw [s.fields_eq, htests]

/-- A field that is used twice, beside one under a chain of negations. -/
def twice : Value :=
  .map [("b", .str "x"), ("a", .single "$not" (.single "$ne" (.num (.int 1)))), ("b", .single "$gt" (.str "w"))]

theorem outlines_canonical_and_parse_twice : ∃ c s, canonical twice = .ok c ∧ parse twice = .ok s ∧
    c.tests = [("b", .str "x"), ("a", .num (.int 1)), ("b", .str "w")] ∧ s.fields = ["b", "a"] ∧
    ∃ parts, c.outlines = [.compound "$and" parts] := by
  have htwice : canonical twice = .ok (longhand twice) := rfl
  obtain ⟨htests, hout, -, s, hs, -, -, hfields⟩ := outlines_canonical_and_parse htwice
  refine ⟨_, s, htwice, hs, htests, hfields, _, hout ⟨List.cons_ne_nil _ _, ?_⟩⟩
  decide

end Selector

end Docket
