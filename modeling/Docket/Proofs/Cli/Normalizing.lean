import Docket.Proofs.Cli.Replies
import Docket.Proofs.Json.Indenting
import Docket.Proofs.Selector.Exact

/-!
# Normalizing what was normalized

The text of a canonical form is read as this form, and a canonical form stays as it is. So normalizing settles after
one step, with one exception: a level is put around an operand that stands alone, and the text that this makes may
be nested too deep to be read (**`normalize_settles`**).

* `Value.exact_of_ofText?`: what is read is held exactly by JSON.
* `Value.ofText?_indented`: the text of a value in lines is read as this value, unless it is nested too deep.
* `normalize_canonical`: what is answered for the text of a canonical form.
-/

namespace Docket

open Json (maxNesting)

/-! ## Text of values -/

namespace Value

theorem exact_of_ofText? {text : String} {v : Value} (h : ofText? text = some v) : v.Exact := by
  obtain ⟨j, hj, rfl⟩ := Option.map_eq_some_iff.1 h
  exact exact_ofJson j (Json.distinct_and_depth_le_of_ofText? hj).1

theorem ofText?_text {v : Value} (h : v.Exact) :
    ofText? v.text = if v.toJson.depth ≤ maxNesting then some v else none := by
  rw [ofText?, text, Json.ofText?_text (distinct_toJson v), apply_ite (Option.map ofJson), Option.map_some,
    ofJson_toJson v h, Option.map_none]

theorem ofText?_indented {v : Value} (h : v.Exact) :
    ofText? v.toJson.indented = if v.toJson.depth ≤ maxNesting then some v else none := by
  rw [ofText?, Json.ofText?_indented_eq]
  exact ofText?_text h

theorem exists_text_map (entries : List (String × Value)) : ∃ rest, (map entries).text.toList = '\x7b' :: rest := by
  rw [text, Json.text, String.toList_ofList, toJson]
  cases Json.merge (toJsonEntries entries) with
  | nil => exact ⟨_, rfl⟩
  | cons e rest => exact ⟨_, rfl⟩

theorem exists_indented_map (entries : List (String × Value)) :
    ∃ rest, (map entries).toJson.indented.toList = '\x7b' :: rest := by
  rw [Json.indented, String.toList_ofList, toJson]
  cases Json.merge (toJsonEntries entries) with
  | nil => exact ⟨_, rfl⟩
  | cons e rest => exact ⟨_, rfl⟩

end Value

theorem Selector.IsCanonical.exists_map {c : Value} (h : IsCanonical c) : ∃ entries, c = .map entries := by
  cases h with
  | everything => exact ⟨_, rfl⟩
  | junction h =>
    obtain ⟨_, _⟩ := h
    exact ⟨_, rfl⟩

namespace Cli

/-! ## Normalizing twice -/

theorem normalize_eq_ok_iff {text answer : String} : normalize text = .ok answer ↔
    ∃ raw c, Value.ofText? text = some raw ∧ Selector.canonical raw = .ok c ∧ answer = c.toJson.indented := by
  unfold normalize
  cases Value.ofText? text with
  | none => simp
  | some raw =>
    cases hc : Selector.canonical raw with
    | error e => simp [hc]
    | ok c => simp [hc, eq_comm]

/-- What is answered for the text of a canonical form. -/
theorem normalize_canonical {raw c : Value} (hraw : raw.Exact) (hc : Selector.canonical raw = .ok c) :
    normalize c.toJson.indented =
      if c.toJson.depth ≤ maxNesting then .ok c.toJson.indented else .error (.notJson "selector") := by
  have hread := Value.ofText?_indented (Selector.exact_of_canonical hraw hc)
  have hfixed : Selector.canonical c = .ok c := (Selector.isCanonical_of_canonical hc).canonical_eq
  rw [normalize, hread]
  split_ifs
  · simp only [hfixed]
  · rfl

theorem respond_normalize_eq_ok {d : Disk} {text answer : String} (h : (respond d ["normalize", text]).1 = .ok answer) :
    normalize text = .ok answer := by
  unfold respond at h
  cases hparse : Invocation.parse ["normalize", text] with
  | error e =>
    rw [hparse] at h
    cases h
  | ok i =>
    have hcommand := Invocation.command_of_parse_normalize hparse
    simp only [hparse, Invocation.run, hcommand] at h
    cases hn : normalize text with
    | error e =>
      rw [hn] at h
      cases h
    | ok printed =>
      rw [hn] at h
      cases h
      rfl

theorem respond_normalize_of_word {text : String} {c : Char} {rest : List Char} (htext : text.toList = c :: rest)
    (hc : c ≠ '-') (d : Disk) : respond d ["normalize", text] = ((normalize text).mapError .failure, d) := by
  rw [respond, Invocation.parse_normalize_of_word htext hc]
  rfl

/-- **Normalizing settles after one step, unless the answer is nested too deep to be read.** What is answered for an
answer is the answer itself; but where more lists and maps stand inside one another than may be read, it is
refused. -/
theorem normalize_settles {d : Disk} {text answer : String} (h : (respond d ["normalize", text]).1 = .ok answer) :
    ∃ raw c, Value.ofText? text = some raw ∧ Selector.canonical raw = .ok c ∧ answer = c.toJson.indented ∧
      ∀ d', respond d' ["normalize", answer] =
        (if c.toJson.depth ≤ maxNesting then .ok answer else .error (.failure (.notJson "selector")), d') := by
  obtain ⟨raw, c, hraw, hc, rfl⟩ := normalize_eq_ok_iff.1 (respond_normalize_eq_ok h)
  refine ⟨raw, c, hraw, hc, rfl, fun d' => ?_⟩
  obtain ⟨entries, rfl⟩ := (Selector.isCanonical_of_canonical hc).exists_map
  obtain ⟨rest, hrest⟩ := Value.exists_indented_map entries
  rw [respond_normalize_of_word hrest (by decide), normalize_canonical (Value.exact_of_ofText? hraw) hc]
  split <;> rfl

end Cli

/-! ## Nested junctions -/

namespace Selector

/-- A field under that many junctions. -/
def nested (v : Value) : Nat → Value
  | 0 => .single "a" v
  | n + 1 => .single "$and" (.list [nested v n])

theorem depth_nested (v : Value) (n : Nat) : (nested v n).toJson.depth = 2 * n + 1 + v.toJson.depth := by
  induction n with
  | zero => exact (congrArg (· + 1) (Nat.max_zero _)).trans (Nat.add_comm _ _)
  | succ n ih =>
    have hdepth : (nested v (n + 1)).toJson.depth = max (max (nested v n).toJson.depth 0 + 1) 0 + 1 := rfl
    omega

theorem exact_nested {v : Value} (h : v.Exact) (n : Nat) : (nested v n).Exact := by
  induction n with
  | zero => exact Value.exact_single.2 h
  | succ n ih => exact Value.exact_single.2 (Value.exact_list.2 (List.forall_mem_singleton.2 ih))

theorem clauseOver_nested {v : Value} (h : WrittenField v) (n : Nat) : ClauseOver WrittenField (nested v n) := by
  induction n with
  | zero => exact .field (by decide) h
  | succ n ih => exact .junction (j := .and) (List.cons_ne_nil _ _) (List.forall_mem_singleton.2 ih)

theorem longhandClause_nested (v : Value) (n : Nat) : longhandClause (nested v n) = nested (longhandField v) n := by
  induction n with
  | zero => exact longhandClause_field (by decide) v
  | succ n ih =>
    have hand : IsOperator "$and" := by decide
    rw [nested, longhandClause_compound hand, List.map_singleton, ih]
    rfl

theorem canonical_nested {v : Value} (h : WrittenField v) (n : Nat) :
    canonical (nested v (n + 1)) = .ok (nested (longhandField v) (n + 1)) := by
  have hwritten : JunctionOver WrittenField (nested v (n + 1)) :=
    .mk (j := .and) (List.cons_ne_nil _ _) (List.forall_mem_singleton.2 (clauseOver_nested h n))
  have hand : IsOperator "$and" := by decide
  have hlonghand : longhand (nested v (n + 1)) = nested (longhandField v) (n + 1) := by
    rw [nested, longhand_compound hand, List.map_singleton, longhandClause_nested]
    rfl
  have hne : nested v (n + 1) ≠ .empty := nofun
  have hchecked : Checked (longhand (nested v (n + 1))) :=
    (isCanonical_longhand (.junction hwritten) hne).mono fun _ => CanonicalField.checked
  rw [hlonghand] at hchecked
  refine canonical_eq_ok_iff.2 ⟨(Written.junction hwritten).fraction?_eq_none, .inr ⟨hne, ?_, hlonghand.symm⟩⟩
  rwa [hlonghand]

end Selector

namespace Cli

open Selector (nested)

/-- The number one as an operand that stands alone. -/
def one : Value := .num (.int 1)

theorem isOperand_one : Selector.IsOperand one := .num id

theorem exact_one : one.Exact := rfl

theorem ofText?_nested {n : Nat} (h : 2 * n + 1 ≤ maxNesting) :
    Value.ofText? (nested one n).text = some (nested one n) := by
  rw [Value.ofText?_text (Selector.exact_nested exact_one n), Selector.depth_nested]
  exact if_pos h

theorem canonical_nested_one (n : Nat) :
    Selector.canonical (nested one (n + 1)) = .ok (nested (.single "$eq" one) (n + 1)) := by
  rw [Selector.canonical_nested (.operand isOperand_one), isOperand_one.longhandField_eq]

theorem respond_nested {n : Nat} (h : 2 * n + 3 ≤ maxNesting) (d : Disk) :
    respond d ["normalize", (nested one (n + 1)).text] =
      (.ok (nested (.single "$eq" one) (n + 1)).toJson.indented, d) := by
  have hanswer := normalize_eq_ok_iff.2 ⟨_, _, ofText?_nested (n := n + 1) h, canonical_nested_one n, rfl⟩
  obtain ⟨rest, hrest⟩ : ∃ rest, (nested one (n + 1)).text.toList = '\x7b' :: rest := Value.exists_text_map _
  have hwords := respond_normalize_of_word hrest (by decide) d
  rw [hwords, hanswer]
  rfl

/-- One junction below the limit. -/
theorem normalize_settles_nested : ∃ answer,
    (respond .blank ["normalize", (nested one 62).text]).1 = .ok answer ∧
      respond .blank ["normalize", answer] = (.ok answer, .blank) := by
  have hfirst := congrArg Prod.fst (respond_nested (n := 61) (by decide) .blank)
  obtain ⟨raw, c, hraw, hc, -, hsettled⟩ := normalize_settles hfirst
  obtain rfl : nested one 62 = raw := Option.some.inj ((ofText?_nested (by decide)).symm.trans hraw)
  obtain rfl : nested (.single "$eq" one) 62 = c := Except.ok.inj ((canonical_nested_one 61).symm.trans hc)
  have hdepth : (nested (.single "$eq" one) 62).toJson.depth ≤ maxNesting := by
    rw [Selector.depth_nested]
    decide
  exact ⟨_, hfirst, (hsettled .blank).trans (by rw [if_pos hdepth])⟩

/-- With one junction more the answer is refused. -/
theorem normalize_refuses_nested : ∃ answer,
    (respond .blank ["normalize", (nested one 63).text]).1 = .ok answer ∧
      respond .blank ["normalize", answer] = (.error (.failure (.notJson "selector")), .blank) := by
  have hfirst := congrArg Prod.fst (respond_nested (n := 62) (by decide) .blank)
  have hdepth : ¬ (nested (.single "$eq" one) 63).toJson.depth ≤ maxNesting := by
    rw [Selector.depth_nested]
    decide
  have hagain := normalize_canonical (Selector.exact_nested exact_one 63) (canonical_nested_one 62)
  obtain ⟨rest, hrest⟩ : ∃ rest, (nested (.single "$eq" one) 63).toJson.indented.toList = '\x7b' :: rest :=
    Value.exists_indented_map _
  have hwords := respond_normalize_of_word hrest (by decide) .blank
  rw [if_neg hdepth] at hagain
  rw [hagain] at hwords
  exact ⟨_, hfirst, hwords⟩

end Cli

end Docket
