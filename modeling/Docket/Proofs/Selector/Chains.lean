import Docket.Proofs.Selector.Rewriting

/-!
# Chains of negations

Every value is some number of negations over something that is no negation. If that is a map of one entry the chain
counts by its parity, and a `$ne` at its end turns it once more. If it is anything else the chain is broken and stays as
it is, whatever its length (**`collapse_chains`**).

* `Selector.negated`: a value under that many negations.
* `Selector.Chain`, `Selector.Broken`, `Selector.chain_or_broken`: every value is one of the two.
* `Selector.collapse_negated_of_ne`, `Selector.collapse_negated_ne`: chains by their parity.
* `Selector.collapse_collapse`: a collapsed value stays as it is.
* `Selector.peel`, `Selector.collapseDown`: going down a chain with a flag.
-/

namespace Docket.Selector

/-! ## Every value as a chain -/

/-- A value under that many negations. -/
def negated (p : Value) : Nat → Value
  | 0 => p
  | n + 1 => .single "$not" (negated p n)

/-- Negations over a map of one entry that is no negation. -/
def Chain (p : Value) : Prop := ∃ n op v, op ≠ "$not" ∧ p = negated (.single op v) n

/-- Negations over what is no map of one entry. -/
def Broken (p : Value) : Prop := ∃ n q, q.single? = none ∧ p = negated q n

theorem unwrapNot?_of_single?_eq_none {q : Value} (hq : q.single? = none) : unwrapNot? q = none := by
  unfold unwrapNot?
  split
  · cases hq
  · rfl

theorem odd_succ (n : Nat) : decide ((n + 1) % 2 = 1) = !decide (n % 2 = 1) := by
  rw [← decide_not, decide_eq_decide]
  omega

theorem unwrapNot?_negated {op : String} (hop : op ≠ "$not") (v : Value) (n : Nat) :
    unwrapNot? (negated (.single op v) n) = some (.single op v, decide (n % 2 = 1)) := by
  induction n with
  | zero => exact unwrapNot?_of_ne hop v
  | succ n ih => rw [negated, unwrapNot?_not, ih, Option.map_some, odd_succ]

theorem unwrapNot?_negated_eq_none {q : Value} (hq : q.single? = none) (n : Nat) :
    unwrapNot? (negated q n) = none := by
  induction n with
  | zero => exact unwrapNot?_of_single?_eq_none hq
  | succ n ih => rw [negated, unwrapNot?_not, ih, Option.map_none]

/-- Every value is some number of negations over something that is no negation. -/
theorem chain_or_broken (p : Value) : Chain p ∨ Broken p := by
  fun_induction unwrapNot? p with
  | case1 v ih =>
    obtain ⟨n, op, w, hop, rfl⟩ | ⟨n, q, hq, rfl⟩ := ih
    · exact .inl ⟨n + 1, op, w, hop, rfl⟩
    · exact .inr ⟨n + 1, q, hq, rfl⟩
  | case2 op v hop => exact .inl ⟨0, op, v, hop, rfl⟩
  | case3 q hq =>
    refine .inr ⟨0, q, ?_, rfl⟩
    rw [Option.eq_none_iff_forall_ne_some]
    rintro ⟨op, v⟩ hs
    exact hq op v (Value.eq_single_of_single? hs)

theorem chain_iff {p : Value} : Chain p ↔ (unwrapNot? p).isSome := by
  constructor
  · rintro ⟨n, op, v, hop, rfl⟩
    rw [unwrapNot?_negated hop]
    rfl
  · intro hsome
    refine (chain_or_broken p).resolve_right ?_
    rintro ⟨n, q, hq, rfl⟩
    rw [unwrapNot?_negated_eq_none hq] at hsome
    cases hsome

theorem not_chain_iff {p : Value} : ¬ Chain p ↔ Broken p := by
  refine ⟨(chain_or_broken p).resolve_left, ?_⟩
  rintro ⟨n, q, hq, rfl⟩
  rw [chain_iff, unwrapNot?_negated_eq_none hq]
  decide

/-! ## Collapsing -/

theorem collapse_negated {op : String} (hop : op ≠ "$not") (v : Value) (n : Nat) :
    collapse (negated (.single op v) n) = expandShorthand (signed (decide (n % 2 = 1)) (.single op v)) :=
  collapse_of_unwrapNot? (unwrapNot?_negated hop v n)

/-- A chain counts by its parity. -/
theorem collapse_negated_of_ne {op : String} (hop : op ≠ "$not") (hne : op ≠ "$ne") (v : Value) (n : Nat) :
    collapse (negated (.single op v) n) = if n % 2 = 0 then .single op v else .single "$not" (.single op v) := by
  rw [collapse_negated hop, expandShorthand_signed hop hne, signed]
  rcases Nat.mod_two_eq_zero_or_one n with h | h <;> simp [h]

theorem collapse_negated_ne (v : Value) (n : Nat) :
    collapse (negated (.single "$ne" v) n) = collapse (negated (.single "$eq" v) (n + 1)) := by
  rw [collapse_negated (by decide), collapse_negated (by decide), expandShorthand_signed_ne, odd_succ,
    expandShorthand_signed (by decide) (by decide)]

theorem collapse_of_not_chain {p : Value} (h : ¬ Chain p) : collapse p = p := by
  rw [chain_iff, Option.not_isSome_iff_eq_none] at h
  exact collapse_of_unwrapNot?_none h

theorem collapse_collapse (p : Value) : collapse (collapse p) = collapse p := by
  by_cases hp : Chain p
  · obtain ⟨n, op, v, hop, rfl⟩ := hp
    rw [collapse_negated hop]
    by_cases hne : op = "$ne"
    · rw [hne, expandShorthand_signed_ne, collapse_signed (by decide) (by decide)]
    · rw [expandShorthand_signed hop hne, collapse_signed hop hne]
  · rw [collapse_of_not_chain hp, collapse_of_not_chain hp]

/-! ## Going down -/

/-- Goes down a chain to what stands under it, with a flag that is turned at each negation. -/
def peel (flag : Bool) : Value → Option (Value × Bool)
  | .map [(op, v)] => if op = "$not" then peel (!flag) v else some (.single op v, flag)
  | _ => none

/-- A predicate collapsed by going down. The flag is turned from the second negation on, so if it ends up turned the
first one goes as well. What stands under a broken chain is put back. -/
def collapseDown (p : Value) : Value :=
  match p.single? with
  | none => p
  | some (op, operand) =>
    if ((Keyword.ofText? op).bind Keyword.shorthand?).isSome then expandShorthand p
    else if op = "$not" then
      match (peel false operand).getD (operand, false) with
      | (inner, invert) => expandShorthand (if invert then inner else .single "$not" inner)
    else p

/-- The flag is turned as often as there are negations. -/
theorem peel_eq (flag : Bool) (p : Value) : peel flag p = (unwrapNot? p).map fun r => (r.1, flag ^^ r.2) := by
  fun_induction unwrapNot? p generalizing flag with
  | case1 v ih =>
    rw [peel, if_pos rfl, ih, Option.map_map]
    congr 1
    funext r
    simp
  | case2 op v hop => rw [peel, if_neg hop, Option.map_some, Bool.xor_false]
  | case3 q hq =>
    rw [Option.map_none]
    unfold peel
    split
    · next op v => exact (hq op v rfl).elim
    · rfl

theorem collapseDown_eq (p : Value) : collapseDown p = collapse p := by
  cases hs : p.single? with
  | none => simp only [collapseDown, collapse, hs]
  | some e =>
    obtain ⟨op, v⟩ := e
    obtain rfl := Value.eq_single_of_single? hs
    by_cases hnot : op = "$not"
    · subst hnot
      have hshort : (Keyword.ofText? "$not").bind Keyword.shorthand? = none := rfl
      simp only [collapseDown, collapse, Value.single?_single, hshort, peel_eq]
      rcases unwrapNot? v with _ | ⟨inner, _ | _⟩ <;> rfl
    · rw [collapse_of_ne hnot]
      by_cases hne : op = "$ne"
      · subst hne
        rfl
      · rw [expandShorthand_of_ne hnot hne]
        simp only [collapseDown, Value.single?_single, shorthand?_of_ne hne, Option.isSome_none, Bool.false_eq_true,
          if_false, if_neg hnot]

/-! ## Every predicate -/

/-- **Chains collapse by their parity, and broken ones stay.** Under any number of negations a map of one entry that is
no negation comes out as it is if the number is even, and under one negation if it is odd; a `$ne` comes out as a
negated `$eq` if the number is even, and as `$eq` if it is odd. What is no such chain is a chain over a scalar, a list
or a map without entries or with more than one, and comes out as it is. So what has been collapsed stays as it is. Going
down the chain with a flag, and putting a broken one back, gives the same on every value. -/
theorem collapse_chains :
    (∀ n op v, op ≠ "$not" → op ≠ "$ne" → collapse (negated (.single op v) n) =
      if n % 2 = 0 then .single op v else .single "$not" (.single op v)) ∧
    (∀ n v, collapse (negated (.single "$ne" v) n) =
      if n % 2 = 0 then .single "$not" (.single "$eq" v) else .single "$eq" v) ∧
    (∀ p, ¬ Chain p → collapse p = p) ∧
    (∀ p, ¬ Chain p ↔ Broken p) ∧
    (∀ p, collapse (collapse p) = collapse p) ∧
    ∀ p, collapseDown p = collapse p := by
  refine ⟨fun n op v hop hne => collapse_negated_of_ne hop hne v n, ?_, fun _ => collapse_of_not_chain,
    fun _ => not_chain_iff, collapse_collapse, collapseDown_eq⟩
  intro n v
  rw [collapse_negated_ne, collapse_negated_of_ne (by decide) (by decide)]
  split_ifs <;> first | rfl | omega

/-- Three negations of a test, two of a test with `$ne`, and two of the empty map. -/
theorem collapse_chains_broken :
    (("$gt" ≠ "$not" ∧ "$gt" ≠ "$ne") ∧ collapse (negated (.single "$gt" (.str "x")) 3) =
      .single "$not" (.single "$gt" (.str "x"))) ∧
    collapse (negated (.single "$ne" .null) 2) = .single "$not" (.single "$eq" .null) ∧
    (¬ Chain (negated .empty 2) ∧ collapse (negated .empty 2) = negated .empty 2) := by
  obtain ⟨htest, hne, hstays, hbroken, -⟩ := collapse_chains
  have hempty : ¬ Chain (negated .empty 2) := (hbroken _).2 ⟨2, .empty, rfl, rfl⟩
  have hgt : "$gt" ≠ "$not" ∧ "$gt" ≠ "$ne" := by decide
  exact ⟨⟨hgt, htest 3 "$gt" _ hgt.1 hgt.2⟩, hne 2 .null, hempty, hstays _ hempty⟩

end Docket.Selector
