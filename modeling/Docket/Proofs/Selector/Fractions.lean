import Docket.Proofs.Binary64.Whole
import Docket.Proofs.Selector.Outline
import Docket.Proofs.Selector.WellFormed

/-!
# The first fraction

The search for a fractional number goes through a value from left to right, and it comes before anything is rewritten
or checked. So a value is refused for a fraction just if there is one in it at some depth, and for the first one,
whatever else is wrong with the value (**`Selector.refuses_first_fraction`**).

* `Value.numbers`: the numbers of a value from left to right.
* `Value.fraction?_eq_find?`, `Value.mem_numbers_iff`: the search goes through the numbers, and they are all that stand
  in the value.
* `Value.Number.fractional_iff`: the numbers that are fractional.
* `Selector.canonical_eq_fractional_iff`, `Selector.parse_eq_error_iff`: a fraction decides.
* `Selector.WellFormed.not_fractional`: no operand of a tree without faults is fractional.
-/

namespace Docket

namespace Value

/-! ## Numbers from left to right -/

mutual

/-- The numbers of a value from left to right, at every depth. -/
def numbers : Value → List Number
  | .num n => [n]
  | .list items => itemNumbers items
  | .map entries => entryNumbers entries
  | _ => []

/-- The numbers of items from left to right. -/
def itemNumbers : List Value → List Number
  | [] => []
  | v :: rest => numbers v ++ itemNumbers rest

/-- The numbers of entries from left to right. -/
def entryNumbers : List (String × Value) → List Number
  | [] => []
  | (_, v) :: rest => numbers v ++ entryNumbers rest

end

mutual

/-- **The search goes through the numbers from left to right.** -/
theorem fraction?_eq_find? : ∀ v : Value, v.fraction? = v.numbers.find? (·.Fractional)
  | .num n => by
    rw [fraction?, numbers, List.find?_singleton]
    simp only [decide_eq_true_eq]
  | .list items => fractionItems?_eq_find? items
  | .map entries => fractionEntries?_eq_find? entries
  | .null | .bool _ | .str _ => rfl

theorem fractionItems?_eq_find? :
    ∀ items : List Value, fractionItems? items = (itemNumbers items).find? (·.Fractional)
  | [] => rfl
  | v :: rest => by
    rw [fractionItems?, fraction?_eq_find? v, fractionItems?_eq_find? rest, itemNumbers, List.find?_append]

theorem fractionEntries?_eq_find? :
    ∀ entries : List (String × Value), fractionEntries? entries = (entryNumbers entries).find? (·.Fractional)
  | [] => rfl
  | (_, v) :: rest => by
    rw [fractionEntries?, fraction?_eq_find? v, fractionEntries?_eq_find? rest, entryNumbers, List.find?_append]

end

/-! ## Numbers at every depth -/

theorem itemNumbers_eq (items : List Value) : itemNumbers items = items.flatMap numbers := by
  induction items with
  | nil => rfl
  | cons v rest ih => rw [itemNumbers, ih, List.flatMap_cons]

theorem entryNumbers_eq (entries : List (String × Value)) :
    entryNumbers entries = entries.flatMap fun e => e.2.numbers := by
  induction entries with
  | nil => rfl
  | cons e rest ih => rw [entryNumbers, ih, List.flatMap_cons]

mutual

theorem inside_of_mem_numbers {n : Number} : ∀ {v : Value}, n ∈ v.numbers → (num n).Inside v
  | .num m, h => by
    cases List.mem_singleton.1 h
    exact .self
  | .list items, h => by
    obtain ⟨w, hw, hin⟩ := exists_item_of_mem_numbers h
    exact .item hw hin
  | .map entries, h => by
    obtain ⟨e, he, hin⟩ := exists_entry_of_mem_numbers h
    exact .entry he hin

theorem exists_item_of_mem_numbers {n : Number} :
    ∀ {items : List Value}, n ∈ itemNumbers items → ∃ w ∈ items, (num n).Inside w
  | v :: rest, h => by
    obtain h | h := List.mem_append.1 h
    · exact ⟨v, List.mem_cons_self, inside_of_mem_numbers h⟩
    · obtain ⟨w, hw, hin⟩ := exists_item_of_mem_numbers h
      exact ⟨w, List.mem_cons_of_mem v hw, hin⟩

theorem exists_entry_of_mem_numbers {n : Number} :
    ∀ {entries : List (String × Value)}, n ∈ entryNumbers entries → ∃ e ∈ entries, (num n).Inside e.2
  | e :: rest, h => by
    obtain h | h := List.mem_append.1 h
    · exact ⟨e, List.mem_cons_self, inside_of_mem_numbers h⟩
    · obtain ⟨f, hf, hin⟩ := exists_entry_of_mem_numbers h
      exact ⟨f, List.mem_cons_of_mem e hf, hin⟩

end

/-- **The numbers are all that stand in the value**, at any depth. -/
theorem mem_numbers_iff {n : Number} {v : Value} : n ∈ v.numbers ↔ (num n).Inside v := by
  refine ⟨inside_of_mem_numbers, fun h => ?_⟩
  induction h with
  | self => exact List.mem_singleton_self n
  | @item items w hw _ ih =>
    rw [numbers, itemNumbers_eq]
    exact List.mem_flatMap_of_mem hw ih
  | @entry entries e he _ ih =>
    rw [numbers, entryNumbers_eq]
    exact List.mem_flatMap_of_mem he ih

theorem fraction?_eq_none_iff {v : Value} :
    v.fraction? = none ↔ ∀ n : Number, (num n).Inside v → ¬ n.Fractional := by
  rw [fraction?_eq_find?, List.find?_eq_none]
  simp only [decide_eq_true_eq, mem_numbers_iff]

theorem Number.fractional_iff {n : Number} : n.Fractional ↔ ∃ x : Binary64, n = .float x ∧
    (x.IsNaN ∨ (∃ negative, x = .infinity negative) ∨ (x.IsFinite ∧ Int.fract x.toRat ≠ 0)) := by
  cases n with
  | int n => exact ⟨False.elim, nofun⟩
  | uint n => exact ⟨False.elim, nofun⟩
  | float x =>
    constructor
    · intro h
      exact ⟨x, rfl, Binary64.not_isWhole_iff.1 h⟩
    · rintro ⟨y, hy, h⟩
      cases hy
      exact Binary64.not_isWhole_iff.2 h

end Value

/-! ## Operands of a tree -/

theorem Condition.WellFormed.not_fractional {c : Condition} (h : c.WellFormed) {n : Value.Number}
    (hn : c.operand.toValue = .num n) : ¬ n.Fractional := by
  obtain ⟨op, operand⟩ := c
  cases operand with
  | int m | uint m =>
    cases hn
    exact id
  | float x =>
    cases hn
    exact not_not.2 h.2
  | bool b | str s => cases hn

theorem Outline.mem_testsOf {t : String × Value} {parts : List Outline} :
    t ∈ testsOf parts ↔ ∃ part ∈ parts, t ∈ part.tests := by
  induction parts with
  | nil => simp [testsOf]
  | cons part rest ih => rw [testsOf, List.mem_append, ih, List.exists_mem_cons_iff]

namespace Clause

theorem outlinesOf_eq (clauses : List Clause) : outlinesOf clauses = clauses.map outline := by
  induction clauses with
  | nil => rfl
  | cons c rest ih => rw [outlinesOf, ih, List.map_cons]

theorem exists_of_mem_tests {t : String × Value} {clauses : List Clause}
    (h : t ∈ Outline.testsOf (outlinesOf clauses)) : ∃ c ∈ clauses, t ∈ c.outline.tests := by
  rw [Outline.mem_testsOf, outlinesOf_eq] at h
  simpa using h

theorem WellFormed.not_fractional {c : Clause} (h : c.WellFormed) :
    ∀ t ∈ c.outline.tests, ∀ n, t.2 = .num n → ¬ n.Fractional := by
  induction h with
  | field _ hp =>
    intro t ht n hn
    cases List.mem_singleton.1 ht
    exact hp.not_fractional hn
  | junction _ _ ih | not _ _ ih =>
    intro t ht
    obtain ⟨c, hc, ht⟩ := exists_of_mem_tests ht
    exact ih c hc t ht

end Clause

namespace Selector

theorem WellFormed.not_fractional {s : Selector} (h : s.WellFormed) :
    ∀ t ∈ s.tests, ∀ n, t.2 = .num n → ¬ n.Fractional := by
  intro t ht
  cases h with
  | wildcard => cases ht
  | junction _ h =>
    rw [tests_junction] at ht
    obtain ⟨c, hc, ht⟩ := Clause.exists_of_mem_tests ht
    exact (h c hc).not_fractional t ht

/-! ## A fraction decides -/

theorem canonical_eq_fractional_iff {raw : Value} {n : Value.Number} :
    canonical raw = .error (.fractional n) ↔ raw.fraction? = some n := by
  unfold canonical
  split
  · next m hm =>
    rw [hm]
    simp
  · next hnone =>
    rw [hnone]
    split
    · exact ⟨nofun, nofun⟩
    · split <;> exact ⟨nofun, nofun⟩

/-- A value has no tree for the reason for which it has no canonical form. -/
theorem parse_eq_error_iff {raw : Value} {e : Rejection} : parse raw = .error e ↔ canonical raw = .error e := by
  rw [← map_toValue_parse]
  cases parse raw with
  | error e' => simp [Except.map]
  | ok s => exact ⟨nofun, nofun⟩

theorem exists_fractional_iff (raw : Value) : (∃ n, canonical raw = .error (.fractional n)) ↔
    ∃ n : Value.Number, (Value.num n).Inside raw ∧ n.Fractional := by
  simp only [canonical_eq_fractional_iff, Value.fraction?_eq_find?]
  rw [← Option.isSome_iff_exists, List.find?_isSome]
  simp only [decide_eq_true_eq, Value.mem_numbers_iff]

/-- **Fractions are caught everywhere and first.** A value, whatever it is, is refused for a fractional number just if
a NaN, an infinity or a double with a fractional part stands in it at some depth, and it is refused for the first one
from left to right. There is none in a selector that is accepted, in its canonical form or among the operands of its
tree. -/
theorem refuses_first_fraction :
    (∀ n : Value.Number, n.Fractional ↔ ∃ x : Binary64, n = .float x ∧
      (x.IsNaN ∨ (∃ negative, x = .infinity negative) ∨ (x.IsFinite ∧ Int.fract x.toRat ≠ 0))) ∧
    (∀ raw n, (canonical raw = .error (.fractional n) ↔ raw.numbers.find? (·.Fractional) = some n) ∧
      (parse raw = .error (.fractional n) ↔ raw.numbers.find? (·.Fractional) = some n)) ∧
    (∀ raw, (∃ n, canonical raw = .error (.fractional n)) ↔
      ∃ n : Value.Number, (Value.num n).Inside raw ∧ n.Fractional) ∧
    (∀ raw c, canonical raw = .ok c → ∀ n : Value.Number,
      (Value.num n).Inside raw ∨ (Value.num n).Inside c → ¬ n.Fractional) ∧
    ∀ raw s, parse raw = .ok s → ∀ t ∈ s.tests, ∀ n, t.2 = .num n → ¬ n.Fractional := by
  refine ⟨fun n => Value.Number.fractional_iff, fun raw n => ?_, exists_fractional_iff, fun raw c h n hn => ?_,
    fun raw s h => (wellFormed_of_parse h).not_fractional⟩
  · rw [parse_eq_error_iff, canonical_eq_fractional_iff, Value.fraction?_eq_find?]
    exact ⟨Iff.rfl, Iff.rfl⟩
  · have hraw := (written_of_canonical h).fraction?_eq_none
    have hc := (written_of_canonical (isCanonical_of_canonical h).canonical_eq).fraction?_eq_none
    exact hn.elim (Value.fraction?_eq_none_iff.1 hraw n) (Value.fraction?_eq_none_iff.1 hc n)

/-- One half as a double. -/
def half : Binary64 := ⟨false, ⟨1022, by decide⟩, ⟨0, by decide⟩⟩

/-- Two faults, and behind them two fractions. -/
def malformed : Value :=
  .map [("$or", .num (.int 3)), ("a", .list [.single "$bad" (.num (.float half)), .num (.float .nan)])]

theorem refuses_first_fraction_malformed :
    canonical malformed = .error (.fractional (.float half)) ∧ parse malformed = .error (.fractional (.float half)) ∧
      ∃ c s, canonical twice = .ok c ∧ parse twice = .ok s ∧
        (∀ n : Value.Number, (Value.num n).Inside c → ¬ n.Fractional) ∧
        ∀ t ∈ s.tests, ∀ n, t.2 = .num n → ¬ n.Fractional := by
  obtain ⟨-, hfirst, -, hcanonical, hparse⟩ := refuses_first_fraction
  have hhalf : malformed.numbers.find? (·.Fractional) = some (.float half) := rfl
  obtain ⟨s, hs⟩ : ∃ s, parse twice = .ok s := ⟨_, rfl⟩
  refine ⟨(hfirst malformed _).1.2 hhalf, (hfirst malformed _).2.2 hhalf, longhand twice, s, rfl, hs, fun n hn => ?_,
    hparse twice s hs⟩
  exact hcanonical twice _ rfl n (.inr hn)

end Selector

end Docket
