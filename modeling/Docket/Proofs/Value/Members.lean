import Docket.Value

/-!
# Values and their members

* `Value.sizeOf_lt_of_mem_clauses`: the clauses of a compound are smaller than it.
* `Value.Inside`: a value at any depth of another one.
* `Value.fraction?_list`, `Value.fraction?_map`: no number inside is fractional when none is in a member.
-/

namespace Docket.Value

theorem sizeOf_lt_of_mem_clauses {key : String} {clauses : List Value} {c : Value} (h : c ∈ clauses) :
    sizeOf c < sizeOf (single key (.list clauses)) := by
  have := List.sizeOf_lt_of_mem h
  simp only [single, map.sizeOf_spec, list.sizeOf_spec, List.cons.sizeOf_spec, Prod.mk.sizeOf_spec]
  omega

@[simp] theorem single_inj {k l : String} {v w : Value} : single k v = single l w ↔ k = l ∧ v = w := by
  simp [single]

/-! ## Values at any depth -/

/-- A value that is another one or stands inside of it at any depth. -/
inductive Inside (v : Value) : Value → Prop where
  | self : Inside v v
  | item {items : List Value} {w : Value} (hw : w ∈ items) (h : Inside v w) : Inside v (.list items)
  | entry {entries : List (String × Value)} {e : String × Value} (he : e ∈ entries) (h : Inside v e.2) :
      Inside v (.map entries)

theorem inside_single {v w : Value} {key : String} (h : v.Inside (.single key w)) :
    v = .single key w ∨ v.Inside w := by
  rcases h with _ | _ | ⟨he, h⟩
  · exact .inl rfl
  · rw [List.mem_singleton] at he
    subst he
    exact .inr h

theorem inside_list {v : Value} {items : List Value} (h : v.Inside (.list items)) :
    v = .list items ∨ ∃ w ∈ items, v.Inside w := by
  rcases h with _ | ⟨hw, h⟩
  · exact .inl rfl
  · exact .inr ⟨_, hw, h⟩

/-! ## Fractional numbers -/

theorem fractionItems?_eq_none {items : List Value} :
    fractionItems? items = none ↔ ∀ v ∈ items, v.fraction? = none := by
  induction items with
  | nil => simp [fractionItems?]
  | cons v rest ih => simp [fractionItems?, ih]

theorem fractionEntries?_eq_none {entries : List (String × Value)} :
    fractionEntries? entries = none ↔ ∀ e ∈ entries, e.2.fraction? = none := by
  induction entries with
  | nil => simp [fractionEntries?]
  | cons e rest ih => obtain ⟨k, v⟩ := e; simp [fractionEntries?, ih]

theorem fraction?_list {items : List Value} :
    (list items).fraction? = none ↔ ∀ v ∈ items, v.fraction? = none := by
  rw [fraction?, fractionItems?_eq_none]

theorem fraction?_map {entries : List (String × Value)} :
    (map entries).fraction? = none ↔ ∀ e ∈ entries, e.2.fraction? = none := by
  rw [fraction?, fractionEntries?_eq_none]

theorem fraction?_single {key : String} {v : Value} : (single key v).fraction? = none ↔ v.fraction? = none := by
  simp [single, fraction?_map]

end Docket.Value
