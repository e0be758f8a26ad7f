import Docket.Proofs.Selector.Checking

/-!
# The first fault

The check goes through clauses in order, and through all of a clause before it looks at the next one. So the fault that
it reports is the one of the first faulty clause, whatever stands after this clause and however deep it stands.

* `Selector.Compound`: the operators over lists of clauses.
* `Selector.Layer`, `Selector.nest`: compounds around a clause.
* `Selector.checkCompound_of_first`, `Selector.checkClause_nest_of_first`: a list and a nest fail by their first faulty
  clause.
* `Selector.checkClause_nest`, `Selector.check_nest`: a nest takes no other notice of what is inside of it.
* **`Selector.check_decides_and_reports_first`**: which values pass the check, and what is said of the others.
-/

namespace Docket.Selector

/-! ## Compounds around a clause -/

/-- An operator over a list of clauses. -/
inductive Compound where
  | junction (j : Junction)
  | not
deriving DecidableEq, Repr

/-- The operator as a keyword. -/
def Compound.keyword : Compound → Keyword
  | .junction j => .junction j
  | .not => .not

/-- The operator over these clauses. -/
def Compound.over (op : Compound) (clauses : List Value) : Value := .single op.keyword.text (.list clauses)

/-- A compound with an open place among its clauses. -/
structure Layer where
  op : Compound
  before : List Value
  after : List Value

/-- The compound with a clause in its open place. -/
def Layer.around (layer : Layer) (c : Value) : Value := layer.op.over (layer.before ++ c :: layer.after)

/-- A clause inside of compounds, the outermost first. -/
def nest (layers : List Layer) (c : Value) : Value := layers.foldr Layer.around c

theorem checkClause_over (op : Compound) (clauses : List Value) :
    checkClause (op.over clauses) = checkCompound op.keyword (.list clauses) := by
  cases op with
  | junction j => exact checkClause_junction j (.list clauses)
  | not => exact checkClause_not (.list clauses)

theorem check_over_junction (j : Junction) (clauses : List Value) :
    check (Compound.over (.junction j) clauses) = checkCompound (.junction j) (.list clauses) := by
  cases j <;> rfl

theorem check_over_not (clauses : List Value) : check (Compound.over .not clauses) = .error (.topOperator "$not") := rfl

/-! ## The first faulty clause -/

theorem checkCompound_append_cons (op : Keyword) (before : List Value) (c : Value) (after : List Value) :
    checkCompound op (.list (before ++ c :: after)) = checkClauses (before ++ c :: after) := by
  cases before with
  | nil => rfl
  | cons b rest => rfl

/-- A clause without faults. -/
abbrev Faultless (c : Value) : Prop := ClauseOver CheckedField c

theorem exists_fault {c : Value} (h : ¬ Faultless c) : ∃ fault, checkClause c = .error fault := by
  cases hcheck : checkClause c with
  | error fault => exact ⟨fault, rfl⟩
  | ok => exact absurd (checkClause_eq_ok_iff.1 hcheck) h

section FirstFault

variable {before : List Value} {c : Value} {fault : Fault} (hbefore : ∀ b ∈ before, Faultless b)
  (hc : checkClause c = .error fault)

include hbefore hc

theorem checkClauses_of_first (after : List Value) : checkClauses (before ++ c :: after) = .error fault := by
  induction before with
  | nil =>
    rw [List.nil_append, checkClauses, hc]
    rfl
  | cons b rest ih =>
    rw [List.forall_mem_cons] at hbefore
    rw [List.cons_append, checkClauses, checkClause_eq_ok_iff.2 hbefore.1]
    exact ih hbefore.2

/-- **A list of clauses fails by its first faulty clause.** -/
theorem checkCompound_of_first (op : Keyword) (after : List Value) :
    checkCompound op (.list (before ++ c :: after)) = .error fault := by
  rw [checkCompound_append_cons, checkClauses_of_first hbefore hc]

end FirstFault

theorem checkCompound_alone {c : Value} {fault : Fault} (hc : checkClause c = .error fault) (op : Keyword) :
    checkCompound op (.list [c]) = .error fault :=
  checkCompound_of_first (List.forall_mem_nil Faultless) hc op []

/-- A nest fails by the clause inside of it, if no clause that stands before it in any layer is faulty. -/
theorem checkClause_nest_of_first {layers : List Layer} (hlayers : ∀ layer ∈ layers, ∀ b ∈ layer.before, Faultless b)
    {c : Value} {fault : Fault} (hc : checkClause c = .error fault) : checkClause (nest layers c) = .error fault := by
  induction layers with
  | nil => exact hc
  | cons layer rest ih =>
    rw [List.forall_mem_cons] at hlayers
    exact (checkClause_over _ _).trans (checkCompound_of_first hlayers.1 (ih hlayers.2) _ _)

/-! ## Clauses that the check does not tell apart -/

section Congruence

variable {c d : Value} (h : checkClause c = checkClause d)

include h

theorem checkClauses_congr (before after : List Value) :
    checkClauses (before ++ c :: after) = checkClauses (before ++ d :: after) := by
  induction before with
  | nil => rw [List.nil_append, List.nil_append, checkClauses, checkClauses, h]
  | cons b rest ih => rw [List.cons_append, List.cons_append, checkClauses, checkClauses, ih]

theorem checkCompound_congr (op : Keyword) (before after : List Value) :
    checkCompound op (.list (before ++ c :: after)) = checkCompound op (.list (before ++ d :: after)) := by
  rw [checkCompound_append_cons, checkCompound_append_cons, checkClauses_congr h]

/-- The check of a nest depends on the clause inside of it through the check of this clause. -/
theorem checkClause_nest (layers : List Layer) : checkClause (nest layers c) = checkClause (nest layers d) := by
  induction layers generalizing c d with
  | nil => exact h
  | cons layer rest ih =>
    show checkClause (layer.around (nest rest c)) = checkClause (layer.around (nest rest d))
    rw [Layer.around, Layer.around, checkClause_over, checkClause_over, checkCompound_congr (ih h)]

theorem check_around (layer : Layer) : check (layer.around c) = check (layer.around d) := by
  obtain ⟨op, before, after⟩ := layer
  cases op with
  | junction j =>
    show check (Compound.over _ _) = check (Compound.over _ _)
    rw [check_over_junction, check_over_junction, checkCompound_congr h]
  | not => exact (check_over_not _).trans (check_over_not _).symm

end Congruence

/-- The same for a selector with a compound at its core. Under no layer the compound is the selector itself. -/
theorem check_nest {op : Compound} {clauses others : List Value}
    (h : checkCompound op.keyword (.list clauses) = checkCompound op.keyword (.list others)) (layers : List Layer) :
    check (nest layers (op.over clauses)) = check (nest layers (op.over others)) := by
  cases layers with
  | nil =>
    cases op with
    | junction j => exact (check_over_junction j clauses).trans (h.trans (check_over_junction j others).symm)
    | not => exact (check_over_not clauses).trans (check_over_not others).symm
  | cons layer rest =>
    refine check_around (checkClause_nest ?_ rest) layer
    rw [checkClause_over, checkClause_over, h]

/-! ## Selectors -/

/-- **The check decides its language and reports the first fault.** It passes just the checked selectors. A list of
clauses, in a selector of any depth, may be cut down to its first faulty clause without a change of what the check
answers. And if no clause before a faulty one has a fault, in its own list and in those around it, then the selector
fails as it would with this clause alone. -/
theorem check_decides_and_reports_first :
    (∀ v, check v = .ok () ↔ Checked v) ∧
    (∀ (layers : List Layer) (op : Compound) (before after : List Value) (c : Value),
      (∀ b ∈ before, Faultless b) → ¬ Faultless c →
        check (nest layers (op.over (before ++ c :: after))) = check (nest layers (op.over [c]))) ∧
    ∀ (j : Junction) (before after : List Value) (layers : List Layer) (c : Value),
      (∀ b ∈ before, Faultless b) → (∀ layer ∈ layers, ∀ b ∈ layer.before, Faultless b) → ¬ Faultless c →
        ∃ fault, check (Compound.over (.junction j) (before ++ nest layers c :: after)) = .error fault ∧
          check (Compound.over (.junction j) [c]) = .error fault := by
  refine ⟨fun v => check_eq_ok_iff, fun layers op before after c hbefore hc => ?_,
    fun j before after layers c hbefore hlayers hc => ?_⟩
  · obtain ⟨fault, hfault⟩ := exists_fault hc
    refine check_nest ?_ layers
    have halone := checkCompound_alone hfault op.keyword
    exact (checkCompound_of_first hbefore hfault op.keyword after).trans halone.symm
  · obtain ⟨fault, hfault⟩ := exists_fault hc
    have hnest := checkClause_nest_of_first hlayers hfault
    refine ⟨fault, ?_, ?_⟩
    · rw [check_over_junction]
      exact checkCompound_of_first hbefore hnest _ after
    · rw [check_over_junction]
      exact checkCompound_alone hfault _

/-! ## A fault inside of a negated list -/

/-- A field that is compared by an operator without a meaning. -/
def misspelt : Value := .single "b" (.single "$bad" (.num (.int 1)))

theorem not_faultless_misspelt : ¬ Faultless misspelt := fun h => by
  have hcheck := checkClause_eq_ok_iff.2 h
  cases hcheck

/-- A field without faults. -/
def plain : Value := .single "a" (.single "$eq" (.str "x"))

theorem faultless_plain : Faultless plain := checkClause_eq_ok_iff.1 rfl

theorem check_decides_and_reports_first_misspelt :
    Faultless plain ∧ ¬ Faultless misspelt ∧
      check (nest [⟨.junction .or, [], []⟩] (Compound.over .not [plain, misspelt, .null])) =
        check (nest [⟨.junction .or, [], []⟩] (Compound.over .not [misspelt])) ∧
      check (Compound.over (.junction .and) [plain,
        Compound.over .not [misspelt, .single "c" (.single "$worse" .null)], .null]) =
          .error (.unknownOperator "b" "$bad") := by
  obtain ⟨-, hcut, hfirst⟩ := check_decides_and_reports_first
  obtain ⟨fault, hwhole, halone⟩ := hfirst .and [plain] [.null]
    [⟨.not, [], [.single "c" (.single "$worse" .null)]⟩] misspelt (List.forall_mem_singleton.2 faultless_plain)
    (List.forall_mem_singleton.2 nofun) not_faultless_misspelt
  cases halone
  exact ⟨faultless_plain, not_faultless_misspelt,
    hcut _ .not [plain] [.null] misspelt (List.forall_mem_singleton.2 faultless_plain) not_faultless_misspelt, hwhole⟩

end Docket.Selector
