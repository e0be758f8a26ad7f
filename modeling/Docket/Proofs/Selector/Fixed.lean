import Docket.Proofs.Selector.Acceptance

/-!
# Canonical forms as fixed points

The canonical forms are the values that canonicalization answers, and they are the values that it leaves as they
are (**`isCanonical_iff_fixed`**). Nothing inside of them is written with `$ne`, and no field is negated twice.

* `IsCanonical.canonical_eq`: canonicalization leaves a canonical form as it is.
* `IsCanonical.plain`: what a canonical form does not hold.
-/

namespace Docket.Selector

/-! ## Longhand of a canonical form -/

theorem ComparisonForm.collapse_signed {p : Value} (h : ComparisonForm p) (b : Bool) :
    collapse (signed b p) = signed b p := by
  obtain @⟨c, v, -⟩ := h
  exact Selector.collapse_signed c.text_ne_not c.text_ne_ne b v

theorem CanonicalField.exists_signed {p : Value} (h : CanonicalField p) :
    ∃ b q, ComparisonForm q ∧ p = signed b q := by
  cases h with
  | is h => exact ⟨false, _, h, rfl⟩
  | not h => exact ⟨true, _, h, rfl⟩

theorem CanonicalField.longhandField_eq {p : Value} (h : CanonicalField p) : longhandField p = p := by
  obtain ⟨b, q, hq, rfl⟩ := h.exists_signed
  have hwritten : WrittenPredicate (signed b q) := by
    cases b
    · exact .test (.compare hq)
    · exact .not (.test (.compare hq))
  rw [hwritten.longhandField_eq, hq.collapse_signed]

theorem longhandClause_eq {c : Value} (h : ClauseOver CanonicalField c) : longhandClause c = c := by
  induction h with
  | field hname hv => rw [longhandClause_field hname, hv.longhandField_eq]
  | @junction j _ _ _ ih => rw [longhandClause_compound j.isOperator_text, List.map_congr_left ih, List.map_id']
  | not _ _ ih => rw [longhandClause_compound isOperator_not, List.map_congr_left ih, List.map_id']

theorem longhand_eq {c : Value} (h : JunctionOver CanonicalField c) : longhand c = c := by
  obtain @⟨j, clauses, -, h⟩ := h
  have hmap : clauses.map longhandClause = clauses := by
    rw [List.map_congr_left fun d hd => longhandClause_eq (h d hd), List.map_id']
  rw [longhand_compound j.isOperator_text, hmap]

theorem IsCanonical.canonical_eq {c : Value} (h : IsCanonical c) : canonical c = .ok c := by
  cases h with
  | everything => rfl
  | junction h =>
    have hchecked : Checked c := h.mono fun _ => CanonicalField.checked
    have hwritten : Written c := .junction (h.mono fun _ hv => hv.checked.written)
    have hne : c ≠ .empty := by
      obtain ⟨_, _⟩ := h
      exact nofun
    rw [canonical_eq_ok_iff, longhand_eq h]
    exact ⟨hwritten.fraction?_eq_none, .inr ⟨hne, hchecked, rfl⟩⟩

theorem isCanonical_of_canonical {raw c : Value} (h : canonical raw = .ok c) : IsCanonical c := by
  have hw := written_of_canonical h
  obtain ⟨-, ⟨-, rfl⟩ | ⟨hne, -, rfl⟩⟩ := canonical_eq_ok_iff.1 h
  · exact .everything
  · exact .junction (isCanonical_longhand hw hne)

/-! ## What canonical forms do not hold -/

/-- Not a map with the key `$ne`, and not a negation of a negation. -/
def Plain (v : Value) : Prop :=
  (∀ entries, v = .map entries → "$ne" ∉ entries.map (·.1)) ∧ ∀ w, v ≠ .single "$not" (.single "$not" w)

theorem plain_list (items : List Value) : Plain (.list items) := ⟨nofun, nofun⟩

theorem plain_single {key : String} {w : Value} (hkey : key ≠ "$ne")
    (hnot : key = "$not" → ∀ u, w ≠ .single "$not" u) : Plain (.single key w) := by
  refine ⟨fun entries he hmem => ?_, fun u hu => ?_⟩
  · cases he
    rw [List.map_singleton, List.mem_singleton] at hmem
    exact hkey hmem.symm
  · rw [Value.single_inj] at hu
    exact hnot hu.1 u hu.2

theorem Suits.plain {c : Comparison} {v w : Value} (h : Suits c v) (hw : w.Inside v) : Plain w := by
  rcases h with b | ⟨-, s | hn⟩
  all_goals
    cases hw
    exact ⟨nofun, nofun⟩

theorem ComparisonForm.plain {p v : Value} (h : ComparisonForm p) (hv : v.Inside p) : Plain v := by
  obtain @⟨c, w, hs⟩ := h
  rcases Value.inside_single hv with rfl | hv
  · exact plain_single c.text_ne_ne fun he => absurd he c.text_ne_not
  · exact hs.plain hv

theorem CanonicalField.plain {p v : Value} (h : CanonicalField p) (hv : v.Inside p) : Plain v := by
  cases h with
  | is h => exact h.plain hv
  | not h =>
    rcases Value.inside_single hv with rfl | hv
    · refine plain_single (by decide) fun _ u hu => ?_
      obtain @⟨c, w, -⟩ := h
      exact c.text_ne_not (Value.single_inj.1 hu).1
    · exact h.plain hv

theorem Plain.of_compound {key : String} {clauses : List Value} {v : Value} (hkey : key ≠ "$ne")
    (hv : v.Inside (.single key (.list clauses))) (h : ∀ c ∈ clauses, v.Inside c → Plain v) : Plain v := by
  rcases Value.inside_single hv with rfl | hv
  · exact plain_single hkey fun _ _ => nofun
  · rcases Value.inside_list hv with rfl | ⟨c, hc, hv⟩
    · exact plain_list clauses
    · exact h c hc hv

theorem Junction.text_ne_ne (j : Junction) : j.text ≠ "$ne" := by cases j <;> decide

theorem plain_of_clauseOver {c v : Value} (h : ClauseOver CanonicalField c) (hv : v.Inside c) : Plain v := by
  induction h with
  | @field name p hname hp =>
    have hkey : ∀ k : Keyword, name ≠ k.text := fun k he => hname (he ▸ k.isOperator_text)
    rcases Value.inside_single hv with rfl | hv
    · exact plain_single (hkey .ne) fun he => absurd he (hkey .not)
    · exact hp.plain hv
  | @junction j clauses _ _ ih => exact .of_compound j.text_ne_ne hv ih
  | not _ _ ih => exact .of_compound (by decide) hv ih

theorem IsCanonical.plain {c v : Value} (h : IsCanonical c) (hv : v.Inside c) : Plain v := by
  cases h with
  | everything =>
    rcases hv with _ | _ | ⟨he, _⟩
    · refine ⟨fun entries he => ?_, nofun⟩
      cases he
      exact List.not_mem_nil
    · exact absurd he List.not_mem_nil
  | junction h =>
    obtain @⟨j, clauses, -, h⟩ := h
    exact .of_compound j.text_ne_ne hv fun d hd => plain_of_clauseOver (h d hd)

/-- **The canonical forms are the image of canonicalization and its fixed points.** So canonicalizing once more
changes nothing. No key in a canonical form is `$ne`, and no negation of a predicate stands under another one. -/
theorem isCanonical_iff_fixed (c : Value) :
    (IsCanonical c ↔ ∃ raw, canonical raw = .ok c) ∧ (IsCanonical c ↔ canonical c = .ok c) ∧
      (∀ raw, canonical raw = .ok c → canonical c = .ok c) ∧
      (IsCanonical c → ∀ v : Value, v.Inside c →
        (∀ entries : List (String × Value), v = .map entries → "$ne" ∉ entries.map (·.1)) ∧
          ∀ w, v ≠ .single "$not" (.single "$not" w)) := by
  have hfixed : IsCanonical c → canonical c = .ok c := IsCanonical.canonical_eq
  have himage : ∀ raw, canonical raw = .ok c → IsCanonical c := fun _ => isCanonical_of_canonical
  refine ⟨⟨fun h => ⟨c, hfixed h⟩, ?_⟩, ⟨hfixed, himage c⟩, fun raw h => hfixed (himage raw h), fun h v hv => h.plain hv⟩
  rintro ⟨raw, h⟩
  exact himage raw h

/-- An odd chain over `$ne` in a negated list, and a field that repeats another one. -/
def repeated : Value :=
  .single "$or" (.list [.single "$not" (.list [.single "a" (.single "$not" (.single "$ne" (.str "x")))]),
    .single "a" (.str "x"), .single "a" (.single "$not" (.single "$exists" (.bool true)))])

theorem isCanonical_iff_fixed_repeated : ∃ c, canonical repeated = .ok c ∧ canonical c = .ok c ∧
    ¬ (Value.single "$not" (.single "$not" .null)).Inside c := by
  refine ⟨_, rfl, (isCanonical_iff_fixed _).2.2.1 repeated rfl, fun hv => ?_⟩
  have hcanonical := ((isCanonical_iff_fixed _).1).2 ⟨repeated, rfl⟩
  exact ((isCanonical_iff_fixed _).2.2.2 hcanonical _ hv).2 .null rfl

end Docket.Selector
