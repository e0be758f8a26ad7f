import Docket.Proofs.Selector.Exact
import Docket.Proofs.Value.Settled

/-!
# Canonical forms on the wire

The rewriting puts every field of a selector into a map of its own, and a selector that is accepted holds no number
that JSON loses, if its unsigned integers are wide. So its canonical form is recovered from JSON, even when the
selector itself repeats a field and loses all but the last of its values there (**`canonical_survives_wire`**).

* `Wide`: the unsigned integers in a value do not fit a signed word.
* `ClauseOver.exact`: a clause that may be written is held exactly.
* `Written.members_exact`: so is every member of a selector, though the selector itself need not be.
-/

namespace Docket.Selector

/-! ## Unsigned integers -/

/-- No unsigned integer in the value, at any depth, fits a signed word. -/
def Wide (v : Value) : Prop := ∀ n : UInt64, (Value.num (.uint n)).Inside v → 2 ^ 63 ≤ n.toNat

theorem Wide.member {entries : List (String × Value)} (h : Wide (.map entries)) {e : String × Value}
    (he : e ∈ entries) : Wide e.2 := by
  intro n hn
  exact h n (.entry he hn)

theorem Wide.under {key : String} {v : Value} (h : Wide (.single key v)) : Wide v :=
  Wide.member (e := (key, v)) h List.mem_cons_self

theorem Wide.clause {op : String} {clauses : List Value} (h : Wide (.single op (.list clauses))) {c : Value}
    (hc : c ∈ clauses) : Wide c := by
  intro n hn
  exact h.under n (.item hc hn)

/-! ## What may be written is held exactly -/

theorem IsOperand.exact {v : Value} (h : IsOperand v) (hwide : Wide v) : v.Exact := by
  cases h with
  | str s => exact trivial
  | @num n hwhole =>
    apply Value.Number.exact_iff_not_lossy.2
    intro hlossy
    cases hlossy with
    | float hinfinite =>
      apply hwhole
      intro hx
      exact hinfinite hx.isFinite
    | @uint n hfits =>
      have hbig : 2 ^ 63 ≤ n.toNat := hwide n .self
      omega

theorem TestForm.exact {p : Value} (h : TestForm p) (hwide : Wide p) : p.Exact := by
  cases h with
  | compare h =>
    obtain ⟨hsuits⟩ := h
    apply Value.exact_single.2
    cases hsuits with
    | present b => exact trivial
    | operand _ hoperand => exact hoperand.exact hwide.under
  | ne hoperand => exact Value.exact_single.2 (hoperand.exact hwide.under)

theorem WrittenPredicate.exact {p : Value} (h : WrittenPredicate p) (hwide : Wide p) : p.Exact := by
  induction h with
  | test h => exact h.exact hwide
  | not _ ih => exact Value.exact_single.2 (ih hwide.under)

theorem WrittenField.exact {v : Value} (h : WrittenField v) (hwide : Wide v) : v.Exact := by
  cases h with
  | operand h => exact h.exact hwide
  | predicate h => exact h.exact hwide

/-- Every map in a clause has one entry, so none of them repeats a key. -/
theorem ClauseOver.exact {c : Value} (h : ClauseOver WrittenField c) (hwide : Wide c) : c.Exact := by
  induction h with
  | field _ hv => exact Value.exact_single.2 (hv.exact hwide.under)
  | junction _ _ ih | not _ _ ih =>
    apply Value.exact_single.2
    apply Value.exact_list.2
    intro d hd
    exact ih d hd (hwide.clause hd)

/-- The members of a selector are held exactly, also where it repeats a key. -/
theorem Written.members_exact {entries : List (String × Value)} (h : Written (.map entries))
    (hwide : Wide (.map entries)) : ∀ e ∈ entries, e.2.Exact := by
  generalize hraw : Value.map entries = raw at h
  cases h with
  | everything =>
    cases hraw
    exact nofun
  | junction hj =>
    obtain ⟨_, hclauses⟩ := hj
    cases hraw
    intro e he
    cases List.mem_singleton.1 he
    apply Value.exact_list.2
    intro c hc
    exact (hclauses c hc).exact (hwide.clause hc)
  | fields _ hfields =>
    cases hraw
    intro e he
    exact (hfields e he).2.exact (hwide.member he)

theorem Written.exists_entries {raw : Value} (h : Written raw) : ∃ entries, raw = .map entries := by
  cases h with
  | everything => exact ⟨_, rfl⟩
  | junction hj =>
    obtain ⟨_, _⟩ := hj
    exact ⟨_, rfl⟩
  | fields => exact ⟨_, rfl⟩

/-! ## To JSON and back -/

theorem Written.nodup_keys_or_fields {entries : List (String × Value)} (h : Written (.map entries)) :
    (Json.keys entries).Nodup ∨ ∀ e ∈ entries, ¬ IsOperator e.1 ∧ WrittenField e.2 := by
  generalize hraw : Value.map entries = raw at h
  cases h with
  | everything =>
    cases hraw
    exact .inl List.nodup_nil
  | junction hj =>
    obtain ⟨_, _⟩ := hj
    cases hraw
    exact .inl (List.nodup_singleton _)
  | fields _ hfields =>
    cases hraw
    exact .inr hfields

/-- The canonical form puts the entries of a selector apart, so that it repeats no key. -/
theorem exact_canonical_of_wide {raw c : Value} (h : canonical raw = .ok c) (hwide : Wide raw) : c.Exact := by
  have hwritten := written_of_canonical h
  obtain ⟨entries, rfl⟩ := hwritten.exists_entries
  have hmembers := hwritten.members_exact hwide
  obtain ⟨-, ⟨-, rfl⟩ | ⟨hne, -, rfl⟩⟩ := canonical_eq_ok_iff.1 h
  · exact ⟨List.nodup_nil, trivial⟩
  · rcases hwritten.nodup_keys_or_fields with hkeys | hfields
    · exact exact_longhand hwritten hne ⟨hkeys, Value.exactEntries_iff.2 hmembers⟩
    · exact exact_longhand_fields hfields hmembers

/-- **A canonical form survives the wire.** If a selector that is accepted holds no unsigned integer that fits a signed
word, its canonical form is recovered from JSON: nothing in it is merged, nulled or read as another kind. The selector
itself loses there every entry whose key comes again later, and nothing else. -/
theorem canonical_survives_wire {raw c : Value} (h : canonical raw = .ok c) (hwide : Wide raw) :
    Value.ofJson c.toJson = c ∧
      ∃ entries, raw = .map entries ∧ Value.ofJson raw.toJson = .map (Json.lastEach entries) := by
  have hwritten := written_of_canonical h
  obtain ⟨entries, rfl⟩ := hwritten.exists_entries
  refine ⟨Value.ofJson_toJson c (exact_canonical_of_wide h hwide), entries, rfl, ?_⟩
  rw [Value.ofJson_toJson_eq_settled, Value.settled,
    Value.settledEntries_eq_self (hwritten.members_exact hwide)]

/-- A field that comes three times, also over a wide integer. -/
def crowded : Value :=
  .map [("a", .num (.int 1)), ("b", .num (.uint 9223372036854775808)), ("a", .single "$not" (.single "$ne" (.str "x"))),
    ("a", .single "$gt" (.num (.uint 18446744073709551615)))]

theorem wide_crowded : Wide crowded := by
  intro n hn
  rcases hn with _ | _ | ⟨he, hn⟩
  simp only [List.mem_cons, List.not_mem_nil, or_false] at he
  rcases he with rfl | rfl | rfl | rfl
  · cases hn
  · cases hn
    decide
  · rcases Value.inside_single hn with heq | hn
    · cases heq
    · rcases Value.inside_single hn with heq | hn
      · cases heq
      · cases hn
  · rcases Value.inside_single hn with heq | hn
    · cases heq
    · cases hn
      decide

/-- The canonical form of `crowded` has four clauses and keeps them; two entries of `crowded` itself are left. -/
theorem canonical_survives_wire_crowded : ∃ c, canonical crowded = .ok c ∧ Value.ofJson c.toJson = c ∧
    Value.ofJson crowded.toJson = .map [("a", .single "$gt" (.num (.uint 18446744073709551615))),
      ("b", .num (.uint 9223372036854775808))] ∧
    canonical (Value.ofJson crowded.toJson) ≠ .ok c := by
  have hcanonical : canonical crowded = .ok (longhand crowded) := rfl
  obtain ⟨hsurvives, entries, hentries, hlast⟩ := canonical_survives_wire hcanonical wide_crowded
  cases hentries
  refine ⟨_, hcanonical, hsurvives, hlast.trans rfl, ?_⟩
  rw [hlast]
  intro h
  have hlength := congrArg (fun r => r.toOption.bind fun v => ((v.get? "$and").bind Value.items?).map List.length) h
  exact absurd hlength (by decide)

end Docket.Selector
