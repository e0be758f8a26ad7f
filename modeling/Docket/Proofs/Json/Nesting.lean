import Docket.Proofs.Json.Doubles
import Docket.Json.Record

/-!
# Nesting of values

A value that was made of text repeats no key and is nested no deeper than the bound that it was read under. So
its printed text is read back under a bound if and only if the value is nested no deeper than that.

* `Json.depth`: how many lists and maps stand inside one another.
* **`Json.json?_literal`**: when the tree of a value has a value, which is then the same.
* `Json.distinct_and_depth_le_of_ofText?`: what is known of a value made of text.
* **`Json.ofText?_text`**: printed text is read as the value that was printed.
-/

namespace Docket.Json

open Literal (json? jsonItems? jsonEntries?)

/-! ## Depth -/

mutual

/-- How many lists and maps stand inside one another. -/
def depth : Json → Nat
  | .arr items => depthOfItems items + 1
  | .obj entries => depthOfEntries entries + 1
  | _ => 0

/-- The greatest depth of an item. -/
def depthOfItems : List Json → Nat
  | [] => 0
  | v :: rest => max (depth v) (depthOfItems rest)

/-- The greatest depth of a value. -/
def depthOfEntries : List (String × Json) → Nat
  | [] => 0
  | (_, v) :: rest => max (depth v) (depthOfEntries rest)

end

theorem depthOfEntries_le_iff {entries : List (String × Json)} {limit : Nat} :
    depthOfEntries entries ≤ limit ↔ ∀ e ∈ entries, e.2.depth ≤ limit := by
  induction entries with
  | nil => simp [depthOfEntries]
  | cons e rest ih =>
    obtain ⟨k, v⟩ := e
    rw [depthOfEntries, Nat.max_le, ih, List.forall_mem_cons]

theorem distinctEntries_iff {entries : List (String × Json)} :
    DistinctEntries entries ↔ ∀ e ∈ entries, e.2.Distinct := by
  induction entries with
  | nil => simp [DistinctEntries]
  | cons e rest ih =>
    obtain ⟨k, v⟩ := e
    rw [DistinctEntries, ih, List.forall_mem_cons]

/-! ## Reading back -/

mutual

/-- **A printed value is read back if and only if it is not nested too deep.** -/
theorem json?_literal (limit : Nat) : (v : Json) → v.Distinct →
    json? limit v.literal = if v.depth ≤ limit then some v else none
  | .null, _ => rfl
  | .bool _, _ => rfl
  | .num n, _ => by
    rw [literal, json?, number?_numeral]
    rfl
  | .str s, _ => by
    rw [literal, json?, string?_ofString]
    rfl
  | .arr items, hd => by
    rw [literal, json?, depth]
    split
    · next hzero =>
      rw [if_neg (by omega)]
    · next hpos =>
      rw [jsonItems?_itemLiterals (limit - 1) items hd]
      by_cases hle : depthOfItems items ≤ limit - 1
      · rw [if_pos hle, if_pos (by omega)]
        rfl
      · rw [if_neg hle, if_neg (by omega)]
        rfl
  | .obj entries, hd => by
    rw [literal, json?, depth]
    split
    · next hzero =>
      rw [if_neg (by omega)]
    · next hpos =>
      rw [jsonEntries?_entryLiterals (limit - 1) entries hd.2]
      by_cases hle : depthOfEntries entries ≤ limit - 1
      · rw [if_pos hle, if_pos (by omega), Option.map_some, merge_eq_self hd.1]
      · rw [if_neg hle, if_neg (by omega)]
        rfl

theorem jsonItems?_itemLiterals (limit : Nat) : (items : List Json) → DistinctItems items →
    jsonItems? limit (itemLiterals items) = if depthOfItems items ≤ limit then some items else none
  | [], _ => rfl
  | v :: rest, hd => by
    rw [itemLiterals, jsonItems?, json?_literal limit v hd.1, jsonItems?_itemLiterals limit rest hd.2, depthOfItems]
    by_cases hv : v.depth ≤ limit
    · by_cases hrest : depthOfItems rest ≤ limit
      · simp [hv, hrest]
      · simp [hv, hrest]
    · simp [hv]

theorem jsonEntries?_entryLiterals (limit : Nat) : (entries : List (String × Json)) → DistinctEntries entries →
    jsonEntries? limit (entryLiterals entries) = if depthOfEntries entries ≤ limit then some entries else none
  | [], _ => rfl
  | (k, v) :: rest, hd => by
    rw [entryLiterals, jsonEntries?, string?_ofString, json?_literal limit v hd.1,
      jsonEntries?_entryLiterals limit rest hd.2, depthOfEntries]
    by_cases hv : v.depth ≤ limit
    · by_cases hrest : depthOfEntries rest ≤ limit
      · simp [hv, hrest]
      · simp [hv, hrest]
    · simp [hv]

end

/-! ## What was read -/

theorem mem_put {α : Type} {key : String} {value : α} {entries : List (String × α)} {e : String × α}
    (h : e ∈ put key value entries) : e = (key, value) ∨ e ∈ entries := by
  induction entries with
  | nil => simpa [put] using h
  | cons x rest ih =>
    obtain ⟨k, v⟩ := x
    rw [put] at h
    split at h
    · rcases List.mem_cons.1 h with rfl | h
      · exact .inl rfl
      · exact .inr (List.mem_cons_of_mem _ h)
    · rcases List.mem_cons.1 h with rfl | h
      · exact .inr List.mem_cons_self
      · exact (ih h).imp_right (List.mem_cons_of_mem _)

theorem mem_of_mem_merge {α : Type} {entries : List (String × α)} {e : String × α} (h : e ∈ merge entries) :
    e ∈ entries := by
  suffices hfold : ∀ done : List (String × α), e ∈ entries.foldl (fun done e => put e.1 e.2 done) done →
      e ∈ done ∨ e ∈ entries from (hfold [] h).resolve_left List.not_mem_nil
  clear h
  induction entries with
  | nil => exact fun _ => .inl
  | cons x rest ih =>
    intro done h
    rcases ih _ h with h | h
    · rcases mem_put h with rfl | h
      · exact .inr List.mem_cons_self
      · exact .inl h
    · exact .inr (List.mem_cons_of_mem _ h)

mutual

/-- A value that was read repeats no key and is not nested too deep. -/
theorem distinct_and_depth_le : (limit : Nat) → (l : Literal) → (v : Json) → json? limit l = some v →
    v.Distinct ∧ v.depth ≤ limit
  | limit, .null, v, h => by cases h; exact ⟨trivial, Nat.zero_le _⟩
  | limit, .bool b, v, h => by cases h; exact ⟨trivial, Nat.zero_le _⟩
  | limit, .num n, v, h => by
    obtain ⟨m, -, rfl⟩ := Option.map_eq_some_iff.1 h
    exact ⟨trivial, Nat.zero_le _⟩
  | limit, .str parts, v, h => by
    obtain ⟨m, -, rfl⟩ := Option.map_eq_some_iff.1 h
    exact ⟨trivial, Nat.zero_le _⟩
  | limit, .arr items, v, h => by
    rw [json?] at h
    split at h
    · cases h
    · obtain ⟨vs, hvs, rfl⟩ := Option.map_eq_some_iff.1 h
      obtain ⟨hd, hdepth⟩ := items_distinct_and_depth_le (limit - 1) items vs hvs
      exact ⟨hd, by rw [depth]; omega⟩
  | limit, .obj entries, v, h => by
    rw [json?] at h
    split at h
    · cases h
    · obtain ⟨es, hes, rfl⟩ := Option.map_eq_some_iff.1 h
      have hall := entries_distinct_and_depth_le (limit - 1) entries es hes
      refine ⟨⟨nodup_keys_merge es, distinctEntries_iff.2 fun e he => (hall e (mem_of_mem_merge he)).1⟩, ?_⟩
      have hdepth : depthOfEntries (merge es) ≤ limit - 1 :=
        depthOfEntries_le_iff.2 fun e he => (hall e (mem_of_mem_merge he)).2
      rw [depth]
      omega

theorem items_distinct_and_depth_le : (limit : Nat) → (items : List Literal) → (vs : List Json) →
    jsonItems? limit items = some vs → DistinctItems vs ∧ depthOfItems vs ≤ limit
  | limit, [], vs, h => by cases h; exact ⟨trivial, Nat.zero_le _⟩
  | limit, l :: rest, vs, h => by
    simp only [jsonItems?, Option.bind_eq_bind, Option.bind_eq_some_iff, Option.pure_def, Option.some.injEq] at h
    obtain ⟨v, hv, vs, hvs, rfl⟩ := h
    have hv := distinct_and_depth_le limit l v hv
    have hvs := items_distinct_and_depth_le limit rest vs hvs
    exact ⟨⟨hv.1, hvs.1⟩, Nat.max_le.2 ⟨hv.2, hvs.2⟩⟩

theorem entries_distinct_and_depth_le : (limit : Nat) → (entries : List (List Part × Literal)) →
    (es : List (String × Json)) → jsonEntries? limit entries = some es →
    ∀ e ∈ es, e.2.Distinct ∧ e.2.depth ≤ limit
  | limit, [], es, h => by cases h; exact fun _ he => absurd he List.not_mem_nil
  | limit, (k, l) :: rest, es, h => by
    simp only [jsonEntries?, Option.bind_eq_bind, Option.bind_eq_some_iff, Option.pure_def, Option.some.injEq] at h
    obtain ⟨key, -, v, hv, es, hes, rfl⟩ := h
    exact List.forall_mem_cons.2 ⟨distinct_and_depth_le limit l v hv, entries_distinct_and_depth_le limit rest es hes⟩

end

theorem distinct_and_depth_le_of_ofText? {s : String} {v : Json} (h : ofText? s = some v) :
    v.Distinct ∧ v.depth ≤ maxNesting := by
  obtain ⟨l, -, hv⟩ := Option.bind_eq_some_iff.1 h
  exact distinct_and_depth_le maxNesting l v hv

theorem ofText?_text {v : Json} (hd : v.Distinct) :
    ofText? v.text = if v.depth ≤ maxNesting then some v else none := by
  rw [ofText?, text, String.toList_ofList, parse?, parse?_render_all, Option.bind_some, json?_literal _ v hd]

end Docket.Json
