import Docket.Proofs.Json.Merging
import Docket.Proofs.Value.Exact
import Docket.Proofs.Value.Members

/-!
# What JSON makes of a value

JSON becomes a value and JSON again without a change. A value that becomes JSON and a value again is settled: at every
depth a double that is not finite is null, an unsigned integer that fits a signed word is a signed one, and a map
holds each of its keys once, where the key first stands and with the value that stands last (**`Value.json_faithful`**).

* `Value.settled`: what becomes of a value, said without JSON.
* `Value.Lossy`: the values that JSON does not hold as they stand.
* `Value.toJson_ofJson`: JSON is recovered from the value that it becomes.
* `Value.ofJson_toJson_eq_settled`: a value is settled by JSON.
* `Value.exact_iff_not_lossy`: a value is recovered from JSON if nothing in it is lossy.
-/

namespace Docket.Value

/-! ## Settled values -/

/-- A number as JSON holds it: null if it is not finite, signed if it fits a signed word. -/
def Number.settled : Number → Value
  | .int n => .num (.int n)
  | .uint n => if n.toNat < 2 ^ 63 then .num (.int (Int64.ofInt n.toNat)) else .num (.uint n)
  | .float x => if x.IsFinite then .num (.float x) else .null

mutual

/-- A value as JSON holds it. -/
def settled : Value → Value
  | .null => .null
  | .bool b => .bool b
  | .num n => n.settled
  | .str s => .str s
  | .list items => .list (settledItems items)
  | .map entries => .map (Json.lastEach (settledEntries entries))

/-- Items as JSON holds them. -/
def settledItems : List Value → List Value
  | [] => []
  | v :: rest => settled v :: settledItems rest

/-- Entries as JSON holds their values, with all the keys that come again. -/
def settledEntries : List (String × Value) → List (String × Value)
  | [] => []
  | (k, v) :: rest => (k, settled v) :: settledEntries rest

end

/-- What JSON does not hold as it stands. -/
inductive Lossy : Value → Prop where
  | float {x : Binary64} (h : ¬ x.IsFinite) : Lossy (.num (.float x))
  | uint {n : UInt64} (h : n.toNat < 2 ^ 63) : Lossy (.num (.uint n))
  | repeated {entries : List (String × Value)} (h : ¬ (Json.keys entries).Nodup) : Lossy (.map entries)

/-! ## From JSON and back -/

theorem Number.toJson_ofJson (n : Json.Number) : (Number.ofJson n).toJson = .num n := by
  cases n with
  | integer n hrange =>
    rw [ofJson_integer]
    by_cases hsigned : n < 9223372036854775808
    · have hvalue : (Int64.ofInt n).toInt = n := Int64.toInt_ofInt_of_le hrange.1 hsigned
      rw [if_pos hsigned, Number.toJson, Json.ofInt64, Json.ofInt]
      congr 2
    · have hlt : n.toNat < 18446744073709551616 := by
        have := hrange.2
        omega
      have hvalue : ((UInt64.ofNat n.toNat).toNat : Int) = n := by
        rw [UInt64.toNat_ofNat_of_lt' hlt]
        omega
      rw [if_neg hsigned, Number.toJson, Json.ofUInt64, Json.ofInt]
      congr 2
  | float x hfinite => exact dif_pos hfinite

mutual

theorem toJson_ofJson : (j : Json) → j.Distinct → (ofJson j).toJson = j
  | .null, _ | .bool _, _ | .str _, _ => rfl
  | .num n, _ => Number.toJson_ofJson n
  | .arr items, h => congrArg Json.arr (toJsonItems_ofJsonItems items h)
  | .obj entries, h => by
    rw [ofJson, toJson, toJsonEntries_ofJsonEntries entries h.2, Json.merge_eq_self h.1]

theorem toJsonItems_ofJsonItems : (items : List Json) → Json.DistinctItems items →
    toJsonItems (ofJsonItems items) = items
  | [], _ => rfl
  | v :: rest, h => by rw [ofJsonItems, toJsonItems, toJson_ofJson v h.1, toJsonItems_ofJsonItems rest h.2]

theorem toJsonEntries_ofJsonEntries : (entries : List (String × Json)) → Json.DistinctEntries entries →
    toJsonEntries (ofJsonEntries entries) = entries
  | [], _ => rfl
  | (k, v) :: rest, h => by
    rw [ofJsonEntries, toJsonEntries, toJson_ofJson v h.1, toJsonEntries_ofJsonEntries rest h.2]

end

/-! ## To JSON and back -/

theorem Number.ofJson_toJson_eq_settled (n : Number) : Value.ofJson n.toJson = n.settled := by
  cases n with
  | int n =>
    have hfits : n.toInt < 9223372036854775808 := n.toInt_lt
    show Value.num (Number.ofJson (.integer n.toInt _)) = _
    rw [ofJson_integer, if_pos hfits, Int64.ofInt_toInt, Number.settled]
  | uint n =>
    show Value.num (Number.ofJson (.integer n.toNat _)) = _
    rw [ofJson_integer, Number.settled]
    by_cases hfits : n.toNat < 2 ^ 63
    · rw [if_pos (by omega), if_pos hfits]
    · rw [if_neg (by omega), if_neg hfits, Int.toNat_natCast, UInt64.ofNat_toNat]
  | float x =>
    by_cases hfinite : x.IsFinite
    · simp [Number.toJson, Number.settled, Value.ofJson, Number.ofJson, hfinite]
    · simp [Number.toJson, Number.settled, Value.ofJson, hfinite]

theorem ofJsonEntries_eq_map (entries : List (String × Json)) :
    ofJsonEntries entries = entries.map fun e => (e.1, ofJson e.2) := by
  induction entries with
  | nil => rfl
  | cons e rest ih =>
    obtain ⟨k, v⟩ := e
    rw [ofJsonEntries, ih, List.map_cons]

mutual

/-- **A value is settled by JSON.** -/
theorem ofJson_toJson_eq_settled : (v : Value) → ofJson v.toJson = v.settled
  | .null | .bool _ | .str _ => rfl
  | .num n => Number.ofJson_toJson_eq_settled n
  | .list items => congrArg Value.list (ofJsonItems_toJsonItems_eq_settled items)
  | .map entries => by
    -- The values may be read before merging, since merging does not look at them.
    have hread : ofJsonEntries (Json.merge (toJsonEntries entries)) =
        Json.merge (ofJsonEntries (toJsonEntries entries)) := by
      rw [ofJsonEntries_eq_map, ofJsonEntries_eq_map, Json.merge_map]
    rw [toJson, ofJson, hread, ofJsonEntries_toJsonEntries_eq_settled entries, Json.merge_eq_lastEach, settled]

theorem ofJsonItems_toJsonItems_eq_settled :
    (items : List Value) → ofJsonItems (toJsonItems items) = settledItems items
  | [] => rfl
  | v :: rest => by
    rw [toJsonItems, ofJsonItems, ofJson_toJson_eq_settled v, ofJsonItems_toJsonItems_eq_settled rest, settledItems]

theorem ofJsonEntries_toJsonEntries_eq_settled :
    (entries : List (String × Value)) → ofJsonEntries (toJsonEntries entries) = settledEntries entries
  | [] => rfl
  | (k, v) :: rest => by
    rw [toJsonEntries, ofJsonEntries, ofJson_toJson_eq_settled v, ofJsonEntries_toJsonEntries_eq_settled rest,
      settledEntries]

end

/-! ## What is lost -/

theorem Number.exact_iff_not_lossy {n : Number} : n.Exact ↔ ¬ Lossy (.num n) := by
  rw [Number.Exact, Number.ofJson_toJson_eq_settled]
  constructor
  · intro h hlossy
    cases hlossy with
    | float hinfinite =>
      rw [Number.settled, if_neg hinfinite] at h
      cases h
    | uint hfits =>
      rw [Number.settled, if_pos hfits] at h
      cases h
  · intro h
    cases n with
    | int n => rfl
    | uint n => exact if_neg fun hfits => h (.uint hfits)
    | float x =>
      apply if_pos
      by_contra hinfinite
      exact h (.float hinfinite)

theorem Exact.not_lossy {v w : Value} (h : v.Exact) (hw : w.Inside v) : ¬ w.Lossy := by
  induction hw with
  | self =>
    cases w with
    | num n => exact Number.exact_iff_not_lossy.1 h
    | map entries =>
      intro hlossy
      cases hlossy with
      | repeated hkeys => exact hkeys h.1
    | null | bool _ | str _ | list _ => exact nofun
  | item hmem _ ih => exact ih (exact_list.1 h _ hmem)
  | entry hmem _ ih => exact ih (h.of_mem hmem)

mutual

theorem exact_of_not_lossy : (v : Value) → (∀ w : Value, w.Inside v → ¬ w.Lossy) → v.Exact
  | .null, _ | .bool _, _ | .str _, _ => trivial
  | .num _, h => Number.exact_iff_not_lossy.2 (h _ .self)
  | .list items, h => exactItems_of_not_lossy items fun v hv w hw => h w (.item hv hw)
  | .map entries, h => by
    have hkeys : (Json.keys entries).Nodup := by
      by_contra hrepeated
      exact h _ .self (.repeated hrepeated)
    exact ⟨hkeys, exactEntries_of_not_lossy entries fun e he w hw => h w (.entry he hw)⟩

theorem exactItems_of_not_lossy : (items : List Value) →
    (∀ v ∈ items, ∀ w : Value, w.Inside v → ¬ w.Lossy) → ExactItems items
  | [], _ => trivial
  | v :: rest, h =>
    ⟨exact_of_not_lossy v (h v List.mem_cons_self),
      exactItems_of_not_lossy rest fun w hw => h w (List.mem_cons_of_mem v hw)⟩

theorem exactEntries_of_not_lossy : (entries : List (String × Value)) →
    (∀ e ∈ entries, ∀ w : Value, w.Inside e.2 → ¬ w.Lossy) → ExactEntries entries
  | [], _ => trivial
  | (k, v) :: rest, h =>
    ⟨exact_of_not_lossy v (h (k, v) List.mem_cons_self),
      exactEntries_of_not_lossy rest fun e he => h e (List.mem_cons_of_mem (k, v) he)⟩

end

theorem exact_iff_not_lossy (v : Value) : v.Exact ↔ ∀ w : Value, w.Inside v → ¬ w.Lossy :=
  ⟨fun h _ => h.not_lossy, exact_of_not_lossy v⟩

theorem Exact.settled_eq {v : Value} (h : v.Exact) : v.settled = v := by
  rw [← ofJson_toJson_eq_settled, ofJson_toJson v h]

theorem settledEntries_eq_self {entries : List (String × Value)} (h : ∀ e ∈ entries, e.2.Exact) :
    settledEntries entries = entries := by
  induction entries with
  | nil => rfl
  | cons e rest ih =>
    obtain ⟨k, v⟩ := e
    rw [List.forall_mem_cons] at h
    rw [settledEntries, h.1.settled_eq, ih h.2]

/-- What came through JSON goes through it once more without a change. -/
theorem exact_ofJson_toJson (v : Value) : (ofJson v.toJson).Exact := exact_ofJson v.toJson (distinct_toJson v)

theorem ofJson_toJson_eq_self_iff (v : Value) : ofJson v.toJson = v ↔ v.Exact := by
  constructor
  · intro h
    rw [← h]
    exact exact_ofJson_toJson v
  · exact ofJson_toJson v

/-- **Values and JSON stand for each other.** JSON that repeats no key is recovered from the value that it becomes. A
value that becomes JSON and a value again is settled. So it is recovered just if no double that is not finite, no
unsigned integer that fits a signed word and no map that repeats a key stands in it at any depth, and a second time
changes nothing. -/
theorem json_faithful :
    (∀ j : Json, j.Distinct → (ofJson j).toJson = j) ∧
    (∀ v : Value, ofJson v.toJson = v.settled) ∧
    (∀ v : Value, ofJson v.toJson = v ↔ ∀ w : Value, w.Inside v → ¬ w.Lossy) ∧
    ∀ v : Value, ofJson (ofJson v.toJson).toJson = ofJson v.toJson := by
  refine ⟨toJson_ofJson, ofJson_toJson_eq_settled, fun v => ?_, fun v => ?_⟩
  · rw [ofJson_toJson_eq_self_iff, exact_iff_not_lossy]
  · exact ofJson_toJson _ (exact_ofJson_toJson v)

/-- A key that comes again, over maps in which a key comes again, with numbers that JSON does not hold. -/
def knotted : Value :=
  .map [("a", .map [("k", .null), ("k", .num (.uint 3))]), ("b", .list [.num (.float .nan)]),
    ("a", .map [("k", .num (.uint 7)), ("j", .bool true), ("k", .list [.num (.uint 8)])])]

/-- The entries of `knotted` that are left. -/
def unknotted : Json :=
  .obj [("a", .obj [("k", .arr [.ofInt64 8]), ("j", .bool true)]), ("b", .arr [.null])]

theorem json_faithful_knotted :
    ofJson knotted.toJson =
      .map [("a", .map [("k", .list [.num (.int 8)]), ("j", .bool true)]), ("b", .list [.null])] ∧
    ofJson knotted.toJson ≠ knotted ∧ (ofJson unknotted).toJson = unknotted := by
  obtain ⟨hjson, hsettled, hself, -⟩ := json_faithful
  refine ⟨(hsettled knotted).trans rfl, fun h => ?_, hjson unknotted ?_⟩
  · have hrepeated : ¬ (Json.keys [("k", Value.null), ("k", .num (.uint 3))]).Nodup := by decide
    exact (hself knotted).1 h _ (.entry List.mem_cons_self .self) (.repeated hrepeated)
  · exact ⟨by decide, ⟨by decide, ⟨trivial, trivial⟩, trivial, trivial⟩, ⟨trivial, trivial⟩, trivial⟩

end Docket.Value
