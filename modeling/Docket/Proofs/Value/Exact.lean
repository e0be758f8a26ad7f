import Docket.Proofs.Json.Nesting
import Docket.Value.Wire

/-!
# Values that JSON holds exactly

Turning a value into JSON loses a number that is not finite and an entry whose key comes again, and an unsigned
integer that would fit a signed word comes back as a signed one. A value without these is recovered, and every value
that comes from JSON is one.

* `Value.Exact`: the values without these.
* **`Value.ofJson_toJson`**: they are recovered from JSON.
* `Value.exact_ofJson`: every value from JSON is one, if the JSON repeats no key.
* `Value.distinct_toJson`: JSON made of a value repeats no key.
-/

namespace Docket.Value

/-- The number comes back from JSON as it was. -/
def Number.Exact (n : Number) : Prop := Value.ofJson n.toJson = .num n

mutual

/-- Numbers come back from JSON as they were, and no map at any depth repeats a key. -/
def Exact : Value → Prop
  | .num n => n.Exact
  | .list items => ExactItems items
  | .map entries => (Json.keys entries).Nodup ∧ ExactEntries entries
  | _ => True

/-- Every item is `Exact`. -/
def ExactItems : List Value → Prop
  | [] => True
  | v :: rest => Exact v ∧ ExactItems rest

/-- Every value is `Exact`. -/
def ExactEntries : List (String × Value) → Prop
  | [] => True
  | (_, v) :: rest => Exact v ∧ ExactEntries rest

end

theorem exact_list {items : List Value} : (list items).Exact ↔ ∀ v ∈ items, v.Exact := by
  rw [Exact]
  induction items with
  | nil => simp [ExactItems]
  | cons v rest ih => rw [ExactItems, ih, List.forall_mem_cons]

theorem exactEntries_iff {entries : List (String × Value)} : ExactEntries entries ↔ ∀ e ∈ entries, e.2.Exact := by
  induction entries with
  | nil => simp [ExactEntries]
  | cons e rest ih =>
    obtain ⟨k, v⟩ := e
    rw [ExactEntries, ih, List.forall_mem_cons]

theorem Exact.of_mem {entries : List (String × Value)} (h : (map entries).Exact) {e : String × Value}
    (he : e ∈ entries) : e.2.Exact := exactEntries_iff.1 h.2 e he

@[simp] theorem exact_single {key : String} {v : Value} : (single key v).Exact ↔ v.Exact := by
  rw [single, Exact, exactEntries_iff, List.forall_mem_singleton]
  exact and_iff_right (List.nodup_singleton _)

/-! ## To JSON and back -/

theorem keys_toJsonEntries (entries : List (String × Value)) :
    Json.keys (toJsonEntries entries) = Json.keys entries := by
  induction entries with
  | nil => rfl
  | cons e rest ih =>
    obtain ⟨k, v⟩ := e
    exact congrArg (k :: ·) ih

mutual

/-- **What JSON holds exactly is recovered from it.** -/
theorem ofJson_toJson : (v : Value) → v.Exact → ofJson v.toJson = v
  | .null, _ | .bool _, _ | .str _, _ => rfl
  | .num _, h => h
  | .list items, h => congrArg Value.list (ofJsonItems_toJsonItems items h)
  | .map entries, h => by
    have hkeys : (Json.keys (toJsonEntries entries)).Nodup := by
      rw [keys_toJsonEntries]
      exact h.1
    rw [toJson, Json.merge_eq_self hkeys, ofJson, ofJsonEntries_toJsonEntries entries h.2]

theorem ofJsonItems_toJsonItems : (items : List Value) → ExactItems items →
    ofJsonItems (toJsonItems items) = items
  | [], _ => rfl
  | v :: rest, h => by rw [toJsonItems, ofJsonItems, ofJson_toJson v h.1, ofJsonItems_toJsonItems rest h.2]

theorem ofJsonEntries_toJsonEntries : (entries : List (String × Value)) → ExactEntries entries →
    ofJsonEntries (toJsonEntries entries) = entries
  | [], _ => rfl
  | (k, v) :: rest, h => by
    rw [toJsonEntries, ofJsonEntries, ofJson_toJson v h.1, ofJsonEntries_toJsonEntries rest h.2]

end

/-! ## From JSON -/

theorem Number.ofJson_integer {n : Int} {h : Json.InRange n} : Number.ofJson (.integer n h) =
    if n < 9223372036854775808 then .int (Int64.ofInt n) else .uint (UInt64.ofNat n.toNat) := rfl

theorem Number.exact_ofJson (n : Json.Number) : (Number.ofJson n).Exact := by
  cases n with
  | integer n hrange =>
    rw [ofJson_integer]
    split
    · next hsigned =>
      have hvalue : (Int64.ofInt n).toInt = n := Int64.toInt_ofInt_of_le hrange.1 hsigned
      refine congrArg Value.num ?_
      rw [ofJson_integer, hvalue, if_pos hsigned]
    · next hunsigned =>
      have hlt : n.toNat < 18446744073709551616 := by
        have := hrange.2
        omega
      have hvalue : (UInt64.ofNat n.toNat).toNat = n.toNat := UInt64.toNat_ofNat_of_lt' hlt
      refine congrArg Value.num ?_
      rw [ofJson_integer, hvalue, if_neg (by omega), Int.toNat_natCast]
  | float x hfinite =>
    have hjson : (Number.float x).toJson = .num (.float x hfinite) := dif_pos hfinite
    rw [ofJson, Exact, hjson]
    rfl

theorem keys_ofJsonEntries (entries : List (String × Json)) :
    Json.keys (ofJsonEntries entries) = Json.keys entries := by
  induction entries with
  | nil => rfl
  | cons e rest ih =>
    obtain ⟨k, v⟩ := e
    exact congrArg (k :: ·) ih

mutual

theorem exact_ofJson : (j : Json) → j.Distinct → (ofJson j).Exact
  | .null, _ | .bool _, _ | .str _, _ => trivial
  | .num n, _ => Number.exact_ofJson n
  | .arr items, h => exact_ofJsonItems items h
  | .obj entries, h => ⟨by rw [keys_ofJsonEntries]; exact h.1, exact_ofJsonEntries entries h.2⟩

theorem exact_ofJsonItems : (items : List Json) → Json.DistinctItems items → ExactItems (ofJsonItems items)
  | [], _ => trivial
  | v :: rest, h => ⟨exact_ofJson v h.1, exact_ofJsonItems rest h.2⟩

theorem exact_ofJsonEntries : (entries : List (String × Json)) → Json.DistinctEntries entries →
    ExactEntries (ofJsonEntries entries)
  | [], _ => trivial
  | (_, v) :: rest, h => ⟨exact_ofJson v h.1, exact_ofJsonEntries rest h.2⟩

end

/-! ## Repeated keys -/

theorem distinct_toJson_number (n : Number) : n.toJson.Distinct := by
  cases n with
  | int n | uint n => trivial
  | float x =>
    rw [Number.toJson]
    split <;> trivial

mutual

theorem distinct_toJson : (v : Value) → v.toJson.Distinct
  | .null | .bool _ | .str _ => trivial
  | .num n => distinct_toJson_number n
  | .list items => distinctItems_toJsonItems items
  | .map entries =>
    ⟨Json.nodup_keys_merge _, Json.distinctEntries_iff.2 fun e he =>
      distinct_of_mem_toJsonEntries entries e (Json.mem_of_mem_merge he)⟩

theorem distinctItems_toJsonItems : (items : List Value) → Json.DistinctItems (toJsonItems items)
  | [] => trivial
  | v :: rest => ⟨distinct_toJson v, distinctItems_toJsonItems rest⟩

theorem distinct_of_mem_toJsonEntries : (entries : List (String × Value)) →
    ∀ e ∈ toJsonEntries entries, e.2.Distinct
  | [] => fun _ he => absurd he List.not_mem_nil
  | (_, v) :: rest => List.forall_mem_cons.2 ⟨distinct_toJson v, distinct_of_mem_toJsonEntries rest⟩

end

end Docket.Value
