import Docket.Binary64

/-!
# JSON values

A number is an integer of at most sixty-four bits, signed or unsigned, or else a finite double. An object
holds its entries in order.

* `Json.put`: sets a key. A key that is present keeps its place.
* `Json.merge`: entries with repeated keys put one after the other, so that a key stands where it was first
  met and holds the value that came last.
* `Json.Distinct`: no object at any depth repeats a key.
* **`Json.nodup_keys_merge`**: merged entries have no repeated key.
* `Json.merge_eq_self`: entries without repeated keys are left alone.
-/

namespace Docket

/-- An integer that a signed or an unsigned word of sixty-four bits holds. -/
def Json.InRange (n : Int) : Prop := -9223372036854775808 ≤ n ∧ n < 18446744073709551616

instance (n : Int) : Decidable (Json.InRange n) := by unfold Json.InRange; infer_instance

/-- A number as printed text can hold it. -/
inductive Json.Number where
  | integer (n : Int) (inRange : Json.InRange n)
  | float (x : Binary64) (isFinite : x.IsFinite)
deriving DecidableEq

/-- A JSON value. -/
inductive Json where
  | null
  | bool (b : Bool)
  | num (n : Json.Number)
  | str (s : String)
  | arr (items : List Json)
  | obj (entries : List (String × Json))
deriving Inhabited

namespace Json

/-- An integer in range. -/
def ofInt (n : Int) (inRange : InRange n) : Json := .num (.integer n inRange)

theorem inRange_toInt (n : Int64) : InRange n.toInt :=
  ⟨n.le_toInt, Int.lt_trans n.toInt_lt (by decide)⟩

theorem inRange_toNat (n : UInt64) : InRange n.toNat := by
  have := n.toNat_lt
  unfold InRange
  omega

/-- A signed word. -/
def ofInt64 (n : Int64) : Json := .ofInt n.toInt (inRange_toInt n)

/-- An unsigned word. -/
def ofUInt64 (n : UInt64) : Json := .ofInt n.toNat (inRange_toNat n)

/-- The empty object. -/
def empty : Json := .obj []

/-! ## Entries by key -/

section Entries

variable {α : Type}

/-- Sets a key: in its place if it is present, else at the end. -/
def put (key : String) (value : α) : List (String × α) → List (String × α)
  | [] => [(key, value)]
  | (k, v) :: rest => if k = key then (key, value) :: rest else (k, v) :: put key value rest

/-- Entries put one after the other. -/
def merge (entries : List (String × α)) : List (String × α) :=
  entries.foldl (fun done e => put e.1 e.2 done) []

/-- The value of the first entry with the key. -/
def lookup? (key : String) : List (String × α) → Option α
  | [] => none
  | (k, v) :: rest => if k = key then some v else lookup? key rest

/-- The keys in order. -/
def keys (entries : List (String × α)) : List String := entries.map (·.1)

theorem keys_put (key : String) (value : α) (entries : List (String × α)) :
    keys (put key value entries) =
      if key ∈ keys entries then keys entries else keys entries ++ [key] := by
  induction entries with
  | nil => rfl
  | cons e rest ih =>
    obtain ⟨k, v⟩ := e
    by_cases h : k = key
    · simp [put, h, keys]
    · have h' : ¬ key = k := fun e => h e.symm
      simp only [put, h, if_false, keys, List.map_cons, List.mem_cons, h', false_or] at ih ⊢
      rw [ih]
      split <;> simp [*]

theorem put_of_not_mem {key : String} {value : α} {entries : List (String × α)}
    (h : key ∉ keys entries) : put key value entries = entries ++ [(key, value)] := by
  induction entries with
  | nil => rfl
  | cons e rest ih =>
    obtain ⟨k, v⟩ := e
    simp only [keys, List.map_cons, List.mem_cons, not_or] at h
    have h' : ¬ k = key := fun e => h.1 e.symm
    simp only [put, h', if_false, List.cons_append]
    rw [ih h.2]

theorem nodup_keys_put {key : String} {value : α} {entries : List (String × α)}
    (h : (keys entries).Nodup) : (keys (put key value entries)).Nodup := by
  rw [keys_put]
  split
  · exact h
  · next hk =>
    rw [List.nodup_append]
    refine ⟨h, by simp, ?_⟩
    intro a ha b hb hab
    simp only [List.mem_singleton] at hb
    subst hb hab
    exact hk ha

/-- Merged entries have no repeated key. -/
theorem nodup_keys_merge (entries : List (String × α)) : (keys (merge entries)).Nodup := by
  suffices h : ∀ done : List (String × α), (keys done).Nodup →
      (keys (entries.foldl (fun done e => put e.1 e.2 done) done)).Nodup from h [] (by simp [keys])
  induction entries with
  | nil => intro done h; exact h
  | cons e rest ih => intro done h; exact ih _ (nodup_keys_put h)

/-- Entries without repeated keys are left alone. -/
theorem merge_eq_self {entries : List (String × α)} (h : (keys entries).Nodup) :
    merge entries = entries := by
  suffices key : ∀ done : List (String × α), (keys (done ++ entries)).Nodup →
      entries.foldl (fun done e => put e.1 e.2 done) done = done ++ entries from key [] h
  clear h
  induction entries with
  | nil => intro done _; simp
  | cons e rest ih =>
    intro done h
    have hk : e.1 ∉ keys done := by
      simp only [keys, List.map_append, List.map_cons, List.nodup_append] at h
      intro hm
      exact h.2.2 _ hm _ List.mem_cons_self rfl
    rw [List.foldl_cons, put_of_not_mem hk, ih _ (by simpa [keys] using h)]
    simp

end Entries

/-! ## Repeated keys -/

mutual

/-- No object at any depth repeats a key. -/
def Distinct : Json → Prop
  | .arr items => DistinctItems items
  | .obj entries => (keys entries).Nodup ∧ DistinctEntries entries
  | _ => True

/-- Every item is `Distinct`. -/
def DistinctItems : List Json → Prop
  | [] => True
  | v :: rest => Distinct v ∧ DistinctItems rest

/-- Every value is `Distinct`. -/
def DistinctEntries : List (String × Json) → Prop
  | [] => True
  | (_, v) :: rest => Distinct v ∧ DistinctEntries rest

end

end Json

end Docket
