/-!
# Tables

A finite map as its entries in ascending order of keys. Two tables with the same entries are equal, and an
operation is determined by what it does to look-ups.

* `Table.get?`, `Table.insert`, `Table.erase`: look-up and change of one entry.
* **`Table.ext`**: tables that answer every look-up alike are equal.
* `Table.get?_insert`, `Table.get?_erase`: what a change does to look-ups.
-/

namespace Docket

variable {κ α : Type} [Ord κ]

/-- Entries in strictly ascending order of keys. -/
def Ascending (entries : List (κ × α)) : Prop :=
  entries.Pairwise fun a b => compare a.1 b.1 = .lt

/-- A finite map. -/
structure Table (κ α : Type) [Ord κ] where
  entries : List (κ × α)
  ascending : Ascending entries

namespace Table

/-- The table without entries. -/
def empty : Table κ α := ⟨[], List.Pairwise.nil⟩

instance : Inhabited (Table κ α) := ⟨empty⟩

instance : EmptyCollection (Table κ α) := ⟨empty⟩

/-! ## Operations on entries -/

/-- The value of a key. -/
def find? (key : κ) : List (κ × α) → Option α
  | [] => none
  | (k, v) :: rest =>
    match compare key k with
    | .eq => some v
    | _ => find? key rest

/-- Entries with one more or one changed. -/
def place (key : κ) (value : α) : List (κ × α) → List (κ × α)
  | [] => [(key, value)]
  | (k, v) :: rest =>
    match compare key k with
    | .lt => (key, value) :: (k, v) :: rest
    | .eq => (key, value) :: rest
    | .gt => (k, v) :: place key value rest

/-- Entries without a key. -/
def without (key : κ) (entries : List (κ × α)) : List (κ × α) :=
  entries.filter fun e => compare key e.1 != .eq

theorem mem_place {key : κ} {value : α} {entries : List (κ × α)} {e : κ × α}
    (h : e ∈ place key value entries) : e = (key, value) ∨ e ∈ entries := by
  induction entries with
  | nil => simpa [place] using h
  | cons x rest ih =>
    obtain ⟨k, v⟩ := x
    simp only [place] at h
    split at h
    · simpa using h
    · rcases List.mem_cons.1 h with rfl | h
      · exact .inl rfl
      · exact .inr (List.mem_cons_of_mem _ h)
    · rcases List.mem_cons.1 h with rfl | h
      · exact .inr List.mem_cons_self
      · exact (ih h).imp_right (List.mem_cons_of_mem _)

section Lawful

variable [Std.TransOrd κ]

theorem not_lt_self (key : κ) : compare key key ≠ .lt := fun h => by
  have := Std.OrientedCmp.gt_of_lt h
  rw [h] at this
  cases this

theorem ascending_place {key : κ} {value : α} {entries : List (κ × α)} (h : Ascending entries) :
    Ascending (place key value entries) := by
  induction entries with
  | nil => exact List.pairwise_singleton ..
  | cons x rest ih =>
    obtain ⟨k, v⟩ := x
    have hx := List.pairwise_cons.1 h
    simp only [place]
    split
    · next hc =>
      refine List.pairwise_cons.2 ⟨fun e he => ?_, h⟩
      rcases List.mem_cons.1 he with rfl | he
      · exact hc
      · exact Std.TransCmp.lt_trans hc (hx.1 e he)
    · next hc =>
      exact List.pairwise_cons.2
        ⟨fun e he => Std.TransCmp.lt_of_eq_of_lt hc (hx.1 e he), hx.2⟩
    · next hc =>
      refine List.pairwise_cons.2 ⟨fun e he => ?_, ih hx.2⟩
      rcases mem_place he with rfl | he
      · exact Std.OrientedCmp.lt_of_gt hc
      · exact hx.1 e he

end Lawful

theorem ascending_without {key : κ} {entries : List (κ × α)} (h : Ascending entries) :
    Ascending (without key entries) := h.filter _

/-! ## Operations on tables -/

/-- The value of a key. -/
def get? (t : Table κ α) (key : κ) : Option α := find? key t.entries

/-- The table with one entry more or changed. -/
def insert [Std.TransOrd κ] (t : Table κ α) (key : κ) (value : α) : Table κ α :=
  ⟨place key value t.entries, ascending_place t.ascending⟩

/-- The table without a key. -/
def erase (t : Table κ α) (key : κ) : Table κ α := ⟨without key t.entries, ascending_without t.ascending⟩

/-- The keys in ascending order. -/
def keys (t : Table κ α) : List κ := t.entries.map (·.1)

/-- A table of entries in any order, where a later entry replaces an earlier one. -/
def ofList [Std.TransOrd κ] (entries : List (κ × α)) : Table κ α :=
  entries.foldl (fun t e => t.insert e.1 e.2) empty

/-! ## Look-ups -/

@[simp] theorem get?_empty (key : κ) : (empty : Table κ α).get? key = none := rfl

section Laws

variable [Std.TransOrd κ]

theorem find?_place (key : κ) (value : α) (entries : List (κ × α)) (other : κ) :
    find? other (place key value entries) =
      if compare other key = .eq then some value else find? other entries := by
  induction entries with
  | nil => simp only [place, find?]; split <;> simp_all
  | cons x rest ih =>
    obtain ⟨k, v⟩ := x
    simp only [place]
    split
    · simp only [find?]
      split <;> simp_all
    · next hc =>
      simp only [find?]
      by_cases h : compare other key = .eq
      · simp [h]
      · simp only [h, if_false]
        have hk : compare other k ≠ .eq := fun h' =>
          h (Std.TransCmp.eq_trans h' (Std.OrientedCmp.eq_symm hc))
        split <;> simp_all
    · next hc =>
      simp only [find?, ih]
      by_cases h : compare other k = .eq
      · have : compare other key ≠ .eq := fun h' => by
          have := Std.TransCmp.eq_trans (Std.OrientedCmp.eq_symm h') h
          rw [hc] at this
          cases this
        simp [h, this]
      · split <;> simp_all

/-- A changed key has its new value, every other key its old one. -/
theorem get?_insert (t : Table κ α) (key : κ) (value : α) (other : κ) :
    (t.insert key value).get? other = if compare other key = .eq then some value else t.get? other :=
  find?_place ..

theorem get?_insert_self (t : Table κ α) (key : κ) (value : α) :
    (t.insert key value).get? key = some value := by
  rw [get?_insert, if_pos Std.ReflCmp.compare_self]

theorem find?_without (key : κ) (entries : List (κ × α)) (other : κ) :
    find? other (without key entries) =
      if compare other key = .eq then none else find? other entries := by
  induction entries with
  | nil => simp [without, find?]
  | cons x rest ih =>
    obtain ⟨k, v⟩ := x
    have ih' : find? other (List.filter (fun e => compare key e.1 != .eq) rest) = _ := ih
    by_cases hk : compare key k = .eq
    · have : ((compare key k) != .eq) = false := by simp [hk]
      simp only [without, List.filter_cons, this, Bool.false_eq_true, if_false, ih', find?]
      by_cases h : compare other key = .eq
      · simp [h]
      · have : compare other k ≠ .eq := fun h' => h (Std.TransCmp.eq_trans h' (Std.OrientedCmp.eq_symm hk))
        simp [h]
    · have : ((compare key k) != .eq) = true := by simp [hk]
      simp only [without, List.filter_cons, this, if_true, find?, ih']
      by_cases h : compare other k = .eq
      · have : compare other key ≠ .eq := fun h' =>
          hk (Std.TransCmp.eq_trans (Std.OrientedCmp.eq_symm h') h)
        simp [h, this]
      · split <;> simp_all

/-- An erased key has no value, every other key its old one. -/
theorem get?_erase (t : Table κ α) (key : κ) (other : κ) :
    (t.erase key).get? other = if compare other key = .eq then none else t.get? other :=
  find?_without ..

end Laws

section Ext

variable [Std.TransOrd κ]

theorem eq_of_mem_iff {xs ys : List (κ × α)} (hx : Ascending xs) (hy : Ascending ys)
    (h : ∀ e, e ∈ xs ↔ e ∈ ys) : xs = ys := by
  induction xs generalizing ys with
  | nil =>
    cases ys with
    | nil => rfl
    | cons y ys => exact absurd ((h y).2 List.mem_cons_self) (by simp)
  | cons x xs ih =>
    cases ys with
    | nil => exact absurd ((h x).1 List.mem_cons_self) (by simp)
    | cons y ys =>
      have hx' := List.pairwise_cons.1 hx
      have hy' := List.pairwise_cons.1 hy
      have hxy : x = y := by
        rcases List.mem_cons.1 ((h x).1 List.mem_cons_self) with e | hm
        · exact e
        · rcases List.mem_cons.1 ((h y).2 List.mem_cons_self) with e | hm'
          · exact e.symm
          · exact absurd (Std.TransCmp.lt_trans (hy'.1 x hm) (hx'.1 y hm')) (not_lt_self _)
      subst hxy
      congr 1
      refine ih hx'.2 hy'.2 fun e => ?_
      have he := h e
      simp only [List.mem_cons] at he
      constructor
      · intro hm
        rcases he.1 (.inr hm) with rfl | hm'
        · exact absurd (hx'.1 _ hm) (not_lt_self _)
        · exact hm'
      · intro hm
        rcases he.2 (.inr hm) with rfl | hm'
        · exact absurd (hy'.1 _ hm) (not_lt_self _)
        · exact hm'

variable [Std.LawfulEqOrd κ]

theorem find?_eq_some_iff {entries : List (κ × α)} (h : Ascending entries) {key : κ} {value : α} :
    find? key entries = some value ↔ (key, value) ∈ entries := by
  induction entries with
  | nil => simp [find?]
  | cons x rest ih =>
    obtain ⟨k, v⟩ := x
    have hx := List.pairwise_cons.1 h
    simp only [find?, List.mem_cons, Prod.mk.injEq]
    split
    · next hc =>
      have hc := Std.LawfulEqCmp.eq_of_compare hc
      subst hc
      have : ∀ w, (key, w) ∉ rest := fun w hw =>
        not_lt_self key (hx.1 (key, w) hw)
      simp [this, eq_comm]
    · next hc =>
      have : key ≠ k := fun e => hc (e ▸ Std.ReflCmp.compare_self)
      simp [this, ih hx.2]

theorem get?_eq_some_iff {t : Table κ α} {key : κ} {value : α} :
    t.get? key = some value ↔ (key, value) ∈ t.entries := find?_eq_some_iff t.ascending

theorem ext {s t : Table κ α} (h : ∀ key, s.get? key = t.get? key) : s = t := by
  obtain ⟨xs, hx⟩ := s
  obtain ⟨ys, hy⟩ := t
  have : xs = ys := eq_of_mem_iff hx hy fun e => by
    have he : find? e.1 xs = find? e.1 ys := h e.1
    exact (find?_eq_some_iff hx).symm.trans (he ▸ find?_eq_some_iff hy)
  subst this
  rfl

end Ext

end Table

end Docket
