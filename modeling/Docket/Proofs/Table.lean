import Docket.Table
import Mathlib.Tactic.Common

/-!
# The entries of a table

* `Table.takeWhile_eq_filter`, `Table.dropWhile_eq_filter`: a list where a property holds up to some place.
* `Table.entries_insert_of_forall_lt`: an entry after all others comes last.
* `Table.ofList_of_ascending`: entries in order are a table as they are.
* `Table.get?_insert_of_ne`, `Table.get?_erase_of_ne`: a change of one key leaves the others alone.
* `Table.nodup_keys`, `Table.mem_keys`: the keys of a table.
* `Table.mem_entries_insert`, `Table.mem_entries_erase`: the entries after a change of one key.
-/

namespace Docket.Table

/-! ## What holds from the start on -/

section FromTheStart

variable {α : Type} {p : α → Bool} {xs : List α} (h : xs.Pairwise fun x y => p y = true → p x = true)

include h

theorem takeWhile_eq_filter : xs.takeWhile p = xs.filter p := by
  induction xs with
  | nil => rfl
  | cons x rest ih =>
    obtain ⟨hfirst, hrest⟩ := List.pairwise_cons.1 h
    by_cases hx : p x = true
    · simp [hx, ih hrest]
    · have hnone : ∀ y ∈ rest, ¬ p y = true := fun y hy hp => hx (hfirst y hy hp)
      simp [hx, List.filter_eq_nil_iff.2 hnone]

theorem dropWhile_eq_filter : xs.dropWhile p = xs.filter fun x => !p x := by
  induction xs with
  | nil => rfl
  | cons x rest ih =>
    obtain ⟨hfirst, hrest⟩ := List.pairwise_cons.1 h
    by_cases hx : p x = true
    · simp [hx, ih hrest]
    · have hall : ∀ y ∈ rest, (!p y) = true := fun y hy => by simpa using fun hp => hx (hfirst y hy hp)
      simp [hx, List.filter_eq_self.2 hall]

end FromTheStart

/-! ## Changes of one key -/

variable {κ α : Type} [Ord κ] [Std.TransOrd κ]

theorem place_of_forall_lt {key : κ} {value : α} {entries : List (κ × α)}
    (h : ∀ e ∈ entries, compare e.1 key = .lt) : place key value entries = entries ++ [(key, value)] := by
  induction entries with
  | nil => rfl
  | cons e rest ih =>
    obtain ⟨k, v⟩ := e
    rw [List.forall_mem_cons] at h
    have hk : compare key k = .gt := Std.OrientedCmp.gt_of_lt h.1
    rw [place, hk, List.cons_append, ih h.2]

theorem entries_insert_of_forall_lt (t : Table κ α) {key : κ} (value : α)
    (h : ∀ e ∈ t.entries, compare e.1 key = .lt) :
    (t.insert key value).entries = t.entries ++ [(key, value)] := place_of_forall_lt h

theorem entries_foldl_insert {rest : List (κ × α)} {t : Table κ α} (h : Ascending (t.entries ++ rest)) :
    (rest.foldl (fun t e => t.insert e.1 e.2) t).entries = t.entries ++ rest := by
  induction rest generalizing t with
  | nil => exact (List.append_nil _).symm
  | cons e rest ih =>
    have hlast : ∀ x ∈ t.entries, compare x.1 e.1 = .lt := fun x hx =>
      (List.pairwise_append.1 h).2.2 x hx e List.mem_cons_self
    have hinsert : (t.insert e.1 e.2).entries = t.entries ++ [e] := t.entries_insert_of_forall_lt e.2 hlast
    have hsplit : t.entries ++ e :: rest = (t.insert e.1 e.2).entries ++ rest := by
      rw [hinsert, List.append_assoc, List.singleton_append]
    rw [List.foldl_cons, hsplit]
    exact ih (hsplit ▸ h)

theorem ofList_of_ascending {entries : List (κ × α)} (h : Ascending entries) : ofList entries = ⟨entries, h⟩ := by
  have hentries : (ofList entries).entries = entries := entries_foldl_insert (t := .empty) h
  generalize ofList entries = t at hentries
  subst hentries
  rfl

theorem nodup_keys (t : Table κ α) : t.keys.Nodup := by
  refine List.pairwise_map.2 (t.ascending.imp fun h he => ?_)
  rw [he] at h
  exact not_lt_self _ h

theorem find?_place_self (key : κ) (value : α) (entries : List (κ × α)) :
    find? key (place key value entries) = some value := by
  rw [find?_place, if_pos Std.ReflCmp.compare_self]

theorem get?_erase_self (t : Table κ α) (key : κ) : (t.erase key).get? key = none := by
  rw [get?_erase, if_pos Std.ReflCmp.compare_self]

theorem place_place (key : κ) (first second : α) (entries : List (κ × α)) :
    place key second (place key first entries) = place key second entries := by
  have hself : compare key key = .eq := Std.ReflCmp.compare_self
  induction entries with
  | nil => simp only [place, hself]
  | cons e rest ih =>
    obtain ⟨k, v⟩ := e
    cases hk : compare key k with
    | lt => simp only [place, hk, hself]
    | eq => simp only [place, hk, hself]
    | gt => simp only [place, hk, ih]

theorem insert_insert (t : Table κ α) (key : κ) (first second : α) :
    (t.insert key first).insert key second = t.insert key second := by
  have hentries := place_place key first second t.entries
  unfold insert
  simp only [hentries]

variable [Std.LawfulEqOrd κ]

theorem mem_keys {t : Table κ α} {key : κ} : key ∈ t.keys ↔ (t.get? key).isSome := by
  rw [Option.isSome_iff_exists]
  simp only [get?_eq_some_iff, keys, List.mem_map]
  constructor
  · rintro ⟨⟨k, v⟩, hmem, rfl⟩
    exact ⟨v, hmem⟩
  · rintro ⟨v, hmem⟩
    exact ⟨(key, v), hmem, rfl⟩

theorem find?_place_of_ne {key other : κ} (value : α) (entries : List (κ × α)) (h : other ≠ key) :
    find? other (place key value entries) = find? other entries := by
  rw [find?_place, if_neg fun he => h (Std.LawfulEqCmp.eq_of_compare he)]

theorem get?_insert_of_ne (t : Table κ α) {key other : κ} (value : α) (h : other ≠ key) :
    (t.insert key value).get? other = t.get? other := by
  rw [get?_insert, if_neg fun he => h (Std.LawfulEqCmp.eq_of_compare he)]

theorem get?_erase_of_ne (t : Table κ α) {key other : κ} (h : other ≠ key) :
    (t.erase key).get? other = t.get? other := by
  rw [get?_erase, if_neg fun he => h (Std.LawfulEqCmp.eq_of_compare he)]

theorem erase_insert {t : Table κ α} {key : κ} (value : α) (h : t.get? key = none) :
    (t.insert key value).erase key = t := ext fun other => by
  by_cases hother : other = key
  · rw [hother, get?_erase_self, h]
  · rw [get?_erase_of_ne _ hother, get?_insert_of_ne t value hother]

theorem insert_erase (t : Table κ α) (key : κ) (value : α) : (t.erase key).insert key value = t.insert key value :=
  ext fun other => by
    by_cases hother : other = key
    · rw [hother, get?_insert_self, get?_insert_self]
    · rw [get?_insert_of_ne _ value hother, get?_insert_of_ne t value hother, get?_erase_of_ne t hother]

theorem place_of_find? {entries : List (κ × α)} (h : Ascending entries) {key : κ} {value : α}
    (hfind : find? key entries = some value) : place key value entries = entries := by
  have heq : (Table.mk entries h).insert key value = ⟨entries, h⟩ := ext fun other => by
    by_cases hother : other = key
    · rw [hother, get?_insert_self]
      exact hfind.symm
    · exact get?_insert_of_ne _ value hother
  exact congrArg Table.entries heq

theorem mem_entries_insert {t : Table κ α} {key : κ} {value : α} {e : κ × α} :
    e ∈ (t.insert key value).entries ↔ e = (key, value) ∨ (e.1 ≠ key ∧ e ∈ t.entries) := by
  obtain ⟨k, v⟩ := e
  rw [← get?_eq_some_iff, ← get?_eq_some_iff]
  by_cases hk : k = key
  · subst hk
    simp [get?_insert_self, eq_comm]
  · simp [get?_insert_of_ne t value hk, hk]

theorem mem_entries_erase {t : Table κ α} {key : κ} {e : κ × α} :
    e ∈ (t.erase key).entries ↔ e.1 ≠ key ∧ e ∈ t.entries := by
  obtain ⟨k, v⟩ := e
  rw [← get?_eq_some_iff, ← get?_eq_some_iff]
  by_cases hk : k = key
  · subst hk
    simp [get?_erase_self]
  · simp [get?_erase_of_ne t hk, hk]

end Docket.Table
