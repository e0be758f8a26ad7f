import Docket.Json
import Mathlib.Data.List.Basic
import Mathlib.Data.List.Induction

/-!
# Merged entries

Merging puts entries one after the other. What it leaves can be said without the order of these steps: each key
stands once, where it is first met, and holds the value that comes last (**`Json.merge_eq_lastEach`**).

* `Json.lastEach`: each key once with its last value, read off the entries.
* `Json.keys_merge`, `Json.lookup?_merge`: the keys of merged entries and their values.
* `Json.merge_map`: merging does not look at the values.
-/

namespace Docket.Json

variable {α β : Type}

/-- Each key once, in the order in which the keys first stand, with the value of its last entry. -/
def lastEach (entries : List (String × α)) : List (String × α) :=
  (keys entries).eraseDups.filterMap fun key => (lookup? key entries.reverse).map (key, ·)

theorem lookup?_put (key name : String) (value : α) (entries : List (String × α)) :
    lookup? name (put key value entries) = if key = name then some value else lookup? name entries := by
  induction entries with
  | nil => rfl
  | cons e rest ih =>
    obtain ⟨k, v⟩ := e
    by_cases hk : k = key
    · subst hk
      simp only [put, if_true, lookup?]
      split <;> rfl
    · simp only [put, if_neg hk, lookup?, ih]
      by_cases hname : k = name
      · subst hname
        simp [Ne.symm hk]
      · simp [hname]

theorem merge_concat (entries : List (String × α)) (e : String × α) :
    merge (entries ++ [e]) = put e.1 e.2 (merge entries) := by
  simp [merge, List.foldl_append]

theorem keys_merge (entries : List (String × α)) : keys (merge entries) = (keys entries).eraseDups := by
  induction entries using List.reverseRecOn with
  | nil => rfl
  | append_singleton earlier e ih =>
    have hkeys : keys (earlier ++ [e]) = keys earlier ++ [e.1] := by simp [keys]
    rw [merge_concat, keys_put, ih, hkeys, List.eraseDups_append]
    by_cases hmem : e.1 ∈ keys earlier
    · simp [hmem, List.removeAll]
    · simp [hmem, List.removeAll, List.eraseDups_cons]

theorem lookup?_merge (key : String) (entries : List (String × α)) :
    lookup? key (merge entries) = lookup? key entries.reverse := by
  induction entries using List.reverseRecOn with
  | nil => rfl
  | append_singleton earlier e ih =>
    rw [merge_concat, lookup?_put, ih, List.reverse_append]
    rfl

theorem filterMap_lookup? {entries : List (String × α)} (h : (keys entries).Nodup) :
    (keys entries).filterMap (fun key => (lookup? key entries).map (key, ·)) = entries := by
  induction entries with
  | nil => rfl
  | cons e rest ih =>
    obtain ⟨k, v⟩ := e
    have hnodup : k ∉ keys rest ∧ (keys rest).Nodup := List.nodup_cons.1 h
    have hrest : ∀ key ∈ keys rest, lookup? key ((k, v) :: rest) = lookup? key rest := by
      intro key hkey
      have hne : k ≠ key := by
        intro he
        apply hnodup.1
        rwa [he]
      simp [lookup?, hne]
    calc (k :: keys rest).filterMap (fun key => (lookup? key ((k, v) :: rest)).map (key, ·))
        = (k, v) :: (keys rest).filterMap (fun key => (lookup? key ((k, v) :: rest)).map (key, ·)) := by
          simp [lookup?]
      _ = (k, v) :: (keys rest).filterMap (fun key => (lookup? key rest).map (key, ·)) := by
          congr 1
          apply List.filterMap_congr
          intro key hkey
          rw [hrest key hkey]
      _ = (k, v) :: rest := by rw [ih hnodup.2]

/-- **Merging keeps each key once, where it first stands, with the value that comes last.** -/
theorem merge_eq_lastEach (entries : List (String × α)) : merge entries = lastEach entries := by
  calc merge entries
      = (keys (merge entries)).filterMap fun key => (lookup? key (merge entries)).map (key, ·) :=
        (filterMap_lookup? (nodup_keys_merge entries)).symm
    _ = lastEach entries := by simp only [keys_merge, lookup?_merge, lastEach]

/-! ## Values are not looked at -/

theorem put_map (f : α → β) (key : String) (value : α) (entries : List (String × α)) :
    put key (f value) (entries.map fun e => (e.1, f e.2)) = (put key value entries).map fun e => (e.1, f e.2) := by
  induction entries with
  | nil => rfl
  | cons e rest ih =>
    obtain ⟨k, v⟩ := e
    by_cases hk : k = key
    · simp [put, hk]
    · simp [put, hk, ih]

theorem merge_map (f : α → β) (entries : List (String × α)) :
    merge (entries.map fun e => (e.1, f e.2)) = (merge entries).map fun e => (e.1, f e.2) := by
  induction entries using List.reverseRecOn with
  | nil => rfl
  | append_singleton earlier e ih =>
    rw [List.map_append, List.map_singleton, merge_concat, merge_concat, ih]
    exact put_map f e.1 e.2 (merge earlier)

/-- A key that comes again loses its first value and keeps its place. -/
example : lastEach [("a", 1), ("b", 2), ("a", 3)] = [("a", 3), ("b", 2)] := by decide

end Docket.Json
