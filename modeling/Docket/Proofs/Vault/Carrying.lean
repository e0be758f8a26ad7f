import Docket.Proofs.Vault.Lookups

/-!
# Rows that are written and carried

A row is written as a text that reads back as the row, whatever its strings and numbers are. So what is looked up after
a row was put is that row, and what is looked up after rows were carried to another place are those rows, with nothing
but the place changed.

* `Text.ofBytes?_bytes`: the bytes of a string encode it.
* `AttachmentRow.rowAt_put`: lookups after a row was put.
* `AttachmentRow.rowAt_foldl_put`: lookups after rows were put at one place.
* **`AttachmentRow.stored_faithfully`**: what is stored, put and carried.
-/

namespace Docket

/-- The bytes of a string encode it. -/
theorem Text.ofBytes?_bytes (s : String) : ofBytes? (bytes s) = some s := by
  have hbytes : (⟨(bytes s).toArray⟩ : ByteArray) = s.toByteArray := by
    rw [bytes, Array.toArray_toList]
  rw [ofBytes?, hbytes, String.fromUTF8?, dif_pos s.isValidUTF8]
  rfl

namespace AttachmentRow

variable {table : AttachmentTable}

/-! ## One row -/

/-- **A lookup after a row was put** gives the row under its name at its place, and elsewhere what it gave before. -/
theorem rowAt_put (table : AttachmentTable) (row : AttachmentRow) (s : UInt64) (name : String) :
    rowAt (put table row) s name =
      if s = row.sequence ∧ name = row.filename then .ok (some row) else rowAt table s name := by
  unfold rowAt put
  by_cases h : s = row.sequence ∧ name = row.filename
  · obtain ⟨rfl, rfl⟩ := h
    rw [Table.get?_insert_self, if_pos ⟨rfl, rfl⟩]
    simp only [ofText?_text]
  · rw [Table.get?_insert_of_ne _ _ fun he => h (key_injective he), if_neg h]

/-! ## Rows at one place -/

/-- The last row with a name. -/
def lastUnder (rows : List AttachmentRow) (name : String) : Option AttachmentRow :=
  rows.reverse.find? (·.filename = name)

theorem lastUnder_append (rows : List AttachmentRow) (row : AttachmentRow) (name : String) :
    lastUnder (rows ++ [row]) name = if row.filename = name then some row else lastUnder rows name := by
  rw [lastUnder, List.reverse_append, List.reverse_singleton, List.singleton_append, List.find?_cons]
  by_cases hname : row.filename = name
  · simp [hname]
  · simp [hname, lastUnder]

/-- **A lookup after rows were put at one place** gives the last row of its name, moved to that place, or else what it
gave before. -/
theorem rowAt_foldl_put (rows : List AttachmentRow) (target s : UInt64) (name : String) :
    rowAt (rows.foldl (fun table row => put table (row.moved target)) table) s name =
      match (if s = target then lastUnder rows name else none) with
      | some row => .ok (some (row.moved target))
      | none => rowAt table s name := by
  -- from the end, where the last row put decides
  induction rows using List.reverseRecOn with
  | nil => split <;> simp_all [lastUnder]
  | append_singleton rows row ih =>
    rw [List.foldl_append, List.foldl_cons, List.foldl_nil, rowAt_put, ih, lastUnder_append, sequence_moved,
      filename_moved]
    by_cases hplace : s = target
    · by_cases hname : name = row.filename
      · rw [if_pos ⟨hplace, hname⟩, if_pos hplace, if_pos hname.symm]
      · rw [if_neg fun h => hname h.2, if_pos hplace, if_pos hplace, if_neg fun h => hname h.symm]
    · rw [if_neg fun h => hplace h.1, if_neg hplace, if_neg hplace]

/-! ## Rows of another revision -/

theorem exists_carry {source : UInt64} {rows : List AttachmentRow} (hrows : rowsAt table source = .ok rows)
    (target : UInt64) :
    ∃ carried, carry table source target = .ok carried ∧ ∀ s name, rowAt carried s name =
      match (if s = target then lastUnder rows name else none) with
      | some row => .ok (some (row.moved target))
      | none => rowAt table s name := by
  refine ⟨_, ?_, rowAt_foldl_put rows target⟩
  rw [carry, hrows]
  rfl

theorem Keyed.rowAt_eq_lastUnder (h : Keyed table) {source : UInt64} {listed : List AttachmentRow}
    (hlisted : rowsAt table source = .ok listed) (name : String) :
    rowAt table source name = .ok (lastUnder listed name) := by
  obtain ⟨rows, hrows, hlists⟩ := rowsAt_spec h source
  obtain rfl : rows.map (·.moved source) = listed := Except.ok.inj (hrows.symm.trans hlisted)
  rw [h.rowAt_eq]
  congr 1
  cases hlast : lastUnder (rows.map (·.moved source)) name with
  | some row =>
    have hname : row.filename = name := by simpa using List.find?_some hlast
    obtain ⟨stored, hstored, rfl⟩ := List.mem_map.1 (List.mem_reverse.1 (List.mem_of_find?_eq_some hlast))
    rw [← hname, filename_moved, (hlists.mem_iff stored).1 hstored]
    rfl
  | none =>
    cases hsheet : sheet table source name with
    | none => rfl
    | some row =>
      obtain ⟨-, rfl, -⟩ := h.sheet_eq_some_iff.1 hsheet
      have hmem : row.moved source ∈ rows.map (·.moved source) := List.mem_map_of_mem ((hlists.mem_iff row).2 hsheet)
      exact absurd (List.find?_eq_none.1 hlast _ (List.mem_reverse.2 hmem)) (by simp)

theorem Keyed.sheet_eq_blank (h : Keyed table) {target : UInt64} (hnone : rowsAt table target = .ok []) :
    sheet table target = Sheet.blank := by
  obtain ⟨rows, hrows, hlists⟩ := rowsAt_spec h target
  obtain rfl : rows = [] := List.map_eq_nil_iff.1 (Except.ok.inj (hrows.symm.trans hnone))
  funext name
  cases hsheet : sheet table target name with
  | none => rfl
  | some row =>
    obtain ⟨-, rfl, -⟩ := h.sheet_eq_some_iff.1 hsheet
    exact absurd ((hlists.mem_iff row).2 hsheet) List.not_mem_nil

/-- What is listed at a place that had nothing and was given the rows of another one. -/
theorem Keyed.rowsAt_carried (h : Keyed table) {carried : AttachmentTable} {source target : UInt64}
    (hcarry : carry table source target = .ok carried) (hnone : rowsAt table target = .ok []) :
    rowsAt carried target = (rowsAt table source).map (·.map (·.moved target)) := by
  obtain ⟨after, given, hafter, hgives, hgiven⟩ := carry_spec h source target
  obtain rfl : after = carried := Except.ok.inj (hafter.symm.trans hcarry)
  obtain ⟨rows, hrows, hlists⟩ := rowsAt_spec h source
  obtain ⟨others, hothers, hlists'⟩ := rowsAt_spec hgives.keyed target
  rw [hgives.self, hgiven (h.sheet_eq_blank hnone)] at hlists'
  obtain rfl : rows = others := hlists.unique hlists'
  rw [hothers, hrows, Except.map, List.map_map]
  rfl

/-- **What is stored reads back.** The text of a row, as bytes, reads back as the row whatever its strings and numbers
are, so different rows have different texts. After a row was put, a lookup under its name gives it and every other
lookup gives what it gave before. Rows of one revision that were carried to another one are found there, the last one of
each name, with nothing changed but the place; other lookups give what they gave before. In a table where every row
stands under its own key this means that a lookup gives the row that there was under the same name, and where there was
nothing at the other place the whole listing is the same. -/
theorem stored_faithfully :
    (∀ row : AttachmentRow, (Text.ofBytes? (Text.bytes row.text)).bind ofText? = some row) ∧
    (∀ row other : AttachmentRow, row.text = other.text ↔ row = other) ∧
    (∀ table row s name, rowAt (put table row) s name =
      if s = row.sequence ∧ name = row.filename then .ok (some row) else rowAt table s name) ∧
    (∀ table source target,
      match rowsAt table source with
      | .error e => carry table source target = .error e
      | .ok rows => ∃ carried, carry table source target = .ok carried ∧ ∀ s name, rowAt carried s name =
        match (if s = target then lastUnder rows name else none) with
        | some row => .ok (some { row with sequence := target })
        | none => rowAt table s name) ∧
    ∀ table, Keyed table → ∀ source target, ∃ carried, carry table source target = .ok carried ∧
      (∀ name, rowAt carried target name =
        match rowAt table source name with
        | .ok (some row) => .ok (some { row with sequence := target })
        | _ => rowAt table target name) ∧
      (∀ s, s ≠ target → ∀ name, rowAt carried s name = rowAt table s name) ∧
      (rowsAt table target = .ok [] → rowsAt carried target =
        (rowsAt table source).map (·.map fun row => { row with sequence := target })) := by
  refine ⟨?_, fun _ _ => ⟨text_injective, congrArg text⟩, rowAt_put, ?_, ?_⟩
  · intro row
    rw [Text.ofBytes?_bytes, Option.bind_some, ofText?_text]
  · intro table source target
    cases hrows : rowsAt table source with
    | error e =>
      show carry table source target = .error e
      rw [carry, hrows]
      rfl
    | ok rows => exact exists_carry hrows target
  · intro table h source target
    obtain ⟨rows, hrows, -⟩ := rowsAt_spec h source
    obtain ⟨carried, hcarry, hlookup⟩ := exists_carry hrows target
    refine ⟨carried, hcarry, ?_, ?_, h.rowsAt_carried hcarry⟩
    · intro name
      rw [hlookup, if_pos rfl, h.rowAt_eq_lastUnder hrows]
      cases lastUnder (rows.map (·.moved source)) name <;> rfl
    · intro s hs name
      rw [hlookup, if_neg hs]

/-- A row with quotes, control characters and other letters in its strings and with the largest numbers. -/
def odd : AttachmentRow where
  sequence := 18446744073709551615
  filename := "\"\\\n\x01\x7f\u00e9\u20ac"
  content := .digest [1]
  mediaType := "text/\"\\\t\u4e2d"
  encoding := .gzip
  length := 18446744073709551615
  encodedLength := 9007199254740993
  revpos := 0

/-- The table with this row alone. -/
def oddTable : AttachmentTable := put .empty odd

theorem keyed_oddTable : Keyed oddTable := by
  intro e he
  obtain rfl : e = (key odd.sequence odd.filename, odd.text) := List.mem_singleton.1 he
  exact ⟨odd, rfl⟩

theorem rowsAt_oddTable (s : UInt64) : rowsAt oddTable s = .ok (if s = odd.sequence then [odd] else []) := by
  have hentries : oddTable.entries = [(key odd.sequence odd.filename, odd.text)] := rfl
  rw [rowsAt, entriesAt_eq, hentries, List.filter_singleton, Bool.cond_eq_ite]
  by_cases hs : s = odd.sequence
  · rw [if_pos hs, if_pos (isPrefixOf_key.2 hs.symm), readAll, ofText?_text]
    rfl
  · rw [if_neg hs, if_neg fun h => hs (isPrefixOf_key.1 h).symm]
    rfl

theorem stored_faithfully_odd :
    (Text.ofBytes? (Text.bytes odd.text)).bind ofText? = some odd ∧
      ∃ carried, carry oddTable odd.sequence 3 = .ok carried ∧
        rowAt carried 3 odd.filename = .ok (some { odd with sequence := 3 }) ∧
        rowsAt carried 3 = .ok [{ odd with sequence := 3 }] := by
  obtain ⟨htext, -, hput, -, hkeyed⟩ := stored_faithfully
  obtain ⟨carried, hcarry, hlookup, -, hlisting⟩ := hkeyed oddTable keyed_oddTable odd.sequence 3
  have hodd : rowAt oddTable odd.sequence odd.filename = .ok (some odd) :=
    (hput _ _ _ _).trans (if_pos ⟨rfl, rfl⟩)
  refine ⟨htext odd, carried, hcarry, ?_, ?_⟩
  · rw [hlookup, hodd]
  · rw [hlisting (rowsAt_oddTable 3), rowsAt_oddTable]
    rfl

end AttachmentRow

end Docket
