import Docket.Proofs.Attachment.Rows

/-!
# The order of rows

Keys are in the order of places, and of names where the places are the same. So the rows of a revision stand together,
after those of earlier revisions and before those of later ones. A scan that knows where they begin and stops at the
first key of another revision therefore reads all of them, whatever stands there (**`keys_separate_revisions`**).

* `AttachmentRow.compare_key`: the order of keys.
* `Labelled.exists_around`: earlier revisions, a revision, later revisions.
* `AttachmentRow.scan`, `AttachmentRow.rowsAt_eq_scan`: a scan entry by entry.
-/

namespace Docket

/-- Entries in order are those before a bound, those that start with it, and others. -/
theorem exists_append_scan {entries : List (Bytes × String)} (h : Ascending entries) (s : Bytes) :
    ∃ before after, entries = before ++
        ((entries.dropWhile fun e => compare e.1 s == .lt).takeWhile fun e => s.isPrefixOf e.1) ++ after ∧
      (∀ e ∈ before, e ∈ entries ∧ compare e.1 s = .lt) ∧
      ∀ e ∈ after, e ∈ entries ∧ compare e.1 s ≠ .lt ∧ ¬ s.isPrefixOf e.1 = true := by
  have hlow : ∀ e ∈ entries.filter fun e => compare e.1 s != .lt, compare e.1 s ≠ .lt := fun e he => by
    simpa using (List.mem_filter.1 he).2
  have hrest := Table.dropWhile_eq_filter (pairwise_isPrefixOf (h.filter _) hlow)
  rw [← dropWhile_below_eq_filter h] at hrest hlow
  refine ⟨entries.takeWhile fun e => compare e.1 s == .lt,
    (entries.dropWhile fun e => compare e.1 s == .lt).dropWhile fun e => s.isPrefixOf e.1, ?_, ?_, ?_⟩
  · rw [List.append_assoc, List.takeWhile_append_dropWhile, List.takeWhile_append_dropWhile]
  · intro e he
    exact ⟨(List.takeWhile_prefix _).subset he, by simpa using List.mem_takeWhile_imp he⟩
  · intro e he
    rw [hrest, List.mem_filter] at he
    refine ⟨(List.dropWhile_suffix _).subset he.1, hlow e he.1, ?_⟩
    simpa only [Bool.not_eq_true', Bool.not_eq_true] using he.2

namespace AttachmentRow

/-! ## Keys -/

/-- **Keys are in the order of places, and of names at one place.** -/
theorem compare_key (s t : UInt64) (name other : String) :
    compare (key s name) (key t other) = (compare s t).then (compare (Text.bytes name) (Text.bytes other)) := by
  have hlength : (stem s).length = (stem t).length := by
    rw [stem, stem, Bytes.length_bigEndian, Bytes.length_bigEndian]
  rw [key, key, compare_append hlength, stem, stem, Bytes.compare_bigEndian]

theorem key_empty (s : UInt64) : key s "" = stem s := List.append_nil (stem s)

theorem compare_key_stem {s t : UInt64} {name : String} : compare (key t name) (stem s) = .lt ↔ t < s := by
  rw [← key_empty, compare_key, Ordering.then_eq_lt, Bytes.compare_word, Nat.compare_eq_lt, UInt64.lt_iff_toNat_lt]
  refine ⟨?_, .inl⟩
  rintro (hlt | ⟨-, hname⟩)
  · exact hlt
  · exact absurd hname (compare_nil_ne_lt _)

/-! ## Tables of keys -/

variable {table : AttachmentTable}

/-- The entries of a revision stand together, after those of earlier revisions and before those of later ones. -/
theorem Labelled.exists_around (h : Labelled table) (s : UInt64) : ∃ before after,
    table.entries = before ++ entriesAt table s ++ after ∧
      (∀ e ∈ before, ∃ t name, t < s ∧ e.1 = key t name) ∧ ∀ e ∈ after, ∃ t name, s < t ∧ e.1 = key t name := by
  obtain ⟨before, after, hsplit, hbefore, hafter⟩ := exists_append_scan table.ascending (stem s)
  refine ⟨before, after, hsplit, ?_, ?_⟩
  · intro e he
    obtain ⟨hmem, hlt⟩ := hbefore e he
    obtain ⟨t, name, hkey⟩ := h e hmem
    rw [hkey] at hlt
    exact ⟨t, name, compare_key_stem.1 hlt, hkey⟩
  · intro e he
    obtain ⟨hmem, hnot, hstarts⟩ := hafter e he
    obtain ⟨t, name, hkey⟩ := h e hmem
    rw [hkey, Ne, compare_key_stem, UInt64.lt_iff_toNat_lt] at hnot
    rw [hkey, isPrefixOf_key, ← UInt64.toNat_inj] at hstarts
    exact ⟨t, name, UInt64.lt_iff_toNat_lt.2 (by omega), hkey⟩

/-! ## Scans -/

/-- A scan entry by entry: it stops at the first key that does not start with the stem, and fails at the first text
before that is no row. -/
def scan (stem : Bytes) : List (Bytes × String) → Except AttachmentError (List AttachmentRow)
  | [] => .ok []
  | (key, text) :: rest =>
    if stem.isPrefixOf key then
      match ofText? text with
      | none => .error .serialization
      | some row => (scan stem rest).map (row :: ·)
    else .ok []

theorem scan_eq (stem : Bytes) (entries : List (Bytes × String)) :
    scan stem entries = readAll (entries.takeWhile fun e => stem.isPrefixOf e.1) := by
  induction entries with
  | nil => rfl
  | cons e rest ih =>
    obtain ⟨k, text⟩ := e
    by_cases hstarts : stem.isPrefixOf k = true
    · cases htext : ofText? text with
      | none => simp only [scan, hstarts, List.takeWhile_cons, if_true, readAll, htext]
      | some row => simp only [scan, hstarts, List.takeWhile_cons, if_true, readAll, htext, ih]
    · simp only [scan, hstarts, List.takeWhile_cons, Bool.false_eq_true, if_false, readAll]

theorem rowsAt_eq_scan (table : AttachmentTable) (s : UInt64) :
    rowsAt table s = scan (stem s) (table.entries.filter fun e => compare e.1 (stem s) != .lt) := by
  rw [scan_eq, ← dropWhile_below_eq_filter table.ascending]
  rfl

/-- **Keys order and separate revisions.** Keys are in the order of places, and of the bytes of names where the places
are the same, so a key determines both. In a table whose keys are of this kind, whatever stands there, the entries of a
revision stand together, after those of earlier revisions and before those of later ones. They are the entries that the
table has under the keys of the revision, each once, in ascending order of names. A scan that starts at the first key
that is not before the stem, and stops at the first one that does not start with it, reads exactly these. It gives their
rows in this order, and fails just if one of them is no row. -/
theorem keys_separate_revisions :
    (∀ (s t : UInt64) (name other : String), compare (key s name) (key t other) =
      (compare s t).then (compare (Text.bytes name) (Text.bytes other))) ∧
    (∀ s t name other, key s name = key t other ↔ s = t ∧ name = other) ∧
    ∀ table, Labelled table → ∀ s, ∃ (before after : List (Bytes × String)) (page : List (String × String)),
      table.entries = before ++ entriesAt table s ++ after ∧
      (∀ e ∈ before, ∃ t name, t < s ∧ e.1 = key t name) ∧
      (∀ e ∈ after, ∃ t name, s < t ∧ e.1 = key t name) ∧
      entriesAt table s = page.map (fun e => (key s e.1, e.2)) ∧
      (page.Pairwise fun a b => compare (Text.bytes a.1) (Text.bytes b.1) = .lt) ∧
      (∀ name text, (name, text) ∈ page ↔ table.get? (key s name) = some text) ∧
      rowsAt table s = scan (stem s) (table.entries.filter fun e => compare e.1 (stem s) != .lt) ∧
      (∀ rows, rowsAt table s = .ok rows ↔ page.map (fun e => ofText? e.2) = rows.map some) ∧
      ∀ e, rowsAt table s = .error e ↔ e = .serialization ∧ ∃ x ∈ page, ofText? x.2 = none := by
  refine ⟨compare_key, fun s t name other => ⟨key_injective, ?_⟩, fun table h s => ?_⟩
  · rintro ⟨rfl, rfl⟩
    rfl
  · obtain ⟨before, after, hsplit, hbefore, hafter⟩ := h.exists_around s
    obtain ⟨page, hpage, hascending, hmem⟩ := h.exists_page s
    refine ⟨before, after, page, hsplit, hbefore, hafter, hpage, hascending, hmem, rowsAt_eq_scan table s, ?_, ?_⟩
    · intro rows
      rw [rowsAt, readAll_eq_ok_iff, hpage, List.map_map]
      rfl
    · intro e
      rw [rowsAt, readAll_eq_error_iff, hpage]
      simp only [List.mem_map, exists_exists_and_eq_and]

theorem Labelled.insert (h : Labelled table) (s : UInt64) (name text : String) :
    Labelled (table.insert (key s name) text) := by
  intro e he
  rcases Table.mem_entries_insert.1 he with rfl | ⟨-, he⟩
  · exact ⟨s, name, rfl⟩
  · exact h e he

theorem labelled_ofList (entries : List (UInt64 × String × String)) :
    Labelled (.ofList (entries.map fun e => (key e.1 e.2.1, e.2.2))) := by
  rw [Table.ofList, List.foldl_map]
  exact List.foldlRecOn entries _ nofun fun _ h e _ => h.insert e.1 e.2.1 e.2.2

/-- A row at the last place, without a name. -/
def nameless : AttachmentRow where
  sequence := 18446744073709551615
  filename := ""
  content := .digest []
  mediaType := ""
  encoding := .plain
  length := 0
  encodedLength := 0
  revpos := 0

/-- Texts under the first place, the last one and others, with names that are empty or look like stems. -/
def crowded : AttachmentTable :=
  .ofList <| [(7, "b", "third"), (18446744073709551615, "", nameless.text),
    (0, "\x00\x00\x00\x00\x00\x00\x00\x07", "zero"), (7, "\x00\x00\x00\x00\x00\x00\x00\x08", "second"),
    (8, "", "eight"), (7, "", "first")].map fun e => (key e.1 e.2.1, e.2.2)

/-- The three texts of one place stand in the order of their names, but they are no rows. The row of the last place is
found. -/
theorem keys_separate_revisions_crowded : Labelled crowded ∧
    (∃ before after, crowded.entries = before ++ [(key 7 "", "first"),
        (key 7 "\x00\x00\x00\x00\x00\x00\x00\x08", "second"), (key 7 "b", "third")] ++ after ∧
      (∀ e ∈ before, ∃ t name, t < 7 ∧ e.1 = key t name) ∧ (∀ e ∈ after, ∃ t name, 7 < t ∧ e.1 = key t name)) ∧
    rowsAt crowded 7 = .error .serialization ∧ rowsAt crowded 18446744073709551615 = .ok [nameless] := by
  have hlabelled : Labelled crowded := labelled_ofList _
  obtain ⟨before, after, page, hsplit, hbefore, hafter, -, -, hmem, -, -, herror⟩ :=
    keys_separate_revisions.2.2 crowded hlabelled 7
  obtain ⟨-, -, last, -, -, -, hlast, -, -, -, hok, -⟩ :=
    keys_separate_revisions.2.2 crowded hlabelled 18446744073709551615
  refine ⟨hlabelled, ⟨before, after, hsplit, hbefore, hafter⟩, ?_, ?_⟩
  · exact (herror _).2 ⟨rfl, ("", "first"), (hmem _ _).2 rfl, by decide⟩
  · have hentries : entriesAt crowded 18446744073709551615 = [(key nameless.sequence "", nameless.text)] := rfl
    rw [hentries, eq_comm, List.map_eq_singleton_iff] at hlast
    obtain ⟨e, rfl, he⟩ := hlast
    refine (hok _).2 ?_
    rw [List.map_singleton, (Prod.mk.inj he).2, ofText?_text]
    rfl

end AttachmentRow

end Docket
