import Docket.Proofs.Attachment.Codec
import Docket.Proofs.Bytes
import Docket.Proofs.Table
import Mathlib.Data.Set.List
import Mathlib.Logic.Function.Basic

/-!
# The rows of a revision

Rows are looked up and scanned by keys that start with the place of their revision. What a revision has under
each name is its sheet; every change of the table is a change of sheets, and a scan lists a sheet in the order of
names.

* `AttachmentRow.key_injective`: a key determines place and name.
* `AttachmentRow.entriesAt_eq`: a scan finds all keys that start alike.
* `AttachmentRow.Labelled`: every key is that of a place and a name.
* `Labelled.exists_page`: the entries of a revision by name.
* `AttachmentRow.Keyed`: every row stands under its own key.
* `AttachmentRow.sheet`: what a revision has under each name.
* **`AttachmentRow.rowsAt_spec`**: a scan lists the sheet of a revision in the order of names.
* `AttachmentRow.Gives`: a change of one sheet.
* **`AttachmentRow.carry_spec`**: carrying gives the sheet of one revision to another one.
-/

namespace Docket

/-! ## Keys that start alike -/

theorem compare_append {xs ys : Bytes} (h : xs.length = ys.length) (x y : Bytes) :
    compare (xs ++ x) (ys ++ y) = (compare xs ys).then (compare x y) := by
  induction xs generalizing ys with
  | nil =>
    obtain rfl := List.length_eq_zero_iff.1 h.symm
    rfl
  | cons b xs ih =>
    cases ys with
    | nil => cases h
    | cons c ys =>
      rw [List.cons_append, List.cons_append, List.compare_cons_cons, List.compare_cons_cons, ih (Nat.succ.inj h),
        Ordering.then_assoc]

theorem compare_append_append (s x y : Bytes) : compare (s ++ x) (s ++ y) = compare x y := by
  have hself : compare s s = .eq := Std.ReflCmp.compare_self
  rw [compare_append rfl, hself]
  rfl

theorem compare_nil_ne_lt (x : Bytes) : compare x [] ≠ .lt := by
  intro hlt
  cases x <;> cases hlt

theorem compare_append_ne_lt (s x : Bytes) : compare (s ++ x) s ≠ .lt := by
  have hself := compare_append_append s x []
  rw [List.append_nil] at hself
  rw [hself]
  exact compare_nil_ne_lt x

/-- What lies between a prefix and a list that starts with it starts with it too. -/
theorem prefix_of_compare {s k : Bytes} (hlow : compare k s ≠ .lt) {x : Bytes}
    (hhigh : compare k (s ++ x) ≠ .gt) : s <+: k := by
  induction s generalizing k with
  | nil => exact List.nil_prefix
  | cons b s ih =>
    cases k with
    | nil => exact absurd rfl hlow
    | cons c k =>
      rw [List.compare_cons_cons] at hlow
      rw [List.cons_append, List.compare_cons_cons] at hhigh
      cases hc : compare c b with
      | lt => exact absurd (by rw [hc]; rfl) hlow
      | gt => exact absurd (by rw [hc]; rfl) hhigh
      | eq =>
        rw [hc] at hlow hhigh
        rw [Std.LawfulEqCmp.eq_of_compare hc]
        exact List.cons_prefix_cons.2 ⟨rfl, ih hlow hhigh⟩

section Scans

variable {s : Bytes} {entries : List (Bytes × String)}

theorem dropWhile_below_eq_filter (h : Ascending entries) (s : Bytes) :
    entries.dropWhile (fun e => compare e.1 s == .lt) = entries.filter fun e => compare e.1 s != .lt := by
  refine Table.dropWhile_eq_filter (h.imp fun {d e} hde hlt => ?_)
  rw [beq_iff_eq] at hlt ⊢
  exact Std.TransCmp.lt_trans hde hlt

theorem pairwise_isPrefixOf (h : Ascending entries) (hlow : ∀ e ∈ entries, compare e.1 s ≠ .lt) :
    entries.Pairwise fun d e => s.isPrefixOf e.1 = true → s.isPrefixOf d.1 = true := by
  refine h.imp_of_mem fun {d e} hd _ hde hstarts => ?_
  obtain ⟨x, hx⟩ := List.isPrefixOf_iff_prefix.1 hstarts
  rw [List.isPrefixOf_iff_prefix]
  refine prefix_of_compare (x := x) (hlow d hd) ?_
  rw [hx, hde]
  decide

theorem takeWhile_prefix_eq_filter (h : Ascending entries) (s : Bytes) :
    (entries.filter fun e => compare e.1 s != .lt).takeWhile (fun e => s.isPrefixOf e.1) =
      entries.filter fun e => s.isPrefixOf e.1 := by
  rw [Table.takeWhile_eq_filter (pairwise_isPrefixOf (h.filter _) fun e he => by simpa using (List.mem_filter.1 he).2),
    List.filter_filter]
  refine List.filter_congr fun e _ => ?_
  by_cases hstarts : s.isPrefixOf e.1 = true
  · obtain ⟨x, hx⟩ := List.isPrefixOf_iff_prefix.1 hstarts
    simp [← hx, compare_append_ne_lt s x]
  · simp [hstarts]

/-- A scan from a bound, as long as keys start with it, finds all keys that do. -/
theorem scan_eq_filter (h : Ascending entries) (s : Bytes) :
    (entries.dropWhile fun e => compare e.1 s == .lt).takeWhile (fun e => s.isPrefixOf e.1) =
      entries.filter fun e => s.isPrefixOf e.1 := by
  rw [dropWhile_below_eq_filter h, takeWhile_prefix_eq_filter h]

end Scans

namespace AttachmentRow

theorem stem_append_inj {s t : UInt64} {x y : Bytes} (h : stem s ++ x = stem t ++ y) : s = t ∧ x = y := by
  have hlength : (stem s).length = (stem t).length := by
    rw [stem, stem, Bytes.length_bigEndian, Bytes.length_bigEndian]
  obtain ⟨hstem, hrest⟩ := List.append_inj h hlength
  exact ⟨Bytes.bigEndian_injective hstem, hrest⟩

theorem key_injective {s t : UInt64} {name other : String} (h : key s name = key t other) :
    s = t ∧ name = other := by
  obtain ⟨hsequence, hname⟩ := stem_append_inj h
  exact ⟨hsequence, Text.bytes_injective hname⟩

theorem isPrefixOf_key {s t : UInt64} {name : String} : (stem s).isPrefixOf (key t name) = true ↔ t = s := by
  rw [List.isPrefixOf_iff_prefix]
  constructor
  · rintro ⟨x, hx⟩
    exact (stem_append_inj hx).1.symm
  · rintro rfl
    exact List.prefix_append _ _

theorem entriesAt_eq (table : AttachmentTable) (sequence : UInt64) :
    entriesAt table sequence = table.entries.filter fun e => (stem sequence).isPrefixOf e.1 :=
  scan_eq_filter table.ascending _

/-! ## Tables of keys -/

/-- Every key is that of a place and a name. What stands there need not be a row. -/
def Labelled (table : AttachmentTable) : Prop := ∀ e ∈ table.entries, ∃ s name, e.1 = key s name

/-- The entries of a revision, each once, in the order of their names. -/
theorem Labelled.exists_page {table : AttachmentTable} (h : Labelled table) (s : UInt64) :
    ∃ page : List (String × String),
      entriesAt table s = page.map (fun e => (key s e.1, e.2)) ∧
        (page.Pairwise fun a b => compare (Text.bytes a.1) (Text.bytes b.1) = .lt) ∧
        ∀ name text, (name, text) ∈ page ↔ table.get? (key s name) = some text := by
  have hrange : ∀ e ∈ entriesAt table s, e ∈ Set.range fun e : String × String => (key s e.1, e.2) := fun e he => by
    rw [entriesAt_eq, List.mem_filter] at he
    obtain ⟨t, name, hkey⟩ := h e he.1
    obtain rfl : t = s := isPrefixOf_key.1 (hkey ▸ he.2)
    exact ⟨(name, e.2), Prod.ext hkey.symm rfl⟩
  obtain ⟨page, hpage⟩ := (Set.ext_iff.1 (Set.range_list_map _) _).2 hrange
  refine ⟨page, hpage.symm, ?_, ?_⟩
  · have hascending : Ascending (entriesAt table s) := entriesAt_eq table s ▸ table.ascending.filter _
    rw [← hpage, Ascending, List.pairwise_map] at hascending
    refine hascending.imp fun {a b} hab => ?_
    rwa [key, key, compare_append_append] at hab
  · intro name text
    have hmem : (key s name, text) ∈ entriesAt table s ↔ (name, text) ∈ page := by
      rw [← hpage, List.mem_map]
      constructor
      · rintro ⟨e, he, heq⟩
        obtain ⟨hkey, rfl⟩ := Prod.mk.inj heq
        rwa [← (key_injective hkey).2]
      · exact fun he => ⟨_, he, rfl⟩
    rw [← hmem, entriesAt_eq, List.mem_filter, Table.get?_eq_some_iff, and_iff_left (isPrefixOf_key.2 rfl)]

/-! ## Sheets -/

/-- A row at another place. -/
def moved (row : AttachmentRow) (sequence : UInt64) : AttachmentRow := { row with sequence }

@[simp] theorem sequence_moved (row : AttachmentRow) (s : UInt64) : (row.moved s).sequence = s := rfl

@[simp] theorem filename_moved (row : AttachmentRow) (s : UInt64) : (row.moved s).filename = row.filename := rfl

@[simp] theorem moved_moved (row : AttachmentRow) (s t : UInt64) : (row.moved s).moved t = row.moved t := rfl

@[simp] theorem moved_sequence (row : AttachmentRow) : row.moved row.sequence = row := rfl

/-- Every row stands under its own key. -/
def Keyed (table : AttachmentTable) : Prop :=
  ∀ e ∈ table.entries, ∃ row : AttachmentRow, e = (key row.sequence row.filename, row.text)

theorem Keyed.labelled {table : AttachmentTable} (h : Keyed table) : Labelled table := fun e he => by
  obtain ⟨row, rfl⟩ := h e he
  exact ⟨row.sequence, row.filename, rfl⟩

/-- What there is under each name; the rows are without a place. -/
abbrev Sheet := String → Option AttachmentRow

/-- The sheet with nothing under any name. -/
def Sheet.blank : Sheet := fun _ => none

/-- What a revision has under each name. -/
def sheet (table : AttachmentTable) (sequence : UInt64) : Sheet :=
  fun name => ((table.get? (key sequence name)).bind ofText?).map (·.moved 0)

variable {table : AttachmentTable} {sequence : UInt64}

theorem Keyed.get?_eq_some (h : Keyed table) {name text : String}
    (hget : table.get? (key sequence name) = some text) :
    ∃ row : AttachmentRow, row.sequence = sequence ∧ row.filename = name ∧ text = row.text := by
  obtain ⟨row, hrow⟩ := h _ (Table.get?_eq_some_iff.1 hget)
  obtain ⟨hkey, htext⟩ := Prod.mk.inj hrow
  obtain ⟨hsequence, hname⟩ := key_injective hkey
  exact ⟨row, hsequence.symm, hname.symm, htext⟩

theorem Keyed.sheet_eq_some_iff (h : Keyed table) {name : String} {row : AttachmentRow} :
    sheet table sequence name = some row ↔
      row.sequence = 0 ∧ row.filename = name ∧
        table.get? (key sequence name) = some (row.moved sequence).text := by
  unfold sheet
  constructor
  · intro hsheet
    obtain ⟨other, hother, rfl⟩ := Option.map_eq_some_iff.1 hsheet
    obtain ⟨text, hget, hread⟩ := Option.bind_eq_some_iff.1 hother
    obtain ⟨stored, rfl, rfl, rfl⟩ := h.get?_eq_some hget
    rw [ofText?_text, Option.some.injEq] at hread
    subst hread
    exact ⟨rfl, rfl, hget⟩
  · rintro ⟨hzero, rfl, hget⟩
    rw [hget, Option.bind_some, ofText?_text, Option.map_some, moved_moved, ← hzero, moved_sequence]

theorem Keyed.sheet_eq_none_iff (h : Keyed table) {name : String} :
    sheet table sequence name = none ↔ table.get? (key sequence name) = none := by
  unfold sheet
  cases hget : table.get? (key sequence name) with
  | none => simp
  | some text =>
    obtain ⟨row, -, -, rfl⟩ := h.get?_eq_some hget
    simp [ofText?_text]

/-! ## Listings -/

/-- These rows are what there is under each name, in the order of names. -/
structure Sheet.Lists (sheet : Sheet) (rows : List AttachmentRow) : Prop where
  ascending : rows.Pairwise fun a b => compare (Text.bytes a.filename) (Text.bytes b.filename) = .lt
  mem_iff : ∀ row, row ∈ rows ↔ sheet row.filename = some row

/-- A sheet is listed in one way. -/
theorem Sheet.Lists.unique {sheet : Sheet} {rows others : List AttachmentRow} (h : sheet.Lists rows)
    (h' : sheet.Lists others) : rows = others := by
  have hbyName : ∀ {xs : List AttachmentRow}, sheet.Lists xs →
      Ascending (xs.map fun row => (Text.bytes row.filename, row)) := fun hxs => List.pairwise_map.2 hxs.ascending
  have heq := Table.eq_of_mem_iff (hbyName h) (hbyName h') fun e => by
    simp only [List.mem_map, h.mem_iff, h'.mem_iff]
  have hrows := congrArg (List.map Prod.snd) heq
  simpa [List.map_map, Function.comp_def] using hrows

theorem readAll_map (rows : List AttachmentRow) :
    readAll (rows.map fun row => (key row.sequence row.filename, row.text)) = .ok rows := by
  rw [readAll_eq_ok_iff, List.map_map]
  exact List.map_congr_left fun row _ => ofText?_text row

/-- **A scan lists the sheet of a revision in the order of names.** -/
theorem rowsAt_spec (h : Keyed table) (sequence : UInt64) :
    ∃ rows : List AttachmentRow, rowsAt table sequence = .ok (rows.map (·.moved sequence)) ∧
      (sheet table sequence).Lists rows := by
  obtain ⟨page, hpage, hascending, hmem⟩ := h.labelled.exists_page sequence
  -- what stands under a name is the text of some row, which may as well have no place
  have hrange : ∀ e ∈ page,
      e ∈ Set.range fun row : AttachmentRow => (row.filename, (row.moved sequence).text) := fun e he => by
    obtain ⟨row, rfl, hname, htext⟩ := h.get?_eq_some ((hmem e.1 e.2).1 he)
    exact ⟨row, Prod.ext hname htext.symm⟩
  obtain ⟨found, rfl⟩ := (Set.ext_iff.1 (Set.range_list_map _) _).2 hrange
  refine ⟨found.map (·.moved 0), ?_, ?_, fun row => ?_⟩
  · have hlisted := readAll_map ((found.map (·.moved 0)).map (·.moved sequence))
    rw [List.map_map, List.map_map] at hlisted
    rw [rowsAt, hpage, List.map_map]
    exact hlisted.trans (by rw [List.map_map])
  · rw [List.pairwise_map] at hascending ⊢
    exact hascending
  · rw [h.sheet_eq_some_iff, ← hmem, List.mem_map, List.mem_map]
    constructor
    · rintro ⟨stored, hstored, rfl⟩
      exact ⟨rfl, rfl, stored, hstored, rfl⟩
    · rintro ⟨hzero, -, stored, hstored, heq⟩
      have hrow := congrArg (·.moved 0) (text_injective (Prod.mk.inj heq).2)
      rw [moved_moved, moved_moved, ← hzero, moved_sequence] at hrow
      exact ⟨stored, hstored, hzero ▸ hrow⟩

/-! ## Changes -/

/-- A table comes from another one by giving a place this sheet. -/
structure Gives (before after : AttachmentTable) (sequence : UInt64) (given : Sheet) : Prop where
  keyed : Keyed after
  self : sheet after sequence = given
  others : ∀ other, other ≠ sequence → sheet after other = sheet before other

theorem Gives.refl (h : Keyed table) (sequence : UInt64) : Gives table table sequence (sheet table sequence) :=
  ⟨h, rfl, fun _ _ => rfl⟩

theorem Gives.trans {before middle after : AttachmentTable} {given last : Sheet}
    (h : Gives before middle sequence given) (h' : Gives middle after sequence last) :
    Gives before after sequence last :=
  ⟨h'.keyed, h'.self, fun other hother => (h'.others other hother).trans (h.others other hother)⟩

theorem gives_put (h : Keyed table) (row : AttachmentRow) : Gives table (put table row) row.sequence
    (Function.update (sheet table row.sequence) row.filename (some (row.moved 0))) where
  keyed e he := by
    rcases Table.mem_entries_insert.1 he with rfl | ⟨-, he⟩
    · exact ⟨row, rfl⟩
    · exact h e he
  self := by
    funext name
    unfold sheet put
    by_cases hname : name = row.filename
    · subst hname
      rw [Table.get?_insert_self, Option.bind_some, ofText?_text, Function.update_self]
      rfl
    · rw [Table.get?_insert_of_ne _ _ fun he => hname (key_injective he).2, Function.update_of_ne hname]
  others other hother := by
    funext name
    unfold sheet put
    rw [Table.get?_insert_of_ne _ _ fun he => hother (key_injective he).1]

theorem gives_erase (h : Keyed table) (sequence : UInt64) (name : String) :
    Gives table (table.erase (key sequence name)) sequence
      (Function.update (sheet table sequence) name none) where
  keyed e he := h e (Table.mem_entries_erase.1 he).2
  self := by
    funext other
    unfold sheet
    by_cases hname : other = name
    · rw [hname, Table.get?_erase_self, Function.update_self]
      rfl
    · rw [Table.get?_erase_of_ne _ fun he => hname (key_injective he).2, Function.update_of_ne hname]
  others other hother := by
    funext name
    unfold sheet
    rw [Table.get?_erase_of_ne _ fun he => hother (key_injective he).1]

/-- A sheet without some names. -/
def Sheet.without (sheet : Sheet) (names : List String) : Sheet :=
  fun name => if name ∈ names then none else sheet name

theorem Sheet.without_blank (names : List String) : Sheet.without Sheet.blank names = Sheet.blank :=
  funext fun _ => ite_self none

theorem gives_drop (h : Keyed table) (sequence : UInt64) (names : List String) :
    Gives table (drop table sequence names).1 sequence ((sheet table sequence).without names) := by
  induction names generalizing table with
  | nil => exact .refl h sequence
  | cons name rest ih =>
    have herase := gives_erase h sequence name
    have hrest := herase.trans (ih herase.keyed)
    have hwithout : (sheet (table.erase (key sequence name)) sequence).without rest =
        (sheet table sequence).without (name :: rest) := by
      rw [herase.self]
      funext other
      unfold Sheet.without
      by_cases hname : other = name
      · simp [hname]
      · simp [hname, Function.update_of_ne]
    rw [hwithout] at hrest
    exact hrest

theorem drop_eq_zero_iff (h : Keyed table) (sequence : UInt64) (names : List String) :
    (drop table sequence names).2 = 0 ↔ ∀ name ∈ names, sheet table sequence name = none := by
  induction names generalizing table with
  | nil => simp [drop]
  | cons name rest ih =>
    have herase := gives_erase h sequence name
    have hpresent : (table.get? (key sequence name)).isSome = true ↔ sheet table sequence name ≠ none := by
      rw [Ne, h.sheet_eq_none_iff, Option.isSome_iff_ne_none]
    have hdrop : (drop table sequence (name :: rest)).2 = if (table.get? (key sequence name)).isSome
        then (drop (table.erase (key sequence name)) sequence rest).2 + 1
        else (drop (table.erase (key sequence name)) sequence rest).2 := rfl
    rw [hdrop, List.forall_mem_cons]
    by_cases hname : sheet table sequence name = none
    · have hcount := ih herase.keyed
      rw [herase.self, Function.update_eq_self_iff.2 hname.symm] at hcount
      rw [if_neg fun hsome => hpresent.1 hsome hname, hcount]
      exact (and_iff_right hname).symm
    · rw [if_pos (hpresent.2 hname)]
      simp [hname]

/-- What there is under each name after rows were put at a place. -/
theorem gives_foldl_put (rows : List AttachmentRow) (target : UInt64) (h : Keyed table) :
    ∃ given, Gives table (rows.foldl (fun table row => put table (row.moved target)) table) target given ∧
      ∀ name, (∃ row ∈ rows, row.filename = name ∧ given name = some (row.moved 0)) ∨
        ((∀ row ∈ rows, row.filename ≠ name) ∧ given name = sheet table target name) := by
  induction rows generalizing table with
  | nil =>
    exact ⟨_, .refl h target, fun _ => .inr ⟨fun _ hrow => absurd hrow List.not_mem_nil, rfl⟩⟩
  | cons row rest ih =>
    have hput := gives_put h (row.moved target)
    obtain ⟨given, hgiven, hnames⟩ := ih hput.keyed
    refine ⟨given, hput.trans hgiven, fun name => ?_⟩
    rcases hnames name with ⟨other, hother, hname⟩ | ⟨hnone, hsheet⟩
    · exact .inl ⟨other, List.mem_cons_of_mem _ hother, hname⟩
    · have hself := congrFun hput.self name
      rw [sequence_moved, filename_moved, moved_moved] at hself
      rw [hself] at hsheet
      by_cases hname : row.filename = name
      · rw [← hname, Function.update_self] at hsheet
        exact .inl ⟨row, List.mem_cons_self, hname, hname ▸ hsheet⟩
      · rw [Function.update_of_ne fun he => hname he.symm] at hsheet
        exact .inr ⟨List.forall_mem_cons.2 ⟨hname, hnone⟩, hsheet⟩

/-- **Carrying gives the sheet of one revision to another one**, if that has nothing yet. In any case it changes the
sheet of this one alone. -/
theorem carry_spec (h : Keyed table) (source target : UInt64) :
    ∃ carried given, carry table source target = .ok carried ∧ Gives table carried target given ∧
      (sheet table target = Sheet.blank → given = sheet table source) := by
  obtain ⟨rows, hrows, hlists⟩ := rowsAt_spec h source
  obtain ⟨given, hgiven, hnames⟩ := gives_foldl_put (rows.map (·.moved source)) target h
  refine ⟨_, given, by rw [carry, hrows]; rfl, hgiven, fun hblank => ?_⟩
  funext name
  rcases hnames name with ⟨row, hrow, hname, hgiven⟩ | ⟨hnone, hgiven⟩
  · obtain ⟨stored, hstored, rfl⟩ := List.mem_map.1 hrow
    have hname : stored.filename = name := hname
    have hat := (hlists.mem_iff stored).1 hstored
    have hzero : stored.sequence = 0 := (h.sheet_eq_some_iff.1 hat).1
    rw [hname] at hat
    rw [hgiven, hat, moved_moved, ← hzero, moved_sequence]
  · rw [hgiven, hblank]
    cases hat : sheet table source name with
    | none => rfl
    | some row =>
      have hname : row.filename = name := (h.sheet_eq_some_iff.1 hat).2.1
      have hmem : row ∈ rows := (hlists.mem_iff row).2 (hname ▸ hat)
      exact absurd hname (hnone (row.moved source) (List.mem_map_of_mem hmem))

end AttachmentRow

end Docket
