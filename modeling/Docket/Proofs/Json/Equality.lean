import Docket.Proofs.Json.Nesting
import Docket.Proofs.Table
import Mathlib.Data.List.Perm.Subperm

/-!
# Values that are equal

Equality of values looks entries up by their keys, so the order of keys does not count at any depth, and the two zeros
are equal. Printed text shows both. Equal values that are aligned, with keys in one order and zeros of one sign, are the
same value, and values with one text are the same value as well.

* `Json.same`: equality of values.
* `Json.Aligned`: the same order of keys and the same signs of zeros at every depth.
* **`Json.eq_iff_aligned`**: equal values are the same just if they are aligned.
* `Json.same_of_perm`: entries in another order make an equal object.
* `Json.Canonical`: keys in ascending order at every depth, and no zero with a sign.
* `Json.aligned_of_canonical`: equal values in canonical form are aligned.
* `Json.text_inj`: values are determined by their texts.
-/

namespace Docket

/-- Doubles that are equal as numbers are the same if they have one sign. -/
theorem Binary64.eq_of_numEq {x y : Binary64} (h : x.numEq y = true) (hsign : x.negative = y.negative) : x = y := by
  simp only [numEq, Bool.and_eq_true, Bool.or_eq_true, decide_eq_true_eq] at h
  rcases h.2 with heq | ⟨hx, hy⟩
  · exact heq
  · obtain ⟨negative, exponent, fraction⟩ := x
    obtain ⟨negative', exponent', fraction'⟩ := y
    have hexponent : exponent = exponent' := Fin.ext (hx.1.trans hy.1.symm)
    have hfraction : fraction = fraction' := Fin.ext (hx.2.trans hy.2.symm)
    rw [hexponent, hfraction, show negative = negative' from hsign]

namespace Json

/-! ## Look-ups -/

section Lookup

variable {α : Type} {key : String} {value : α} {entries : List (String × α)}

theorem mem_of_lookup? (h : lookup? key entries = some value) : (key, value) ∈ entries := by
  induction entries with
  | nil => cases h
  | cons e rest ih =>
    obtain ⟨k, v⟩ := e
    rw [lookup?] at h
    split at h
    · next hk =>
      cases h
      subst hk
      exact List.mem_cons_self
    · exact List.mem_cons_of_mem _ (ih h)

theorem lookup?_of_mem (h : (keys entries).Nodup) (hmem : (key, value) ∈ entries) :
    lookup? key entries = some value := by
  induction entries with
  | nil => exact absurd hmem List.not_mem_nil
  | cons e rest ih =>
    obtain ⟨k, v⟩ := e
    obtain ⟨hnot, hnodup⟩ := List.nodup_cons.1 h
    rw [lookup?]
    rcases List.mem_cons.1 hmem with heq | hmem
    · cases heq
      exact if_pos rfl
    · have hne : k ≠ key := by
        rintro rfl
        exact hnot (List.mem_map.2 ⟨_, hmem, rfl⟩)
      rw [if_neg hne, ih hnodup hmem]

end Lookup

/-! ## Equality -/

/-- Equality of numbers: an integer is no double, and the two zeros are equal. -/
def Number.same : Number → Number → Bool
  | .integer m _, .integer n _ => m = n
  | .float x _, .float y _ => x.numEq y
  | _, _ => false

mutual

/-- Equality of values. The order of keys does not count. -/
def same : Json → Json → Bool
  | .null, .null => true
  | .bool a, .bool b => a = b
  | .num m, .num n => m.same n
  | .str s, .str t => s = t
  | .arr vs, .arr ws => sameItems vs ws
  | .obj es, .obj fs => es.length = fs.length && heldIn fs es
  | _, _ => false

/-- Equality of items, one by one. -/
def sameItems : List Json → List Json → Bool
  | [], [] => true
  | v :: vs, w :: ws => same v w && sameItems vs ws
  | _, _ => false

/-- There is an equal value under each of the keys. -/
def heldIn (all : List (String × Json)) : List (String × Json) → Bool
  | [] => true
  | (k, v) :: rest =>
    (match lookup? k all with
      | some w => same v w
      | none => false) && heldIn all rest

end

theorem same_num {n : Number} {b : Json} (h : same (.num n) b = true) : ∃ m, b = .num m ∧ n.same m = true := by
  cases b with
  | num m => exact ⟨m, rfl, h⟩
  | null | bool _ | str _ | arr _ | obj _ => cases h

theorem same_arr {vs : List Json} {b : Json} (h : same (.arr vs) b = true) :
    ∃ ws, b = .arr ws ∧ sameItems vs ws = true := by
  cases b with
  | arr ws => exact ⟨ws, rfl, h⟩
  | null | bool _ | num _ | str _ | obj _ => cases h

theorem same_obj {es : List (String × Json)} {b : Json} (h : same (.obj es) b = true) :
    ∃ fs, b = .obj fs ∧ es.length = fs.length ∧ heldIn fs es = true := by
  cases b with
  | obj fs =>
    rw [same, Bool.and_eq_true, decide_eq_true_iff] at h
    exact ⟨fs, rfl, h⟩
  | null | bool _ | num _ | str _ | arr _ => cases h

theorem heldIn_cons {all : List (String × Json)} {k : String} {v : Json} {rest : List (String × Json)} :
    heldIn all ((k, v) :: rest) = true ↔ (∃ w, lookup? k all = some w ∧ same v w = true) ∧ heldIn all rest = true := by
  rw [heldIn, Bool.and_eq_true]
  cases lookup? k all <;> simp

theorem keys_subset_of_heldIn {es fs : List (String × Json)} (h : heldIn fs es = true) : keys es ⊆ keys fs := by
  induction es with
  | nil => exact List.nil_subset _
  | cons e rest ih =>
    obtain ⟨k, v⟩ := e
    obtain ⟨⟨w, hw, -⟩, hrest⟩ := heldIn_cons.1 h
    exact List.cons_subset.2 ⟨List.mem_map.2 ⟨_, mem_of_lookup? hw, rfl⟩, ih hrest⟩

/-- An entry with the same key and an equal value. -/
def SameEntry (e f : String × Json) : Prop := e.1 = f.1 ∧ same e.2 f.2 = true

theorem forall₂_of_found {all es fs : List (String × Json)} (hfound : ∀ e ∈ fs, lookup? e.1 all = some e.2)
    (hheld : heldIn all es = true) (hkeys : keys es = keys fs) : List.Forall₂ SameEntry es fs := by
  induction es generalizing fs with
  | nil =>
    cases fs with
    | nil => exact .nil
    | cons f fs => cases hkeys
  | cons e es ih =>
    cases fs with
    | nil => cases hkeys
    | cons f fs =>
      obtain ⟨k, v⟩ := e
      obtain ⟨l, w⟩ := f
      obtain ⟨rfl, htail⟩ : k = l ∧ keys es = keys fs := List.cons.inj hkeys
      rw [List.forall_mem_cons] at hfound
      obtain ⟨⟨found, hlookup, hsame⟩, hrest⟩ := heldIn_cons.1 hheld
      rw [hfound.1, Option.some.injEq] at hlookup
      subst hlookup
      exact .cons ⟨rfl, hsame⟩ (ih hfound.2 hrest htail)

/-- Where keys stand in one order, equal values stand at the same places. -/
theorem forall₂_of_heldIn {es fs : List (String × Json)} (hnodup : (keys fs).Nodup) (hheld : heldIn fs es = true)
    (hkeys : keys es = keys fs) : List.Forall₂ SameEntry es fs :=
  forall₂_of_found (fun _ he => lookup?_of_mem hnodup he) hheld hkeys

/-! ## Every value is equal to itself -/

theorem Number.same_self (n : Number) : n.same n = true := by
  cases n with
  | integer n _ => exact decide_eq_true rfl
  | float x hfinite =>
    have hnan : ¬ x.IsNaN := by
      intro hnan
      have hlt : x.exponent.val < 2047 := hfinite
      have heq := hnan.1
      omega
    simp [Number.same, Binary64.numEq, hnan]

mutual

theorem same_self : (a : Json) → a.Distinct → same a a = true
  | .null, _ => rfl
  | .bool b, _ => decide_eq_true rfl
  | .num n, _ => n.same_self
  | .str s, _ => decide_eq_true rfl
  | .arr vs, h => sameItems_self vs h
  | .obj es, h => by
    rw [same, Bool.and_eq_true, decide_eq_true_iff]
    exact ⟨rfl, heldIn_of_mem es h.2 es fun e he => lookup?_of_mem h.1 he⟩

theorem sameItems_self : (vs : List Json) → DistinctItems vs → sameItems vs vs = true
  | [], _ => rfl
  | v :: vs, h => by
    rw [sameItems, Bool.and_eq_true]
    exact ⟨same_self v h.1, sameItems_self vs h.2⟩

theorem heldIn_of_mem : (es : List (String × Json)) → DistinctEntries es → (all : List (String × Json)) →
    (∀ e ∈ es, lookup? e.1 all = some e.2) → heldIn all es = true
  | [], _, _, _ => rfl
  | (k, v) :: rest, hd, all, h => by
    rw [List.forall_mem_cons] at h
    exact heldIn_cons.2 ⟨⟨v, h.1, same_self v hd.1⟩, heldIn_of_mem rest hd.2 all h.2⟩

end

/-- **Entries in another order make an equal object.** -/
theorem same_of_perm {es fs : List (String × Json)} (h : (obj es).Distinct) (hperm : es.Perm fs) :
    same (.obj es) (.obj fs) = true := by
  have hnodup : (keys fs).Nodup := (hperm.map _).nodup_iff.1 h.1
  rw [same, Bool.and_eq_true, decide_eq_true_iff]
  exact ⟨hperm.length_eq, heldIn_of_mem es h.2 fs fun e he => lookup?_of_mem hnodup (hperm.mem_iff.1 he)⟩

/-! ## Values that are aligned -/

/-- Doubles of one sign. -/
def Number.Aligned : Number → Number → Prop
  | .float x _, .float y _ => x.negative = y.negative
  | _, _ => True

mutual

/-- The keys stand in one order at every depth, and doubles have the same signs. -/
def Aligned : Json → Json → Prop
  | .num m, .num n => m.Aligned n
  | .arr vs, .arr ws => AlignedItems vs ws
  | .obj es, .obj fs => keys es = keys fs ∧ AlignedEntries es fs
  | _, _ => True

/-- Items are aligned one by one. -/
def AlignedItems : List Json → List Json → Prop
  | v :: vs, w :: ws => Aligned v w ∧ AlignedItems vs ws
  | _, _ => True

/-- Values of entries are aligned one by one. -/
def AlignedEntries : List (String × Json) → List (String × Json) → Prop
  | (_, v) :: es, (_, w) :: fs => Aligned v w ∧ AlignedEntries es fs
  | _, _ => True

end

theorem Number.aligned_self (n : Number) : n.Aligned n := by
  cases n with
  | integer _ _ => trivial
  | float _ _ => exact rfl

mutual

theorem aligned_self : (a : Json) → a.Aligned a
  | .null | .bool _ | .str _ => trivial
  | .num n => n.aligned_self
  | .arr vs => alignedItems_self vs
  | .obj es => ⟨rfl, alignedEntries_self es⟩

theorem alignedItems_self : (vs : List Json) → AlignedItems vs vs
  | [] => trivial
  | v :: vs => ⟨aligned_self v, alignedItems_self vs⟩

theorem alignedEntries_self : (es : List (String × Json)) → AlignedEntries es es
  | [] => trivial
  | (_, v) :: es => ⟨aligned_self v, alignedEntries_self es⟩

end

theorem Number.eq_of_same {m n : Number} (h : m.same n = true) (haligned : m.Aligned n) : m = n := by
  cases m with
  | integer m _ =>
    cases n with
    | integer n _ =>
      obtain rfl := of_decide_eq_true h
      rfl
    | float _ _ => cases h
  | float x _ =>
    cases n with
    | integer _ _ => cases h
    | float y _ =>
      obtain rfl := Binary64.eq_of_numEq h haligned
      rfl

mutual

theorem eq_of_same : (a b : Json) → b.Distinct → same a b = true → a.Aligned b → a = b
  | .null, b, _, h, _ => by
    cases b with
    | null => rfl
    | bool _ | num _ | str _ | arr _ | obj _ => cases h
  | .bool _, b, _, h, _ => by
    cases b with
    | bool _ => exact congrArg Json.bool (of_decide_eq_true h)
    | null | num _ | str _ | arr _ | obj _ => cases h
  | .str _, b, _, h, _ => by
    cases b with
    | str _ => exact congrArg Json.str (of_decide_eq_true h)
    | null | bool _ | num _ | arr _ | obj _ => cases h
  | .num n, b, _, h, haligned => by
    obtain ⟨m, rfl, hsame⟩ := same_num h
    exact congrArg Json.num (Number.eq_of_same hsame haligned)
  | .arr vs, b, hd, h, haligned => by
    obtain ⟨ws, rfl, hsame⟩ := same_arr h
    exact congrArg Json.arr (items_eq_of_same vs ws hd hsame haligned)
  | .obj es, b, hd, h, haligned => by
    obtain ⟨fs, rfl, -, hheld⟩ := same_obj h
    have hentries := forall₂_of_heldIn hd.1 hheld haligned.1
    exact congrArg Json.obj (entries_eq_of_same es fs hd.2 hentries haligned.2)

theorem items_eq_of_same : (vs ws : List Json) → DistinctItems ws → sameItems vs ws = true → AlignedItems vs ws →
    vs = ws
  | [], [], _, _, _ => rfl
  | [], _ :: _, _, h, _ => by cases h
  | _ :: _, [], _, h, _ => by cases h
  | v :: vs, w :: ws, hd, h, haligned => by
    rw [sameItems, Bool.and_eq_true] at h
    rw [eq_of_same v w hd.1 h.1 haligned.1, items_eq_of_same vs ws hd.2 h.2 haligned.2]

theorem entries_eq_of_same : (es fs : List (String × Json)) → DistinctEntries fs → List.Forall₂ SameEntry es fs →
    AlignedEntries es fs → es = fs
  | [], [], _, _, _ => rfl
  | (k, v) :: es, (_, w) :: fs, hd, .cons ⟨rfl, hsame⟩ hrest, haligned => by
    rw [eq_of_same v w hd.1 hsame haligned.1, entries_eq_of_same es fs hd.2 hrest haligned.2]

end

/-- **Equal values are the same just if they are aligned.** -/
theorem eq_iff_aligned {a b : Json} (hb : b.Distinct) (h : same a b = true) : a = b ↔ a.Aligned b := by
  constructor
  · rintro rfl
    exact aligned_self a
  · exact eq_of_same a b hb h

/-! ## Canonical form -/

/-- A double that is zero has no sign. -/
def Number.Canonical : Number → Prop
  | .float x _ => x.IsZero → x.negative = false
  | _ => True

mutual

/-- Keys stand in ascending order at every depth, and zeros have no sign. -/
def Canonical : Json → Prop
  | .num n => n.Canonical
  | .arr vs => CanonicalItems vs
  | .obj es => Ascending es ∧ CanonicalEntries es
  | _ => True

/-- Every item is `Canonical`. -/
def CanonicalItems : List Json → Prop
  | [] => True
  | v :: rest => Canonical v ∧ CanonicalItems rest

/-- Every value is `Canonical`. -/
def CanonicalEntries : List (String × Json) → Prop
  | [] => True
  | (_, v) :: rest => Canonical v ∧ CanonicalEntries rest

end

theorem keys_eq_of_ascending {es fs : List (String × Json)} (hes : Ascending es) (hfs : Ascending fs)
    (hperm : (keys es).Perm (keys fs)) : keys es = keys fs := by
  have hbefore : ∀ {xs : List (String × Json)}, Ascending xs →
      (keys xs).Pairwise fun k l => compare k l = .lt := fun h => List.pairwise_map.2 h
  refine hperm.eq_of_pairwise (fun k l _ _ hkl hlk => ?_) (hbefore hes) (hbefore hfs)
  exact absurd (Std.TransCmp.lt_trans hkl hlk) (Table.not_lt_self k)

mutual

theorem distinct_of_canonical : (a : Json) → a.Canonical → a.Distinct
  | .null, _ | .bool _, _ | .str _, _ | .num _, _ => trivial
  | .arr vs, h => distinctItems_of_canonical vs h
  | .obj es, h => ⟨Table.nodup_keys ⟨es, h.1⟩, distinctEntries_of_canonical es h.2⟩

theorem distinctItems_of_canonical : (vs : List Json) → CanonicalItems vs → DistinctItems vs
  | [], _ => trivial
  | v :: vs, h => ⟨distinct_of_canonical v h.1, distinctItems_of_canonical vs h.2⟩

theorem distinctEntries_of_canonical : (es : List (String × Json)) → CanonicalEntries es → DistinctEntries es
  | [], _ => trivial
  | (_, v) :: es, h => ⟨distinct_of_canonical v h.1, distinctEntries_of_canonical es h.2⟩

end

theorem Number.aligned_of_canonical {m n : Number} (hm : m.Canonical) (hn : n.Canonical) (h : m.same n = true) :
    m.Aligned n := by
  cases m with
  | integer _ _ => trivial
  | float x _ =>
    cases n with
    | integer _ _ => trivial
    | float y _ =>
      simp only [Number.same, Binary64.numEq, Bool.and_eq_true, Bool.or_eq_true, decide_eq_true_eq] at h
      rcases h.2 with rfl | ⟨hx, hy⟩
      · exact rfl
      · exact (hm hx).trans (hn hy).symm

mutual

/-- **Equal values in canonical form are aligned.** -/
theorem aligned_of_canonical : (a b : Json) → a.Canonical → b.Canonical → same a b = true → a.Aligned b
  | .null, _, _, _, _ | .bool _, _, _, _, _ | .str _, _, _, _, _ => trivial
  | .num n, b, ha, hb, h => by
    obtain ⟨m, rfl, hsame⟩ := same_num h
    exact Number.aligned_of_canonical ha hb hsame
  | .arr vs, b, ha, hb, h => by
    obtain ⟨ws, rfl, hsame⟩ := same_arr h
    exact alignedItems_of_canonical vs ws ha hb hsame
  | .obj es, b, ha, hb, h => by
    obtain ⟨fs, rfl, hlength, hheld⟩ := same_obj h
    have hnodup : (keys es).Nodup := Table.nodup_keys ⟨es, ha.1⟩
    have hperm : (keys es).Perm (keys fs) := by
      refine (List.subperm_of_subset hnodup (keys_subset_of_heldIn hheld)).perm_of_length_le ?_
      rw [keys, keys, List.length_map, List.length_map, hlength]
    have hkeys := keys_eq_of_ascending ha.1 hb.1 hperm
    have hentries := forall₂_of_heldIn (Table.nodup_keys ⟨fs, hb.1⟩) hheld hkeys
    exact ⟨hkeys, alignedEntries_of_canonical es fs ha.2 hb.2 hentries⟩

theorem alignedItems_of_canonical : (vs ws : List Json) → CanonicalItems vs → CanonicalItems ws →
    sameItems vs ws = true → AlignedItems vs ws
  | [], _, _, _, _ => trivial
  | _ :: _, [], _, _, _ => trivial
  | v :: vs, w :: ws, hv, hw, h => by
    rw [sameItems, Bool.and_eq_true] at h
    exact ⟨aligned_of_canonical v w hv.1 hw.1 h.1, alignedItems_of_canonical vs ws hv.2 hw.2 h.2⟩

theorem alignedEntries_of_canonical : (es fs : List (String × Json)) → CanonicalEntries es → CanonicalEntries fs →
    List.Forall₂ SameEntry es fs → AlignedEntries es fs
  | [], _, _, _, _ => trivial
  | (_, v) :: es, (_, w) :: fs, he, hf, .cons ⟨_, hsame⟩ hrest =>
    ⟨aligned_of_canonical v w he.1 hf.1 hsame, alignedEntries_of_canonical es fs he.2 hf.2 hrest⟩

end

/-! ## Texts -/

/-- **Values are determined by their texts.** -/
theorem text_inj {a b : Json} (ha : a.Distinct) (hb : b.Distinct) : a.text = b.text ↔ a = b := by
  refine ⟨fun h => ?_, congrArg text⟩
  have hrender : a.render = b.render := String.ofList_injective h
  have hliteral : a.literal = b.literal := by
    have hread := parse?_render_all a
    rw [hrender, parse?_render_all, Option.some.injEq] at hread
    exact hread.symm
  -- both are read back under a bound that neither goes beyond
  have hread := json?_literal (max a.depth b.depth) a ha
  rw [hliteral, json?_literal _ b hb, if_pos (Nat.le_max_right _ _), if_pos (Nat.le_max_left _ _),
    Option.some.injEq] at hread
  exact hread.symm

end Json

end Docket
