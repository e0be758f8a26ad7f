import Docket.Proofs.Revision.Codec

/-!
# What a digest covers

The digest of a derived identifier covers the identifier before it and the body, written without a mark between them.
Still the text can be taken apart again. The digest of the identifier before has a fixed length, and without one the
text is that of a body: no printed JSON begins with digits and a dash. So identifiers stand for whole histories, short
of a collision of the digest (**`RevisionId.material_determines`**).

* `Json.render_ne_digits_dash`: how no printed text begins.
* `RevisionId.IsDerived`: the identifiers that are derived.
* `RevisionId.eq_of_material_eq`: the parts are determined by what the digest covers.
* `RevisionId.chained`, `RevisionId.materials`: an identifier at the end of a history, and all that was hashed for it.
* `RevisionId.history_or_collision`: histories with one identifier are the same, or they show a collision.
-/

namespace Docket

/-! ## How printed text begins -/

namespace Json

variable {ds rest : List Char}

theorem ne_digits_append {c : Char} {cs : List Char} (hc : c.isDigit = false) (hne : ds ≠ []) (hds : AreDigits ds) :
    c :: cs ≠ ds ++ rest := by
  obtain ⟨d, ds, rfl⟩ := List.exists_cons_of_ne_nil hne
  intro h
  have hd : d.isDigit = true := hds d List.mem_cons_self
  rw [List.cons_append, List.cons.injEq] at h
  rw [← h.1, hc] at hd
  cases hd

theorem IsUnsigned.ne_digits_dash {whole fraction exponent : List Char} (h : IsUnsigned whole fraction exponent)
    (hds : AreDigits ds) : whole ++ (fraction ++ exponent) ≠ ds ++ '-' :: rest := by
  intro he
  have hhead : ∀ c ∈ (fraction ++ exponent).head?, c.isDigit = false ∧ c ≠ '-' := by
    intro c hc
    rcases h.head_rest c hc with rfl | rfl <;> decide
  have hwhole := digits_append h.whole.2.1 (fraction ++ exponent) fun c hc => (hhead c hc).1
  have hsame := digits_append hds ('-' :: rest) (by simp)
  rw [← he, hwhole, Prod.mk.injEq] at hsame
  exact (hhead '-' (by rw [hsame.2]; rfl)).2 rfl

theorem Number.render_ne_digits_dash (n : Number) (hne : ds ≠ []) (hds : AreDigits ds) :
    n.render ≠ ds ++ '-' :: rest := by
  cases n with
  | integer n _ =>
    by_cases hn : n < 0
    · have hrender : integerText n = '-' :: Nat.toDigits 10 n.natAbs := by simp [integerText, hn]
      rw [Number.render, hrender]
      exact ne_digits_append (by decide) hne hds
    · have hrender : integerText n = Nat.toDigits 10 n.natAbs := by simp [integerText, hn]
      rw [Number.render, hrender]
      intro h
      apply RevisionId.dash_not_mem_toDigits n.natAbs
      rw [h]
      simp
  | float x h =>
    obtain ⟨whole, fraction, exponent, htext, hunsigned, -⟩ := spells_magnitude x
    rw [render_float, htext]
    by_cases hx : x.negative
    · rw [if_pos hx]
      exact ne_digits_append (by decide) hne hds
    · rw [if_neg hx]
      exact hunsigned.ne_digits_dash hds

/-- **No printed text begins with digits and a dash.** -/
theorem render_ne_digits_dash (v : Json) (hne : ds ≠ []) (hds : AreDigits ds) : v.render ≠ ds ++ '-' :: rest := by
  cases v with
  | num n => exact n.render_ne_digits_dash hne hds
  | null => exact ne_digits_append (by decide) hne hds
  | bool b => cases b <;> exact ne_digits_append (by decide) hne hds
  | str s => exact ne_digits_append (by decide) hne hds
  | arr items => cases items <;> exact ne_digits_append (by decide) hne hds
  | obj entries => rcases entries with _ | ⟨⟨k, v⟩, entries⟩ <;> exact ne_digits_append (by decide) hne hds

end Json

namespace RevisionId

/-! ## Derived identifiers -/

/-- The identifier of some revision. -/
def IsDerived (id : RevisionId) : Prop := ∃ parent body, id = derive parent body

theorem exists_chars_derive (parent : Option RevisionId) (body : Json) : ∃ hex : List Char,
    (derive parent body).chars = Nat.toDigits 10 (nextGeneration parent).toNat ++ '-' :: hex ∧ hex.length = 32 ∧
      ∀ c ∈ hex, (Hex.value? c).isSome = true := by
  refine ⟨(derive parent body).digest.toList, rfl, length_digest_derive parent body, ?_⟩
  rw [derive, Hex.text, String.toList_ofList]
  exact Hex.isSome_value?_of_mem_encode _

theorem IsDerived.length_digest {id : RevisionId} (h : IsDerived id) : id.digest.toList.length = 32 := by
  obtain ⟨parent, body, rfl⟩ := h
  exact length_digest_derive parent body

/-! ## Taking apart what a digest covers -/

theorem eq_of_toDigits_eq {m n : UInt64} (h : Nat.toDigits 10 m.toNat = Nat.toDigits 10 n.toNat) : m = n := by
  have hread := generation?_toDigits m
  rw [h, generation?_toDigits] at hread
  exact (Option.some.inj hread).symm

theorem chars_append_inj {id other : RevisionId} {text rest : List Char}
    (hlength : id.digest.toList.length = other.digest.toList.length)
    (h : id.chars ++ text = other.chars ++ rest) : id = other ∧ text = rest := by
  have hsplit : Nat.toDigits 10 id.generation.toNat ++ '-' :: (id.digest.toList ++ text) =
      Nat.toDigits 10 other.generation.toNat ++ '-' :: (other.digest.toList ++ rest) := by
    simpa [chars] using h
  have hbefore := congrArg (List.takeWhile (· ≠ '-')) hsplit
  rw [takeWhile_dash (dash_not_mem_toDigits _), takeWhile_dash (dash_not_mem_toDigits _)] at hbefore
  have hafter := congrArg (List.dropWhile (· ≠ '-')) hsplit
  rw [dropWhile_dash (dash_not_mem_toDigits _), dropWhile_dash (dash_not_mem_toDigits _), List.cons.injEq] at hafter
  obtain ⟨hdigest, hrest⟩ := List.append_inj hafter.2 hlength
  obtain ⟨generation, digest⟩ := id
  obtain rfl := eq_of_toDigits_eq hbefore
  obtain rfl := String.toList_inj.1 hdigest
  exact ⟨rfl, hrest⟩

theorem chars_append_ne_render (id : RevisionId) (text : List Char) (body : Json) : id.chars ++ text ≠ body.render := by
  have hbegin : id.chars ++ text = Nat.toDigits 10 id.generation.toNat ++ '-' :: (id.digest.toList ++ text) := by
    simp [chars]
  rw [hbegin]
  exact (body.render_ne_digits_dash Nat.toDigits_ne_nil (Json.areDigits_toDigits _)).symm

/-- What the digest covers, as text. -/
def covered : Option RevisionId → Json → List Char
  | some id, body => id.chars ++ body.render
  | none, body => body.render

theorem material_eq (parent : Option RevisionId) (body : Json) :
    material parent body = Text.bytes (String.ofList (covered parent body)) := by
  cases parent with
  | none => rfl
  | some id =>
    rw [covered, String.ofList_append, Text.bytes_append]
    rfl

/-- **The parts are determined by what the digest covers.** -/
theorem eq_of_material_eq {p q : Option RevisionId} {a b : Json} (hp : ∀ id ∈ p, IsDerived id)
    (hq : ∀ id ∈ q, IsDerived id) (h : material p a = material q b) : p = q ∧ a.text = b.text := by
  rw [material_eq, material_eq] at h
  have hcovered : covered p a = covered q b := String.ofList_injective (Text.bytes_injective h)
  cases p with
  | none =>
    cases q with
    | none => exact ⟨rfl, congrArg String.ofList hcovered⟩
    | some other => exact absurd hcovered.symm (chars_append_ne_render other b.render a)
  | some id =>
    cases q with
    | none => exact absurd hcovered (chars_append_ne_render id a.render b)
    | some other =>
      have hlength : id.digest.toList.length = other.digest.toList.length := by
        rw [(hp id rfl).length_digest, (hq other rfl).length_digest]
      obtain ⟨rfl, hbody⟩ := chars_append_inj hlength hcovered
      exact ⟨rfl, congrArg String.ofList hbody⟩

/-! ## Histories -/

/-- The identifier after bodies that were written one after another, the last one first. -/
def chained : List Json → Option RevisionId
  | [] => none
  | body :: earlier => some (derive (chained earlier) body)

/-- All that was hashed for the identifier after the bodies. -/
def materials : List Json → List Bytes
  | [] => []
  | body :: earlier => material (chained earlier) body :: materials earlier

theorem isDerived_of_mem_chained {bodies : List Json} : ∀ id ∈ chained bodies, IsDerived id := by
  intro id hid
  cases bodies with
  | nil => cases hid
  | cons body earlier =>
    cases hid
    exact ⟨chained earlier, body, rfl⟩

/-- The digest is the text of the bytes that are taken of the hash. -/
theorem take_digest_eq {p q : Option RevisionId} {a b : Json} (h : derive p a = derive q b) :
    (Sha256.digest (material p a)).take 16 = (Sha256.digest (material q b)).take 16 := by
  have hdigest := congrArg (fun id : RevisionId => Hex.decode? id.digest.toList) h
  simpa [derive, Hex.text] using hdigest

/-- Histories with one identifier have the same texts, or two texts that were hashed for them collide. -/
theorem history_or_collision (xs ys : List Json) (h : chained xs = chained ys) :
    xs.map Json.text = ys.map Json.text ∨ ∃ m ∈ materials xs, ∃ n ∈ materials ys, m ≠ n ∧
      (Sha256.digest m).take 16 = (Sha256.digest n).take 16 := by
  induction xs generalizing ys with
  | nil =>
    cases ys with
    | nil => exact .inl rfl
    | cons b later => cases h
  | cons a xs ih =>
    cases ys with
    | nil => cases h
    | cons b ys =>
      have hid : derive (chained xs) a = derive (chained ys) b := Option.some.inj h
      by_cases hmaterial : material (chained xs) a = material (chained ys) b
      · obtain ⟨hparent, htext⟩ := eq_of_material_eq isDerived_of_mem_chained isDerived_of_mem_chained hmaterial
        rcases ih ys hparent with hearlier | ⟨m, hm, n, hn, hcollide⟩
        · exact .inl (by rw [List.map_cons, List.map_cons, htext, hearlier])
        · exact .inr ⟨m, List.mem_cons_of_mem _ hm, n, List.mem_cons_of_mem _ hn, hcollide⟩
      · exact .inr ⟨_, List.mem_cons_self, _, List.mem_cons_self, hmaterial, take_digest_eq hid⟩

/-- **What a digest covers determines what was hashed.** A derived identifier has a fixed length after its dash. So if
the same bytes are hashed for two bodies, each after a derived identifier or after none, then these identifiers are the
same and the bodies have the same text. Hence two histories of bodies with different texts have different identifiers,
unless two of the byte strings that were hashed for them agree in the first half of their hashes. -/
theorem material_determines :
    (∀ parent body, ∃ hex : List Char,
      (derive parent body).chars = Nat.toDigits 10 (nextGeneration parent).toNat ++ '-' :: hex ∧ hex.length = 32 ∧
        ∀ c ∈ hex, (Hex.value? c).isSome = true) ∧
    (∀ p q a b, (∀ id ∈ p, IsDerived id) → (∀ id ∈ q, IsDerived id) → material p a = material q b →
      p = q ∧ a.text = b.text) ∧
    ∀ xs ys, xs.map Json.text ≠ ys.map Json.text →
      (∀ m ∈ materials xs, ∀ n ∈ materials ys, m ≠ n →
        (Sha256.digest m).take 16 ≠ (Sha256.digest n).take 16) →
      chained xs ≠ chained ys := by
  refine ⟨exists_chars_derive, fun p q a b => eq_of_material_eq, fun xs ys htexts hnone hid => ?_⟩
  rcases history_or_collision xs ys hid with hsame | ⟨m, hm, n, hn, hne, hcollide⟩
  · exact htexts hsame
  · exact hnone m hm n hn hne hcollide

/-- The identifier of a first revision that is null. -/
def ofNull : RevisionId := ⟨1, "74234e98afe7498fb5daf1f36ac2d78a"⟩

theorem isDerived_ofNull : IsDerived ofNull := ⟨none, .null, by decide +kernel⟩

/-- The least double, which is printed with an exponent. -/
def least : Json := .num (.float ⟨false, ⟨0, by decide⟩, ⟨1, by decide⟩⟩ (by decide))

theorem material_determines_least :
    chained [.null] = some ofNull ∧ material (some ofNull) least ≠ material none least ∧
      chained [least, .null] ≠ chained [least] := by
  obtain ⟨-, hparts, hhistories⟩ := material_determines
  have hnull : ∀ id ∈ chained [.null], IsDerived id := isDerived_of_mem_chained
  have hderived : ∀ id ∈ some ofNull, IsDerived id := by
    intro id hid
    cases hid
    exact isDerived_ofNull
  have hnone : ∀ id ∈ (none : Option RevisionId), IsDerived id := by
    intro id hid
    cases hid
  have htexts : [least, .null].map Json.text ≠ [least].map Json.text := by
    intro h
    exact absurd (congrArg List.length h) (by decide)
  refine ⟨?_, fun h => ?_, hhistories _ _ htexts (by decide +kernel)⟩
  · exact (hparts _ _ least least hnull hderived (by decide +kernel)).1
  · exact absurd (hparts _ _ least least hderived hnone h).1 nofun

end RevisionId

end Docket
