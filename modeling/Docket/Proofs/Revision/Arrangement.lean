import Docket.Proofs.Json.Equality
import Docket.Proofs.Revision.Material

/-!
# Bodies that are equal

The digest of a revision covers the text of its body, and the text keeps the order of keys and the sign of zeros, which
equality of values does not look at. So equal bodies have one identifier just if they are aligned, short of a collision
of the digest (**`RevisionId.derive_of_equal_bodies`**). Bodies in canonical form are.

* `RevisionId.material_eq_iff_aligned`: when equal bodies are hashed alike.
* `RevisionId.same_and_material_ne_of_perm`: entries in another order make an equal body that is hashed in another way.
* `RevisionId.Collide`: different texts whose digests agree.
* `RevisionId.derive_ne_of_swapped`: two keys that change places change the identifier.
-/

namespace Docket.RevisionId

variable {parent : Option RevisionId} {a b : Json}

theorem material_eq_iff_text : material parent a = material parent b ↔ a.text = b.text := by
  unfold material
  rw [List.append_cancel_left_eq]
  exact ⟨Text.bytes_injective, congrArg Text.bytes⟩

/-- **Equal bodies are hashed alike just if they are aligned.** -/
theorem material_eq_iff_aligned (ha : a.Distinct) (hb : b.Distinct) (h : a.same b = true) :
    material parent a = material parent b ↔ a.Aligned b := by
  rw [material_eq_iff_text, Json.text_inj ha hb, Json.eq_iff_aligned hb h]

/-- Different texts whose digests agree. -/
def Collide (m n : Bytes) : Prop := m ≠ n ∧ (Sha256.digest m).take 16 = (Sha256.digest n).take 16

instance (m n : Bytes) : Decidable (Collide m n) := by unfold Collide; infer_instance

/-- Bodies have one identifier if they are hashed alike, or if what is hashed collides. -/
theorem derive_eq_iff : derive parent a = derive parent b ↔
    material parent a = material parent b ∨ Collide (material parent a) (material parent b) := by
  constructor
  · intro h
    by_cases hmaterial : material parent a = material parent b
    · exact .inl hmaterial
    · exact .inr ⟨hmaterial, take_digest_eq h⟩
  · rintro (hmaterial | ⟨-, hdigest⟩)
    · rw [derive, derive, hmaterial]
    · rw [derive, derive, hdigest]

theorem same_and_material_ne_of_perm {es fs : List (String × Json)} (hes : (Json.obj es).Distinct) (hperm : es.Perm fs)
    (hne : es ≠ fs) :
    (Json.obj es).same (.obj fs) = true ∧ material parent (.obj es) ≠ material parent (.obj fs) := by
  have hfs : (Json.obj fs).Distinct := by
    refine ⟨(hperm.map _).nodup_iff.1 hes.1, Json.distinctEntries_iff.2 fun e he => ?_⟩
    exact Json.distinctEntries_iff.1 hes.2 e (hperm.mem_iff.2 he)
  refine ⟨Json.same_of_perm hes hperm, ?_⟩
  rw [Ne, material_eq_iff_text, Json.text_inj hes hfs, Json.obj.injEq]
  exact hne

/-- **What becomes of equal bodies.** Two equal bodies after one identifier, or after none, have one identifier just if
their keys stand in one order at every depth and their zeros have the same signs, or else if the digests of different
texts agree. Equal bodies in canonical form have one identifier. -/
theorem derive_of_equal_bodies (parent : Option RevisionId) (a b : Json) (ha : a.Distinct) (hb : b.Distinct)
    (hsame : a.same b = true) :
    (derive parent a = derive parent b ↔ a.Aligned b ∨ Collide (material parent a) (material parent b)) ∧
      (a.Canonical → b.Canonical → derive parent a = derive parent b) := by
  have hiff : derive parent a = derive parent b ↔ a.Aligned b ∨ Collide (material parent a) (material parent b) := by
    rw [derive_eq_iff, material_eq_iff_aligned ha hb hsame]
  refine ⟨hiff, fun hca hcb => ?_⟩
  exact hiff.2 (.inl (Json.aligned_of_canonical a b hca hcb hsame))

/-- A body with an object in it, keys in ascending order. -/
def folded : Json := .obj [("size", .obj [("h", .ofInt64 2), ("w", .ofInt64 1)]), ("title", .str "t")]

/-- The same body with the keys inside the other way round. -/
def unfolded : Json := .obj [("size", .obj [("w", .ofInt64 1), ("h", .ofInt64 2)]), ("title", .str "t")]

/-- The entries of `unfolded` as a table has them. -/
def refolded : Json :=
  .obj [("size", .obj (Table.ofList [("w", .ofInt64 1), ("h", .ofInt64 2)]).entries), ("title", .str "t")]

theorem derive_of_equal_bodies_folded :
    folded.same unfolded = true ∧ derive (some ofNull) folded ≠ derive (some ofNull) unfolded ∧
      folded.same refolded = true ∧ derive (some ofNull) folded = derive (some ofNull) refolded := by
  have hdistinct : folded.Distinct := ⟨by decide, ⟨by decide, trivial, trivial, trivial⟩, trivial, trivial⟩
  have hdistinct' : unfolded.Distinct := ⟨by decide, ⟨by decide, trivial, trivial, trivial⟩, trivial, trivial⟩
  have hsame : folded.same unfolded = true := by decide
  have hsame' : folded.same refolded = true := by decide
  have hlt : compare "size" "title" = .lt := by decide
  have hpair : ∀ v w : Json, Ascending [("size", v), ("title", w)] := fun _ _ => List.pairwise_pair.2 hlt
  have hfolded : folded.Canonical :=
    ⟨hpair _ _, ⟨List.pairwise_pair.2 (by decide), trivial, trivial, trivial⟩, trivial, trivial⟩
  have hrefolded : refolded.Canonical :=
    ⟨hpair _ _, ⟨(Table.ofList _).ascending, trivial, trivial, trivial⟩, trivial, trivial⟩
  obtain ⟨hiff, -⟩ := derive_of_equal_bodies (some ofNull) folded unfolded hdistinct hdistinct' hsame
  obtain ⟨-, hcanonical⟩ := derive_of_equal_bodies (some ofNull) folded refolded hdistinct
    (Json.distinct_of_canonical refolded hrefolded) hsame'
  refine ⟨hsame, fun h => ?_, hsame', hcanonical hfolded hrefolded⟩
  rcases hiff.1 h with haligned | hcollide
  · exact absurd haligned.2.1.1 (by decide)
  · exact absurd hcollide (by decide +kernel)

/-- Two keys that change places change the identifier. -/
theorem derive_ne_of_swapped :
    (Json.obj [("a", .ofInt64 1), ("b", .ofInt64 2)]).Distinct ∧
      (Json.obj [("b", .ofInt64 2), ("a", .ofInt64 1)]).Distinct ∧
      (Json.obj [("a", .ofInt64 1), ("b", .ofInt64 2)]).same (.obj [("b", .ofInt64 2), ("a", .ofInt64 1)]) = true ∧
      derive none (.obj [("a", .ofInt64 1), ("b", .ofInt64 2)]) ≠
        derive none (.obj [("b", .ofInt64 2), ("a", .ofInt64 1)]) := by
  refine ⟨⟨by decide, trivial, trivial, trivial⟩, ⟨by decide, trivial, trivial, trivial⟩, by decide, by decide +kernel⟩

end Docket.RevisionId
