import Docket.Attachment.Row

/-!
# What happened to a document

The changes of a document that succeeded, the latest first, say what it has: the latest change that concerns a name
decides. A change goes on to a new revision if it attaches something, or if it takes away a name that is listed.

* `Change`, `Deed`, `changes`: what commands did, and what they did to one document.
* `Listed`, `advances`: the names that a document has, and the number of revisions that its changes went on to.
* `Shows`: an attachment that a document has.
* `listing?`: the attachment under a name.
* **`shows_iff`**: the latest change that concerns a name decides.
-/

namespace Docket.Cli

/-! ## Changes -/

/-- What a command did to a document. -/
inductive Change where
  | create
  | attach (name mediaType : String) (content : Bytes)
  | remove (names : List String)
deriving DecidableEq

/-- What a command did, and to which document. -/
structure Deed where
  document : String
  change : Change
deriving DecidableEq

/-- What was done to one document. -/
def changes (document : String) (deeds : List Deed) : List Change :=
  (deeds.filter (·.document = document)).map (·.change)

theorem changes_cons_self (document : String) (change : Change) (deeds : List Deed) :
    changes document (⟨document, change⟩ :: deeds) = change :: changes document deeds := by simp [changes]

theorem changes_cons_of_ne {document : String} {deed : Deed} (h : document ≠ deed.document) (deeds : List Deed) :
    changes document (deed :: deeds) = changes document deeds := by simp [changes, h.symm]

theorem length_changes_le (document : String) (deeds : List Deed) :
    (changes document deeds).length ≤ deeds.length := by
  rw [changes, List.length_map]
  exact List.length_filter_le _ _

theorem create_mem_changes {document : String} {deeds : List Deed} :
    .create ∈ changes document deeds ↔ ⟨document, .create⟩ ∈ deeds := by
  rw [changes, List.mem_map]
  constructor
  · rintro ⟨deed, hdeed, hchange⟩
    obtain ⟨hmem, hdocument⟩ := List.mem_filter.1 hdeed
    obtain ⟨other, change⟩ := deed
    have hdocument : other = document := of_decide_eq_true hdocument
    have hchange : change = .create := hchange
    rwa [hdocument, hchange] at hmem
  · intro hmem
    exact ⟨_, List.mem_filter.2 ⟨hmem, decide_eq_true rfl⟩, rfl⟩

namespace Change

/-- A change is about a name. -/
def Concerns (name : String) : Change → Prop
  | .create => False
  | .attach other _ _ => other = name
  | .remove names => name ∈ names

instance (name : String) (c : Change) : Decidable (c.Concerns name) := by
  cases c <;> unfold Concerns <;> infer_instance

end Change

/-! ## Names and revisions -/

/-- A document with these changes has something under a name. -/
def Listed (name : String) : List Change → Prop
  | [] => False
  | .create :: earlier => Listed name earlier
  | .attach other _ _ :: earlier => other = name ∨ Listed name earlier
  | .remove names :: earlier => name ∉ names ∧ Listed name earlier

instance decidableListed (name : String) : (changes : List Change) → Decidable (Listed name changes)
  | [] => inferInstanceAs (Decidable False)
  | .create :: earlier => decidableListed name earlier
  | .attach other _ _ :: earlier =>
    have := decidableListed name earlier
    inferInstanceAs (Decidable (other = name ∨ Listed name earlier))
  | .remove names :: earlier =>
    have := decidableListed name earlier
    inferInstanceAs (Decidable (name ∉ names ∧ Listed name earlier))

/-- How many of the changes went on to a new revision. -/
def advances : List Change → Nat
  | [] => 0
  | .create :: earlier => advances earlier
  | .attach _ _ _ :: earlier => advances earlier + 1
  | .remove names :: earlier => advances earlier + if ∃ name ∈ names, Listed name earlier then 1 else 0

theorem advances_lt_length {changes : List Change} (h : .create ∈ changes) : advances changes < changes.length := by
  have hle : ∀ changes : List Change, advances changes ≤ changes.length := fun changes => by
    induction changes with
    | nil => exact Nat.le_refl 0
    | cons c earlier ih => cases c <;> simp only [advances, List.length_cons] <;> (try split) <;> omega
  induction changes with
  | nil => cases h
  | cons c earlier ih =>
    cases c with
    | create =>
      have hearlier := hle earlier
      rw [advances, List.length_cons]
      omega
    | attach name mediaType content =>
      have hearlier := ih (List.mem_of_ne_of_mem Change.noConfusion h)
      rw [advances, List.length_cons]
      omega
    | remove names =>
      have hearlier := ih (List.mem_of_ne_of_mem Change.noConfusion h)
      rw [advances, List.length_cons]
      split <;> omega

theorem advances_le_append (later earlier : List Change) : advances earlier ≤ advances (later ++ earlier) := by
  induction later with
  | nil => exact Nat.le_refl _
  | cons c rest ih =>
    cases c with
    | create => exact ih
    | attach name mediaType content => exact Nat.le_succ_of_le ih
    | remove names => exact Nat.le_add_right_of_le ih

/-! ## Attachments -/

/-- An attachment of a document. -/
structure Listing where
  name : String
  mediaType : String
  content : Bytes
  revpos : Nat

/-- A document with these changes has this attachment: it was attached, no later change concerns its name, and it came
in with the revision that this change went on to. -/
def Shows (changes : List Change) (x : Listing) : Prop :=
  ∃ later earlier, changes = later ++ .attach x.name x.mediaType x.content :: earlier ∧
    (∀ c ∈ later, ¬ c.Concerns x.name) ∧ x.revpos = 1 + advances (.attach x.name x.mediaType x.content :: earlier)

theorem Shows.revpos_le {changes : List Change} {x : Listing} (h : Shows changes x) (hcreated : .create ∈ changes) :
    x.revpos ≤ changes.length := by
  obtain ⟨later, earlier, rfl, -, hrevpos⟩ := h
  have hlt := advances_lt_length hcreated
  have hle := advances_le_append later (.attach x.name x.mediaType x.content :: earlier)
  omega

/-- The attachment under a name. -/
def listing? : List Change → String → Option Listing
  | [], _ => none
  | .create :: earlier, name => listing? earlier name
  | .attach other mediaType content :: earlier, name =>
    if other = name then some ⟨name, mediaType, content, 1 + advances (.attach other mediaType content :: earlier)⟩
    else listing? earlier name
  | .remove names :: earlier, name => if name ∈ names then none else listing? earlier name

theorem shows_cons_iff {c : Change} {earlier : List Change} {x : Listing} : Shows (c :: earlier) x ↔
    (c = .attach x.name x.mediaType x.content ∧ x.revpos = 1 + advances (c :: earlier)) ∨
      (¬ c.Concerns x.name ∧ Shows earlier x) := by
  constructor
  · rintro ⟨later, before, hsplit, hlater, hrevpos⟩
    cases later with
    | nil =>
      obtain ⟨rfl, rfl⟩ := List.cons.inj hsplit
      exact .inl ⟨rfl, hrevpos⟩
    | cons first rest =>
      obtain ⟨rfl, rfl⟩ := List.cons.inj hsplit
      rw [List.forall_mem_cons] at hlater
      exact .inr ⟨hlater.1, rest, before, rfl, hlater.2, hrevpos⟩
  · rintro (⟨rfl, hrevpos⟩ | ⟨hc, later, before, rfl, hlater, hrevpos⟩)
    · exact ⟨[], earlier, rfl, fun _ h => absurd h List.not_mem_nil, hrevpos⟩
    · exact ⟨c :: later, before, rfl, List.forall_mem_cons.2 ⟨hc, hlater⟩, hrevpos⟩

/-- **The latest change that concerns a name decides.** -/
theorem shows_iff {changes : List Change} {x : Listing} : Shows changes x ↔ listing? changes x.name = some x := by
  induction changes with
  | nil =>
    refine ⟨fun ⟨later, earlier, hsplit, _⟩ => ?_, fun h => by cases h⟩
    exact absurd hsplit.symm (List.append_ne_nil_of_right_ne_nil _ (List.cons_ne_nil _ _))
  | cons c earlier ih =>
    rw [shows_cons_iff, ih]
    cases c with
    | create => simp [listing?, Change.Concerns]
    | remove names =>
      rw [listing?]
      by_cases hname : x.name ∈ names <;> simp [Change.Concerns, hname]
    | attach name mediaType content =>
      obtain ⟨xname, xtype, xcontent, revpos⟩ := x
      rw [listing?]
      by_cases hname : name = xname
      · subst hname
        rw [if_pos rfl]
        constructor
        · rintro (⟨hattach, hrevpos⟩ | ⟨hother, -⟩)
          · cases hattach
            have hrevpos : revpos = _ := hrevpos
            rw [hrevpos]
          · exact absurd rfl hother
        · intro heq
          cases heq
          exact .inl ⟨rfl, rfl⟩
      · simp [Change.Concerns, hname]

theorem name_of_listing? {changes : List Change} {name : String} {x : Listing} (h : listing? changes name = some x) :
    x.name = name := by
  induction changes with
  | nil => cases h
  | cons c earlier ih =>
    cases c with
    | create => exact ih h
    | attach other mediaType content =>
      rw [listing?] at h
      split at h
      · cases h
        rfl
      · exact ih h
    | remove names =>
      rw [listing?] at h
      split at h
      · cases h
      · exact ih h

theorem listed_iff {changes : List Change} {name : String} : Listed name changes ↔ listing? changes name ≠ none := by
  induction changes with
  | nil => simp [Listed, listing?]
  | cons c earlier ih =>
    cases c with
    | create => exact ih
    | attach other mediaType content =>
      rw [Listed, listing?]
      by_cases hname : other = name <;> simp [hname, ih]
    | remove names =>
      rw [Listed, listing?]
      by_cases hname : name ∈ names <;> simp [hname, ih]

theorem listed_iff_exists_shows {changes : List Change} {name : String} :
    Listed name changes ↔ ∃ x, Shows changes x ∧ x.name = name := by
  rw [listed_iff, Option.ne_none_iff_exists']
  constructor
  · rintro ⟨x, hx⟩
    have hname := name_of_listing? hx
    exact ⟨x, shows_iff.2 (hname.symm ▸ hx), hname⟩
  · rintro ⟨x, hx, rfl⟩
    exact ⟨x, shows_iff.1 hx⟩

end Docket.Cli
