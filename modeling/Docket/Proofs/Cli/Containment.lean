import Docket.Cli.Command
import Docket.Proofs.Vault.Collection
import Docket.Proofs.Vault.Failure
import Docket.Proofs.Vault.Following

/-!
# What commands leave alone

Whatever stands in a vault, a command leaves the directories among its blobs as they are, and one that fails leaves its
tables and all its blobs as they are.

* `Cli.Contained`: an action that keeps to this.
* **`Command.contained`**: every command does.
-/

namespace Docket

theorem Vault.unchanged_of_addAll_singleton {opener : FileOpener} {v after : Vault} {r : Revision} {a : Attachment}
    {e : AttachmentError} (h : v.addAll opener r [a] = (.error e, after)) :
    after.store = v.store ∧ after.blobs.entries = v.blobs.entries := by
  rcases adds_of_addAll_error h with rfl | ⟨contents, hbefore, hstore, hadds⟩
  · exact ⟨rfl, rfl⟩
  · -- no attachment comes before the only one
    obtain ⟨next, s, earlier, failing, later, linked, middle, -, hsplit, hlinked, -⟩ := hbefore
    obtain ⟨rfl, -⟩ | ⟨_, -, hnil⟩ := List.cons_eq_append_iff.1 hsplit
    · cases hlinked
      exact ⟨hstore, hadds.entries_eq⟩
    · exact absurd hnil (by simp)

namespace Cli

/-- An action leaves the directories among the blobs as they are. If it fails it leaves the tables and all blobs as they
are. -/
structure Contained (v : Vault) (result : Outcome × Vault) : Prop where
  directories : ∀ name child, child.IsDirectory →
    (result.2.blobs.entries.get? name = some child ↔ v.blobs.entries.get? name = some child)
  failed : ∀ e, result.1 = .error e → result.2.store = v.store ∧ result.2.blobs.entries = v.blobs.entries

variable {v : Vault} {opener : FileOpener}

theorem contained_of_eq (outcome : Outcome) (v : Vault) : Contained v (outcome, v) where
  directories _ _ _ := Iff.rfl
  failed _ _ := ⟨rfl, rfl⟩

theorem contained_of_ok {text : String} {after : Vault} (h : ∀ name child, child.IsDirectory →
    (after.blobs.entries.get? name = some child ↔ v.blobs.entries.get? name = some child)) :
    Contained v (.ok text, after) where
  directories := h
  failed _ h := by cases h

theorem contained_onCurrent {document : String} {f : Revision → Action} (hf : ∀ r, Contained v (f r opener v)) :
    Contained v (onCurrent document f opener v) := by
  unfold onCurrent
  split
  · exact contained_of_eq ..
  · exact hf _

theorem contained_create (format : Format) (document : String) (body : Json) :
    Contained v (Action.create format document body opener v) := by
  unfold Action.create
  split
  · exact contained_of_eq ..
  · exact contained_of_ok fun _ _ _ => Iff.rfl

theorem contained_attach (format : Format) (document file name mediaType : String) :
    Contained v (Action.attach format document file name mediaType opener v) := by
  refine contained_onCurrent fun r => ?_
  cases hresult : v.addAll opener r [⟨name, mediaType, .file file⟩] with
  | mk answer after =>
    cases answer with
    | error e =>
      have hunchanged := Vault.unchanged_of_addAll_singleton hresult
      refine ⟨fun _ _ _ => ?_, fun _ _ => hunchanged⟩
      show after.blobs.entries.get? _ = _ ↔ _
      rw [hunchanged.2]
    | ok next =>
      obtain ⟨_, _, _, -, -, hadds, rfl⟩ := Vault.addAll_singleton_eq_ok hresult
      exact contained_of_ok fun _ _ => hadds.get?_directory

theorem contained_list (format : Format) (document : String) :
    Contained v (Action.list format document opener v) := by
  refine contained_onCurrent fun r => ?_
  split <;> exact contained_of_eq ..

theorem contained_remove (format : Format) (document : String) (names : List String) :
    Contained v (Action.remove format document names opener v) := by
  refine contained_onCurrent fun r => ?_
  cases hresult : v.remove r names with
  | mk answer after =>
    cases answer with
    | error e =>
      rw [Vault.eq_of_remove_error hresult]
      exact contained_of_eq ..
    | ok next =>
      refine contained_of_ok fun _ _ _ => ?_
      rw [Vault.blobs_of_remove_ok hresult]

theorem contained_collect (format : Format) : Contained v (Action.collect format opener v) := by
  unfold Action.collect
  rcases v.collect_cases with ⟨e, hcollect⟩ | ⟨keys, -, hcollect⟩
  · rw [hcollect]
    exact contained_of_eq ..
  · rw [hcollect]
    -- a sweep leaves directories alone
    refine contained_of_ok fun name child hdirectory => ?_
    exact Blobs.get?_sweep.trans (and_iff_left (.inr hdirectory))

/-- **Every command leaves directories alone, and one that fails leaves everything alone.** -/
theorem Command.contained {command : Command} {format : Format} {action : Action}
    (haction : command.action format = .ok action) : Contained v (action opener v) := by
  unfold Command.action at haction
  cases command with
  | normalize text =>
    cases haction
    exact contained_of_eq ..
  | create document text =>
    simp only at haction
    split at haction
    · cases haction
    · cases haction
      exact contained_create ..
  | attach document file given mediaType =>
    simp only at haction
    split at haction
    · cases haction
    · cases haction
      exact contained_attach ..
  | list document =>
    cases haction
    exact contained_list ..
  | remove document names =>
    cases haction
    exact contained_remove ..
  | collect =>
    cases haction
    exact contained_collect ..

end Cli

end Docket
