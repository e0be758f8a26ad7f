import Docket.Proofs.Cli.Chronicle
import Docket.Proofs.Cli.Containment

/-!
# What commands do to a vault

A command that succeeds on a vault whose tables chronicle deeds adds its own deed, if it has one; one that fails leaves
the tables as they are. No command takes a directory away from the blobs.

* `Command.deed?`: what a command does, if it succeeds.
* `Command.DecodesBack`: the body of a new document is read back from its row as it is.
* `Enacts`: an action that adds a deed, or fails.
* `Records`: what a success adds.
* **`Command.enacts`**: commands do what their deeds say.
-/

namespace Docket.Cli

/-- What a command does if it succeeds, given the contents of files. -/
def Command.deed? (contentOf? : String → Option Bytes) : Command → Option Deed
  | .create document _ => some ⟨document, .create⟩
  | .attach document file name mediaType => (name.or (Path.fileName? file)).bind fun name =>
      (contentOf? file).map fun content => ⟨document, .attach name mediaType content⟩
  | .remove document names => some ⟨document, .remove names⟩
  | _ => none

/-- If the command makes a document, its row is read back as it is, wherever it is stored. -/
def Command.DecodesBack : Command → Prop
  | .create document text => ∀ body, Json.ofText? text = some body → ∀ s : Store, (s.next document none body).Decodes
  | _ => True

theorem decodesBack_create {document text : String} {body : Json} (hread : Json.ofText? text = some body)
    (hbody : body.literal.member? = some body) : (Command.create document text).DecodesBack := by
  intro other hother s
  rw [hread, Option.some.injEq] at hother
  subst hother
  exact Revision.decodes_derived (by decide) rfl hbody document (s.last + 1)

/-- An action keeps the directories among the blobs. If it fails it leaves the tables as they are, and if it succeeds
they chronicle its deed too, as long as the deeds can be counted. -/
structure Enacts (deeds : List Deed) (deed? : Option Deed) (v : Vault) (result : Outcome × Vault) : Prop where
  directories : ∀ name child, child.IsDirectory → v.blobs.entries.get? name = some child →
    result.2.blobs.entries.get? name = some child
  failed : ∀ e, result.1 = .error e → result.2.store = v.store
  done : ∀ text, result.1 = .ok text → (deed?.toList ++ deeds).length < UInt64.size →
    ∃ written, Chronicle (deed?.toList ++ deeds) result.2.store written

variable {deeds : List Deed} {v : Vault} {written : List Revision}

/-- If an action succeeds, the tables chronicle its deed too, as long as the deeds can be counted. -/
def Records (deeds : List Deed) (deed? : Option Deed) (result : Outcome × Vault) : Prop :=
  ∀ text, result.1 = .ok text → (deed?.toList ++ deeds).length < UInt64.size →
    ∃ written, Chronicle (deed?.toList ++ deeds) result.2.store written

theorem Contained.enacts {deed? : Option Deed} {result : Outcome × Vault} (h : Contained v result)
    (hdone : Records deeds deed? result) : Enacts deeds deed? v result where
  directories name child hchild := (h.directories name child hchild).2
  failed e he := (h.failed e he).1
  done := hdone

theorem records_of_error (deeds : List Deed) (deed? : Option Deed) (e : Failure) (v : Vault) :
    Records deeds deed? (.error e, v) := fun _ h => by cases h

variable (h : Chronicle deeds v.store written)

include h

theorem Chronicle.records_of_ok (text : String) {after : Vault} (hstore : after.store = v.store) :
    Records deeds none (.ok text, after) := fun _ _ _ => ⟨written, by rw [hstore]; exact h⟩

theorem Chronicle.records_onCurrent {document : String} {f : Revision → Action} {deed? : Option Deed}
    {opener : FileOpener}
    (hf : ∀ r, Chronicle.Current deeds v written document r → Records deeds deed? (f r opener v)) :
    Records deeds deed? (onCurrent document f opener v) := by
  unfold onCurrent
  rcases h.current document with ⟨-, hnone⟩ | ⟨r, hr⟩
  · rw [hnone]
    exact records_of_error _ _ _ _
  · rw [hr.current_eq]
    exact hf r hr

theorem Chronicle.records_list (format : Format) (document : String) (opener : FileOpener) :
    Records deeds none (Action.list format document opener v) := by
  refine h.records_onCurrent fun r _ => ?_
  split
  · exact records_of_error _ _ _ _
  · exact h.records_of_ok _ rfl

theorem Chronicle.records_collect (format : Format) (opener : FileOpener) :
    Records deeds none (Action.collect format opener v) := by
  unfold Action.collect
  rcases v.collect_cases with ⟨e, hcollect⟩ | ⟨keys, -, hcollect⟩
  · rw [hcollect]
    exact records_of_error _ _ _ _
  · rw [hcollect]
    exact h.records_of_ok _ rfl

theorem Chronicle.records_create (format : Format) {document : String} {body : Json}
    (hbody : ∀ s : Store, (s.next document none body).Decodes) (opener : FileOpener) :
    Records deeds (some ⟨document, .create⟩) (Action.create format document body opener v) := by
  unfold Action.create
  split
  · exact records_of_error _ _ _ _
  · next r store hcreate => exact fun _ _ hroom => ⟨_, h.create hroom (hbody _) hcreate⟩

theorem Chronicle.records_remove (hopen : v.poisoned = false) (format : Format) (document : String)
    (names : List String) (opener : FileOpener) :
    Records deeds (some ⟨document, .remove names⟩) (Action.remove format document names opener v) := by
  refine h.records_onCurrent fun r hr => ?_
  cases hresult : v.remove r names with
  | mk answer after =>
    cases answer with
    | error e => exact records_of_error _ _ _ _
    | ok next => exact fun _ _ hroom => h.remove hroom hr hopen hresult

theorem Chronicle.records_attach (format : Format) (document : String) {file : String} (name mediaType : String)
    {opener : FileOpener} {content? : Option Bytes}
    (hcontent : ∀ content, (Source.file file).content? opener v.blobs = some content → content? = some content) :
    Records deeds (content?.map fun content => ⟨document, .attach name mediaType content⟩)
      (Action.attach format document file name mediaType opener v) := by
  refine h.records_onCurrent fun r hr => ?_
  cases hresult : v.addAll opener r [⟨name, mediaType, .file file⟩] with
  | mk answer after =>
    cases answer with
    | error e => exact records_of_error _ _ _ _
    | ok next =>
      obtain ⟨_, content, _, -, hread, -⟩ := Vault.addAll_singleton_eq_ok hresult
      rw [hcontent content hread]
      intro _ _ hroom
      obtain ⟨attached, hattached, hdone⟩ := h.attach hroom hr hresult
      rw [hread, Option.some.injEq] at hattached
      subst hattached
      exact ⟨_, hdone⟩

/-- **Commands do what their deeds say.** -/
theorem Command.enacts (hopen : v.poisoned = false) {command : Command} {format : Format} {action : Action}
    (haction : command.action format = .ok action) (hbody : command.DecodesBack) {opener : FileOpener}
    {contentOf? : String → Option Bytes}
    (hcontent : ∀ document file name mediaType, command = .attach document file name mediaType →
      ∀ content, (Source.file file).content? opener v.blobs = some content → contentOf? file = some content) :
    Enacts deeds (command.deed? contentOf?) v (action opener v) := by
  refine (Command.contained haction).enacts ?_
  unfold Command.action at haction
  cases command with
  | normalize text =>
    cases haction
    simp only [Command.deed?]
    cases Cli.normalize text with
    | error e => exact records_of_error _ _ _ _
    | ok printed => exact h.records_of_ok printed rfl
  | create document text =>
    simp only at haction
    split at haction
    · cases haction
    · next body hread =>
      cases haction
      exact h.records_create format (hbody body hread) opener
  | attach document file given mediaType =>
    simp only at haction
    split at haction
    · cases haction
    · next name hname =>
      cases haction
      rw [Command.deed?, hname, Option.bind_some]
      exact h.records_attach format document name mediaType (hcontent document file given mediaType rfl)
  | list document =>
    cases haction
    exact h.records_list format document opener
  | remove document names =>
    cases haction
    exact h.records_remove hopen format document names opener
  | collect =>
    cases haction
    exact h.records_collect format opener

end Docket.Cli
