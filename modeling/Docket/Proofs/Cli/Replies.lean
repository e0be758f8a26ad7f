import Docket.Cli.Shell
import Mathlib.Tactic.Common

/-!
# Replies of commands

What is printed for a command does not say by itself whether the command failed. A reply does: it is an output, or the
reason that there is none.

* `Cli.respond`: the reply to the words of a command, and the disk afterwards.
* `Cli.command_eq`: what is printed is the wording of the reply.
* `Reading.words_of_step`: a word is taken as it stands, or as an option.
* **`Invocation.parse_normalize`**: what the words `normalize` and a text ask for.
-/

namespace Docket.Cli

/-! ## Replies -/

/-- Why a command has no output. -/
inductive Refusal where
  | usage (e : UsageError)
  | failure (e : Failure)

/-- An output, or the reason that there is none. -/
abbrev Reply := Except Refusal String

/-- What is printed for a reply. -/
def Reply.text : Reply → String
  | .ok text => text
  | .error (.usage e) => e.message
  | .error (.failure e) => Shell.failureText e

/-- The reply to the words of a command, and the disk afterwards. -/
def respond (d : Disk) (words : List String) : Reply × Disk :=
  match Invocation.parse words with
  | .error e => (.error (.usage e), d)
  | .ok i => ((i.run d).1.mapError .failure, (i.run d).2)

theorem command_eq (d : Disk) (words : List String) :
    Shell.command d words = (Reply.text (respond d words).1, (respond d words).2) := by
  rw [Shell.command, respond]
  cases Invocation.parse words with
  | error e => rfl
  | ok i =>
    simp only
    split <;> next hrun => rw [hrun]; rfl

/-! ## Words -/

namespace Reading

variable {r r' : Reading}

theorem words_of_accept {name value : String} (h : r.accept name value = .ok r') : r'.words = r.words := by
  unfold accept at h
  split at h
  · cases h
  · split at h
    · cases h
    · split at h
      · cases h
        rfl
      · cases h

theorem words_of_resolve (h : r.resolve = .ok r') : r'.words = r.words := by
  unfold resolve at h
  split at h
  · cases h
    rfl
  · cases h
  · exact words_of_accept h

theorem words_of_long {text : List Char} (h : r.long text = .ok r') : r'.words = r.words := by
  unfold long at h
  -- the value that stands in the word itself
  generalize (if '=' ∈ text then some _ else none) = value at h
  simp only at h
  split at h
  · split at h
    · cases h
    · split at h <;> cases h
  · split at h
    · cases h
    · cases hresolve : r.resolve with
      | error e =>
        rw [hresolve] at h
        cases h
      | ok resolved =>
        have hwords := words_of_resolve hresolve
        rw [hresolve] at h
        cases value with
        | none =>
          cases h
          exact hwords
        | some value => exact (words_of_accept h).trans hwords

theorem short_ne_ok (text : List Char) : r.short text ≠ .ok r' := by
  unfold short
  simp only
  split
  · exact nofun
  · split <;> exact nofun

theorem words_of_word {text : String} (h : r.word text = .ok r') : r'.words = r.words ++ [text] := by
  unfold word at h
  split at h
  · cases h
  · cases h
  · cases hresolve : r.resolve with
    | error e =>
      rw [hresolve] at h
      cases h
    | ok resolved =>
      rw [hresolve] at h
      cases h
      exact congrArg (· ++ [text]) (words_of_resolve hresolve)

theorem eq_ok_of_of {x : Except UsageError Reading} (h : Step.of x = .read r') : x = .ok r' := by
  cases x with
  | error e => cases h
  | ok read =>
    cases h
    rfl

theorem words_of_plain {text : String} (h : r.plain text = .read r') : r'.words = r.words ++ [text] := by
  unfold plain at h
  split at h
  · split at h
    · split at h <;> cases h
    · cases h
  · exact words_of_word (eq_ok_of_of h)

/-- A word is taken as it stands, or as an option or its value. -/
theorem words_of_step {text : String} (h : r.step text = .read r') :
    r'.words = r.words ∨ r'.words = r.words ++ [text] := by
  unfold step at h
  split at h
  · exact .inr (words_of_plain h)
  · split at h
    · cases h
      exact .inl rfl
    · exact .inl (words_of_long (eq_ok_of_of h))
    · exact absurd (eq_ok_of_of h) (short_ne_ok _)
    · cases h
      exact .inl rfl
    · exact .inr (words_of_plain h)

theorem words_of_finish (h : r.finish = .ok r') : r'.words = r.words := by
  unfold finish at h
  split at h
  · cases h
  · next hresolve =>
    split at h
    · cases h
    · cases h
      exact words_of_resolve hresolve

end Reading

theorem Command.ofReading_normalize {r : Reading} {c : Command} (h : ofReading "normalize" r = .ok c) :
    ∃ text rest, r.words = text :: rest ∧ c = .normalize text := by
  unfold ofReading at h
  simp only at h
  split at h
  · next hwords =>
    cases h
    exact ⟨_, _, hwords, rfl⟩
  all_goals simp_all

namespace Invocation

/-- The level of `normalize`. -/
def normalizing : Reading := .start (.inner [] .one)

theorem parse_normalize (text : String) : parse ["normalize", text] =
    match normalizing.readAll [text] with
    | .error e => .error e
    | .ok inner =>
      match Command.ofReading "normalize" inner with
      | .error e => .error e
      | .ok command => .ok {
        root := (inner.value? "root").or none
        config := (inner.value? "config").or none
        format := (((inner.value? "format").or none).bind Format.ofName?).getD .table
        command } := by
  change ofSubcommand (.start .outer) "normalize" [text] = _
  have hlevel : Level.subcommand? "normalize" = some (.inner [] .one) := rfl
  have houter : (Reading.start .outer).finish = .ok (.start .outer) := rfl
  rw [ofSubcommand, hlevel, houter]
  simp only [bind, Except.bind, normalizing]
  cases Reading.readAll _ [text] with
  | error e => rfl
  | ok inner =>
    simp only
    cases Command.ofReading "normalize" inner <;> rfl

theorem command_of_parse_normalize {text : String} {i : Invocation} (h : parse ["normalize", text] = .ok i) :
    i.command = .normalize text := by
  rw [parse_normalize] at h
  split at h
  · cases h
  · next inner hread =>
    split at h
    · cases h
    · next command hcommand =>
      cases h
      obtain ⟨word, rest, hwords, rfl⟩ := Command.ofReading_normalize hcommand
      unfold Reading.readAll at hread
      split at hread
      · next hstep =>
        have hfinish := Reading.words_of_finish hread
        rcases Reading.words_of_step hstep with hnone | hone
        · rw [hwords, hnone] at hfinish
          cases hfinish
        · rw [hwords, hone] at hfinish
          cases hfinish
          rfl
      · cases hread
      · cases hread

theorem parse_normalize_of_word {text : String} {c : Char} {rest : List Char} (htext : text.toList = c :: rest)
    (hc : c ≠ '-') : parse ["normalize", text] = .ok ⟨none, none, .table, .normalize text⟩ := by
  have hmore : ¬ normalizing.onlyWords = true := Bool.false_ne_true
  have hstep : normalizing.step text = .read { normalizing with words := [text] } := by
    rw [Reading.step, if_neg hmore, htext]
    split
    · next heq => exact absurd (List.cons.inj heq).1 hc
    · next heq => exact absurd (List.cons.inj heq).1 hc
    · next heq => exact absurd (List.cons.inj heq).1 hc
    · next hpending _ _ _ => cases hpending
    · rfl
  rw [parse_normalize, Reading.readAll, hstep]
  rfl

end Invocation

end Docket.Cli
