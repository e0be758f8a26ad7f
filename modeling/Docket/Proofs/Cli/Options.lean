import Docket.Proofs.Cli.Replies

/-!
# Values of options

What a level reads is made of values that its options accept, whatever the words are. So the paths of an invocation
are not empty.

* `Reading.Sound`: a reading at a level, with accepted values only.
* `Reading.Sound.readAll`: over all words of a subcommand.
* **`Invocation.root_ne_empty`**: the root of an invocation.
-/

namespace Docket.Cli

/-- A reading at a level that holds only values that the level accepts. -/
structure Reading.Sound (l : Level) (r : Reading) : Prop where
  level_eq : r.level = l
  accepted : ∀ p ∈ r.values, ∃ k, l.kind? p.1 = some k ∧ k.Accepts p.2

namespace Reading

variable {l : Level} {r r' : Reading}

theorem sound_start (l : Level) : (start l).Sound l := ⟨rfl, fun _ h => absurd h List.not_mem_nil⟩

theorem Sound.value (h : r.Sound l) {name value : String} {k : ValueKind} (hk : l.kind? name = some k)
    (hvalue : r.value? name = some value) : k.Accepts value := by
  obtain ⟨⟨name', value'⟩, hfind, rfl⟩ := Option.map_eq_some_iff.1 hvalue
  obtain ⟨k', hk', haccepts⟩ := h.accepted _ (List.mem_of_find?_eq_some hfind)
  obtain rfl : name' = name := by simpa using List.find?_some hfind
  rw [hk, Option.some.injEq] at hk'
  exact hk' ▸ haccepts

variable (h : r.Sound l)

include h

theorem Sound.accept {name value : String} (haccept : r.accept name value = .ok r') : r'.Sound l := by
  unfold Reading.accept at haccept
  split at haccept
  · cases haccept
  · split at haccept
    · cases haccept
    · next k hk =>
      split at haccept
      · next haccepts =>
        cases haccept
        rw [h.level_eq] at hk
        refine ⟨h.level_eq, fun p hp => ?_⟩
        rcases List.mem_append.1 hp with hold | hnew
        · exact h.accepted p hold
        · rw [List.mem_singleton.1 hnew]
          exact ⟨k, hk, haccepts⟩
      · cases haccept

theorem Sound.resolve (hresolve : r.resolve = .ok r') : r'.Sound l := by
  unfold Reading.resolve at hresolve
  split at hresolve
  · cases hresolve
    exact h
  · cases hresolve
  · exact h.accept hresolve

theorem Sound.long {text : List Char} (hlong : r.long text = .ok r') : r'.Sound l := by
  unfold Reading.long at hlong
  generalize (if '=' ∈ text then some _ else none) = value at hlong
  simp only at hlong
  split at hlong
  · split at hlong
    · cases hlong
    · split at hlong <;> cases hlong
  · split at hlong
    · cases hlong
    · split at hlong
      · cases hlong
      · next hresolve => exact (h.resolve hresolve).accept hlong
      · next hresolve =>
        cases hlong
        have hsound := h.resolve hresolve
        exact ⟨hsound.level_eq, hsound.accepted⟩

theorem Sound.word {text : String} (hword : r.word text = .ok r') : r'.Sound l := by
  unfold Reading.word at hword
  split at hword
  · cases hword
  · cases hword
  · cases hresolve : r.resolve with
    | error e =>
      rw [hresolve] at hword
      cases hword
    | ok resolved =>
      have hsound := h.resolve hresolve
      rw [hresolve] at hword
      cases hword
      exact ⟨hsound.level_eq, hsound.accepted⟩

theorem Sound.plain {text : String} (hplain : r.plain text = .read r') : r'.Sound l := by
  unfold Reading.plain at hplain
  split at hplain
  · split at hplain
    · split at hplain <;> cases hplain
    · cases hplain
  · exact h.word (eq_ok_of_of hplain)

theorem Sound.step {text : String} (hstep : r.step text = .read r') : r'.Sound l := by
  unfold Reading.step at hstep
  split at hstep
  · exact h.plain hstep
  · split at hstep
    · cases hstep
      exact ⟨h.level_eq, h.accepted⟩
    · exact h.long (eq_ok_of_of hstep)
    · exact absurd (eq_ok_of_of hstep) (short_ne_ok _)
    · cases hstep
      exact ⟨h.level_eq, h.accepted⟩
    · exact h.plain hstep

theorem Sound.finish (hfinish : r.finish = .ok r') : r'.Sound l := by
  unfold Reading.finish at hfinish
  split at hfinish
  · cases hfinish
  · next hresolve =>
    split at hfinish
    · cases hfinish
    · cases hfinish
      exact h.resolve hresolve

theorem Sound.readAll {texts : List String} (hread : r.readAll texts = .ok r') : r'.Sound l := by
  induction texts generalizing r with
  | nil => exact h.finish hread
  | cons text rest ih =>
    unfold Reading.readAll at hread
    split at hread
    · next hstep => exact ih (h.step hstep) hread
    · cases hread
    · cases hread

end Reading

/-! ## Roots -/

theorem Level.kind?_root {name : String} {l : Level} (h : subcommand? name = some l) : l.kind? "root" = some .path := by
  obtain ⟨entry, hfind, rfl⟩ := Option.map_eq_some_iff.1 h
  have hall : ∀ entry ∈ subcommands, entry.2.kind? "root" = some .path := by decide
  exact hall entry (List.mem_of_find?_eq_some hfind)

namespace Invocation

variable {outer : Reading} {words : List String} {i : Invocation} {root : String}

theorem root_ne_empty_of_subcommand (houter : outer.Sound .outer) {name : String}
    (h : ofSubcommand outer name words = .ok i) (hroot : i.root = some root) : root ≠ "" := by
  unfold ofSubcommand at h
  split at h
  · cases h
  · next l hl =>
    cases hinner : (Reading.start l).readAll words with
    | error e =>
      rw [hinner] at h
      cases h
    | ok inner =>
      cases hcommand : Command.ofReading name inner with
      | error e =>
        rw [hinner] at h
        simp only [bind, Except.bind, hcommand] at h
        cases h
      | ok command =>
        cases hfinish : outer.finish with
        | error e =>
          rw [hinner] at h
          simp only [bind, Except.bind, hcommand, hfinish] at h
          cases h
        | ok finished =>
          rw [hinner] at h
          simp only [bind, Except.bind, hcommand, hfinish] at h
          cases h
          rcases Option.or_eq_some_iff.1 hroot with hvalue | ⟨-, hvalue⟩
          · exact ((Reading.sound_start l).readAll hinner).value (Level.kind?_root hl) hvalue
          · have houterRoot : Level.outer.kind? "root" = some .path := by decide
            exact (houter.finish hfinish).value houterRoot hvalue

theorem root_ne_empty_of_readFrom (houter : outer.Sound .outer) (h : readFrom outer words = .ok i)
    (hroot : i.root = some root) : root ≠ "" := by
  induction words generalizing outer with
  | nil =>
    unfold readFrom at h
    split at h <;> cases h
  | cons text rest ih =>
    unfold readFrom at h
    split at h
    · next hstep => exact ih (houter.step hstep) h
    · cases h
    · exact root_ne_empty_of_subcommand houter h hroot

/-- **The root of an invocation is not empty.** -/
theorem root_ne_empty (h : parse words = .ok i) (hroot : i.root = some root) : root ≠ "" :=
  root_ne_empty_of_readFrom (Reading.sound_start .outer) h hroot

end Invocation

end Docket.Cli
