import Docket.Proofs.Reach
import Mathlib.Data.List.Induction

/-!
# Directories that cannot be made

Making a directory may fail after some of those on the way to it have been made, and these stay. When it is tried
again it fails again, and nothing more is made. The reason may be another one, but only if the path steps up: without
that, directories on the way are only made where the last one can be made too.

* `Disk.Bars`: neither is there a directory at the end of segments nor can one be made.
* `Disk.makeAllAt_cons_cases`: how making directories fails.
* `Disk.eq_of_makeAllAt_error`: along names, nothing is made where not all can be made.
* **`Disk.makeDirectories_again`**: the second attempt.
-/

namespace Docket

namespace Path

theorem ways_concat (names : List String) (last : String) :
    ways (names ++ [last]) = ways names ++ [names ++ [last]] := by
  induction names with
  | nil => rfl
  | cons name rest ih =>
    rw [List.cons_append, ways, ways, ih, List.map_append]
    rfl

theorem reverse_ways_concat (names : List String) (last : String) :
    (ways (names ++ [last])).reverse = (names ++ [last]) :: (ways names).reverse := by
  rw [ways_concat, List.reverse_append]
  rfl

end Path

namespace Disk

variable {d made : Disk} {start : Place} {segments names : List String} {above : List (List String)} {reason : IoError}

/-! ## Following -/

theorem follow_concat (d : Disk) (start : Place) (segments : List String) (last : String) :
    d.follow start (segments ++ [last]) = d.follow start segments >>= fun here => d.step here last := by
  rw [follow, List.foldlM_append]
  refine congrArg _ (funext fun here => ?_)
  exact bind_pure _

theorem follow_concat_of_hasDirectory {here : Place} (h : d.follow start names = .ok here)
    (hdirectory : Node.HasDirectory here d.root) {last : String} (hlast : last ≠ "." ∧ last ≠ "..") :
    d.follow start (names ++ [last]) = .ok (here ++ [last]) := by
  rw [follow_concat, h]
  show d.step here last = _
  rw [step_eq_ok_of_hasDirectory hdirectory, if_neg hlast.1, if_neg hlast.2]

/-- Single dots on the way may be left out. -/
theorem follow_names {here : Place} (h : d.follow start segments = .ok here) :
    d.follow start (segments.filter (· ≠ ".")) = .ok here := by
  induction segments generalizing start with
  | nil => exact h
  | cons segment rest ih =>
    rw [follow, List.foldlM_cons] at h
    cases hstep : d.step start segment with
    | error e =>
      rw [hstep] at h
      cases h
    | ok next =>
      rw [hstep] at h
      by_cases hdot : segment = "."
      · obtain ⟨-, hnext⟩ := step_eq_ok hstep
        rw [if_pos hdot] at hnext
        rw [List.filter_cons_of_neg (by simp [hdot])]
        exact ih (hnext ▸ h)
      · rw [List.filter_cons_of_pos (by simp [hdot]), follow, List.foldlM_cons, hstep]
        exact ih h

theorem follow_of_below (hnames : ∀ name ∈ names, name ≠ "." ∧ name ≠ "..") {last : String} {node : Node}
    (h : Node.get? (start ++ (names ++ [last])) d.root = some node) : d.follow start names = .ok (start ++ names) := by
  induction names generalizing start with
  | nil => rw [List.append_nil]; rfl
  | cons name rest ih =>
    rw [List.forall_mem_cons] at hnames
    obtain ⟨⟨hdot, hdots⟩, hrest⟩ := hnames
    have hdirectory : Node.HasDirectory start d.root := Node.hasDirectory_of_above h
    rw [List.cons_append, List.append_cons] at h
    have hbelow : start ++ name :: rest = start ++ [name] ++ rest := List.append_cons ..
    rw [follow, List.foldlM_cons, step_eq_ok_of_hasDirectory hdirectory, if_neg hdot, if_neg hdots, hbelow]
    exact ih hrest h

theorem walk_of_names (hnames : ∀ name ∈ names, name ≠ "." ∧ name ≠ "..") (start : Place) :
    walk start names = start ++ names := by
  induction names generalizing start with
  | nil => exact (List.append_nil start).symm
  | cons name rest ih =>
    rw [List.forall_mem_cons] at hnames
    obtain ⟨⟨hdot, hdots⟩, hrest⟩ := hnames
    rw [List.append_cons, ← ih hrest, walk, List.foldl_cons, if_neg hdot, if_neg hdots]
    rfl

/-! ## Failures -/

theorem makeAt_of_follow_error (h : d.follow start segments = .error reason) :
    d.makeAt start segments = .error reason := by
  rw [makeAt, h]
  rfl

theorem makeAt_of_follow_ok {here : Place} (h : d.follow start segments = .ok here) :
    d.makeAt start segments = if (Node.get? here d.root).isSome then .error .alreadyExists
      else .ok (d.set here .emptyDirectory) := by
  rw [makeAt, h]
  simp only [bind, Except.bind]
  cases Node.get? here d.root <;> rfl

theorem follow_of_makeAt_missing (h : d.makeAt start segments = .error .notFound) :
    d.follow start segments = .error .notFound := by
  cases hfollow : d.follow start segments with
  | error e =>
    rw [makeAt_of_follow_error hfollow] at h
    cases h
    rfl
  | ok here =>
    rw [makeAt_of_follow_ok hfollow] at h
    split at h <;> cases h

theorem get?_of_step_missing {here : Place} {segment : String} (h : d.step here segment = .error .notFound) :
    Node.get? here d.root = none := by
  unfold step at h
  split at h
  · next hnone => exact hnone
  · split at h
    · cases h
    · split at h
      · cases h
      · split at h <;> cases h

/-- There is no directory at the end of segments, and none can be made for this reason. -/
structure Bars (d : Disk) (start : Place) (segments : List String) (reason : IoError) : Prop where
  makeAt_eq : d.makeAt start segments = .error reason
  absent : d.hasDirectoryAt start segments = false

/-- What bars the end of a way is no directory. -/
theorem Bars.exists_node (h : d.Bars start segments reason) {here : Place}
    (hfollow : d.follow start segments = .ok here) :
    ∃ node, ¬ node.IsDirectory ∧ Node.get? here d.root = some node := by
  have hmake := h.makeAt_eq
  rw [makeAt_of_follow_ok hfollow] at hmake
  cases hget : Node.get? here d.root with
  | none =>
    rw [hget] at hmake
    cases hmake
  | some node =>
    refine ⟨node, fun hnode => ?_, rfl⟩
    cases node with
    | directory entries =>
      have habsent := h.absent
      rw [hasDirectoryAt_iff.2 ⟨here, hfollow, entries, hget⟩] at habsent
      cases habsent
    | file content => exact hnode
    | database store => exact hnode
    | busy => exact hnode

/-- Making directories fails at the last of them, before or after those above it were looked at, or above it. -/
theorem makeAllAt_cons_cases (h : d.makeAllAt start (segments :: above) = (.error reason, made)) :
    (d.Bars start segments reason ∧ reason ≠ .notFound ∧ made = d) ∨
    (d.makeAt start segments = .error .notFound ∧
      (d.makeAllAt start above = (.error reason, made) ∨
        d.makeAllAt start above = (.ok (), made) ∧ made.Bars start segments reason)) := by
  have hbars : ∀ {between : Disk} {e : IoError}, between.makeAt start segments = .error e →
      (if e = .alreadyExists ∧ between.hasDirectoryAt start segments then (.ok () : Except IoError Unit)
        else .error e, between) = (.error reason, made) →
      made.Bars start segments reason ∧ e = reason ∧ made = between := by
    intro between e hmake heq
    split at heq
    · cases heq
    · next hnot =>
      cases heq
      refine ⟨⟨hmake, Bool.eq_false_iff.2 fun hhas => ?_⟩, rfl, rfl⟩
      -- a directory that is there is told by the attempt to make it
      rw [makeAt_of_hasDirectoryAt hhas] at hmake
      cases hmake
      exact hnot ⟨rfl, hhas⟩
  rw [makeAllAt] at h
  split at h
  · cases h
  · next hmissing =>
    refine .inr ⟨hmissing, ?_⟩
    split at h
    · next habove =>
      cases h
      exact .inl habove
    · next between habove =>
      split at h
      · cases h
      · next e hmake =>
        obtain ⟨hlast, -, rfl⟩ := hbars hmake h
        exact .inr ⟨habove, hlast⟩
  · next e hmissing hmake =>
    obtain ⟨hlast, rfl, rfl⟩ := hbars hmake h
    exact .inl ⟨hlast, hmissing, rfl⟩

theorem makeAllAt_of_bars (h : d.Bars start segments reason)
    (habove : reason = .notFound → d.makeAllAt start above = (.ok (), d)) :
    d.makeAllAt start (segments :: above) = (.error reason, d) := by
  have hnot : ¬ (reason = .alreadyExists ∧ d.hasDirectoryAt start segments = true) := fun hhas => by
    rw [h.absent] at hhas
    cases hhas.2
  rw [makeAllAt, h.makeAt_eq]
  by_cases hmissing : reason = .notFound
  · subst hmissing
    simp only [habove rfl, h.makeAt_eq, h.absent]
    rfl
  · split
    · next heq => cases heq
    · next heq =>
      cases heq
      exact absurd rfl hmissing
    · next heq =>
      cases heq
      simp only [if_neg hnot]

theorem makeAllAt_of_above (h : d.makeAt start segments = .error .notFound)
    (habove : d.makeAllAt start above = (.error reason, made)) :
    d.makeAllAt start (segments :: above) = (.error reason, made) := by
  rw [makeAllAt, h]
  simp only [habove]

/-! ## The ways along names -/

theorem makeAllAt_ways_of_hasDirectoryAt (h : d.hasDirectoryAt start names = true) :
    d.makeAllAt start (Path.ways names).reverse = (.ok (), d) := by
  rcases List.eq_nil_or_concat names with rfl | ⟨init, last, rfl⟩
  · rfl
  · rw [List.concat_eq_append] at h ⊢
    rw [Path.reverse_ways_concat]
    exact makeAllAt_of_hasDirectoryAt h _

theorem hasDirectoryAt_of_makeAllAt_ways (hstart : names = [] → Node.HasDirectory start d.root)
    (h : d.makeAllAt start (Path.ways names).reverse = (.ok (), made)) : made.hasDirectoryAt start names = true := by
  rcases List.eq_nil_or_concat names with rfl | ⟨init, last, rfl⟩
  · cases h
    exact hasDirectoryAt_iff.2 ⟨start, rfl, hstart rfl⟩
  · rw [List.concat_eq_append, Path.reverse_ways_concat] at h
    rw [List.concat_eq_append]
    exact hasDirectoryAt_of_makeAllAt (fun hnil => absurd hnil (by simp)) h

/-- Directories that were made along names are not made again. -/
theorem makeAllAt_ways_again (h : d.makeAllAt start (Path.ways names).reverse = (.ok (), made)) :
    made.makeAllAt start (Path.ways names).reverse = (.ok (), made) := by
  by_cases hne : names = []
  · subst hne
    rfl
  · exact makeAllAt_ways_of_hasDirectoryAt (hasDirectoryAt_of_makeAllAt_ways (fun hnil => absurd hnil hne) h)

theorem makeAllAt_ways_of_follow_concat {last : String} {here : Place}
    (h : d.follow start (names ++ [last]) = .ok here) :
    d.makeAllAt start (Path.ways names).reverse = (.ok (), d) := by
  rw [follow_concat] at h
  cases hfollow : d.follow start names with
  | error e =>
    rw [hfollow] at h
    cases h
  | ok middle =>
    rw [hfollow] at h
    obtain ⟨hdirectory, -⟩ := step_eq_ok h
    exact makeAllAt_ways_of_hasDirectoryAt (hasDirectoryAt_iff.2 ⟨middle, hfollow, hdirectory⟩)

/-! ## The second attempt -/

/-- A second attempt fails if one does that ends on the way. It fails as the first one unless that ended on the way. -/
theorem makeAllAt_cons_again
    (hlead : ∀ (d : Disk) (here : Place), d.follow start segments = .ok here →
      d.makeAllAt start (Path.ways names).reverse = (.ok (), d))
    (hway : d.makeAllAt start (Path.ways names).reverse = (.error reason, made) →
      ∃ second, made.makeAllAt start (Path.ways names).reverse = (.error second, made))
    (h : d.makeAllAt start (segments :: (Path.ways names).reverse) = (.error reason, made)) :
    ∃ second, made.makeAllAt start (segments :: (Path.ways names).reverse) = (.error second, made) ∧
      (d.makeAllAt start (Path.ways names).reverse ≠ (.error reason, made) → second = reason) := by
  rcases makeAllAt_cons_cases h with ⟨hbars, hreason, rfl⟩ | ⟨-, habove | ⟨habove, hbars⟩⟩
  · exact ⟨reason, makeAllAt_of_bars hbars fun hmissing => absurd hmissing hreason, fun _ => rfl⟩
  · obtain ⟨second, hsecond⟩ := hway habove
    -- the way still fails, so the segments lead nowhere
    cases hfollow : made.follow start segments with
    | ok here =>
      rw [hlead made here hfollow] at hsecond
      cases hsecond
    | error e =>
      have hmake := makeAt_of_follow_error hfollow
      by_cases hmissing : e = .notFound
      · exact ⟨second, makeAllAt_of_above (hmissing ▸ hmake) hsecond, fun hne => absurd habove hne⟩
      · have habsent : made.hasDirectoryAt start segments = false := by
          rw [hasDirectoryAt, hfollow]
        exact ⟨e, makeAllAt_of_bars ⟨hmake, habsent⟩ fun heq => absurd heq hmissing, fun hne => absurd habove hne⟩
  · exact ⟨reason, makeAllAt_of_bars hbars fun _ => makeAllAt_ways_again habove, fun _ => rfl⟩

theorem exists_makeAllAt_ways_again (h : d.makeAllAt start (Path.ways names).reverse = (.error reason, made)) :
    ∃ second, made.makeAllAt start (Path.ways names).reverse = (.error second, made) := by
  induction names using List.reverseRecOn with
  | nil => cases h
  | append_singleton init last ih =>
    rw [Path.reverse_ways_concat] at h ⊢
    obtain ⟨second, hsecond, -⟩ := makeAllAt_cons_again (fun _ _ => makeAllAt_ways_of_follow_concat) ih h
    exact ⟨second, hsecond⟩

/-! ## Names alone -/

theorem makeAllAt_of_not_hasDirectory (hstart : ¬ Node.HasDirectory start d.root) {ways : List (List String)}
    (hways : [] ∉ ways) : (d.makeAllAt start ways).2 = d := by
  induction ways with
  | nil => rfl
  | cons segments above ih =>
    rw [List.mem_cons, not_or] at hways
    obtain ⟨segment, rest, rfl⟩ := List.exists_cons_of_ne_nil (Ne.symm hways.1)
    have hfollow : ∀ here, d.follow start (segment :: rest) ≠ .ok here := fun here h => by
      rw [follow, List.foldlM_cons] at h
      cases hstep : d.step start segment with
      | error e =>
        rw [hstep] at h
        cases h
      | ok next => exact hstart (step_eq_ok hstep).1
    have hmake : ∀ made, d.makeAt start (segment :: rest) ≠ .ok made := fun made h => by
      obtain ⟨here, h, -⟩ := makeAt_eq_ok h
      exact hfollow here h
    have habove := ih hways.2
    rw [makeAllAt]
    split
    · next made h => exact absurd h (hmake made)
    · split
      · next h =>
        rw [h] at habove
        exact habove
      · next between h =>
        rw [h] at habove
        cases habove
        split
        · next made h => exact absurd h (hmake made)
        · rfl
    · rfl

/-- Where a name is missed, the directory above it is missed too or can be made. -/
theorem exists_makeAt_of_concat {last : String} (h : d.makeAt start (names ++ [last]) = .error .notFound) :
    (∃ made, d.makeAt start names = .ok made) ∨ d.makeAt start names = .error .notFound := by
  have hlast := follow_of_makeAt_missing h
  rw [follow_concat] at hlast
  cases hfollow : d.follow start names with
  | error e =>
    rw [hfollow] at hlast
    cases hlast
    exact .inr (makeAt_of_follow_error hfollow)
  | ok here =>
    rw [hfollow] at hlast
    have hnone := get?_of_step_missing hlast
    rw [makeAt_of_follow_ok hfollow, hnone]
    exact .inl ⟨_, rfl⟩

theorem eq_of_makeAllAt_error_of_hasDirectory (hnames : ∀ name ∈ names, name ≠ "." ∧ name ≠ "..")
    (hstart : Node.HasDirectory start d.root)
    (h : d.makeAllAt start (Path.ways names).reverse = (.error reason, made)) :
    made = d ∧ d.makeAt start names ≠ .error .notFound := by
  induction names using List.reverseRecOn with
  | nil => cases h
  | append_singleton init last ih =>
    rw [List.forall_mem_append, List.forall_mem_singleton] at hnames
    obtain ⟨hinit, hname⟩ := hnames
    rw [Path.reverse_ways_concat] at h
    rcases makeAllAt_cons_cases h with ⟨hbars, hreason, rfl⟩ | ⟨hmissing, habove | ⟨habove, hbars⟩⟩
    · refine ⟨rfl, fun hmissing => ?_⟩
      rw [hbars.makeAt_eq] at hmissing
      cases hmissing
      exact hreason rfl
    · -- the way does not fail where a name on it is missed
      exfalso
      obtain ⟨-, hway⟩ := ih hinit habove
      rcases exists_makeAt_of_concat hmissing with ⟨first, hfirst⟩ | hmissed
      · rcases List.eq_nil_or_concat init with rfl | ⟨more, name, rfl⟩
        · cases habove
        · rw [List.concat_eq_append] at hfirst habove
          rw [Path.reverse_ways_concat, makeAllAt, hfirst] at habove
          cases habove
      · exact hway hmissed
    · -- what bars the end of a way that was made stood there before, so the end was not missed
      exfalso
      have hthere := hasDirectoryAt_of_makeAllAt_ways (fun _ => hstart) habove
      obtain ⟨here, hfollow, hdirectory⟩ := hasDirectoryAt_iff.1 hthere
      obtain rfl : here = start ++ init := (follow_eq hfollow).trans (walk_of_names hinit start)
      have hend := follow_concat_of_hasDirectory hfollow hdirectory hname
      obtain ⟨node, hnode, hget⟩ := hbars.exists_node hend
      have hgrown := d.grown_makeAllAt start (Path.ways init).reverse
      rw [habove] at hgrown
      have hold := ((hgrown.root _).1 node hnode).1 hget
      have hway := follow_of_below hinit (List.append_assoc .. ▸ hold)
      have hmissed := follow_of_makeAt_missing hmissing
      rw [follow_concat_of_hasDirectory hway (Node.hasDirectory_of_above hold) hname] at hmissed
      cases hmissed

theorem nil_notMem_ways (names : List String) : [] ∉ Path.ways names := by
  cases names with
  | nil => exact List.not_mem_nil
  | cons name rest => simp [Path.ways]

/-- **Along names nothing is made where not all can be made.** -/
theorem eq_of_makeAllAt_error (hnames : ∀ name ∈ names, name ≠ "." ∧ name ≠ "..")
    (h : d.makeAllAt start (Path.ways names).reverse = (.error reason, made)) : made = d := by
  by_cases hstart : Node.HasDirectory start d.root
  · exact (eq_of_makeAllAt_error_of_hasDirectory hnames hstart h).1
  · have hways : [] ∉ (Path.ways names).reverse := fun hmem => nil_notMem_ways names (List.mem_reverse.1 hmem)
    have heq := makeAllAt_of_not_hasDirectory hstart hways
    rw [h] at heq
    exact heq

/-! ## Paths -/

theorem makeAllAt_above_of_follow {path : String} (d : Disk) {here : Place}
    (h : d.follow start (Path.segments path) = .ok here) :
    d.makeAllAt start (Path.ways (Path.names path).dropLast).reverse = (.ok (), d) := by
  have hnames : d.follow start (Path.names path) = .ok here := follow_names h
  rcases List.eq_nil_or_concat (Path.names path) with hnil | ⟨init, last, hconcat⟩
  · rw [hnil]
    rfl
  · rw [hconcat, List.concat_eq_append] at hnames
    rw [hconcat, List.concat_eq_append, List.dropLast_concat]
    exact makeAllAt_ways_of_follow_concat hnames

/-- In a directory that is there another one is made at once, or nothing is. -/
theorem eq_of_makeDirectories_join {base name : String} (hname : Path.Plain name) (hleads : d.Leads base)
    (h : d.makeDirectories (Path.join base name) = (.error reason, made)) : made = d := by
  have hfollow := follow_concat_of_hasDirectory hleads.follow hleads.hasDirectory ⟨hname.notDot, hname.notDots⟩
  rw [makeDirectories, origin_join hname, Path.segments_join base hname] at h
  rcases makeAllAt_cons_cases h with ⟨-, -, heq⟩ | ⟨hmissing, -⟩
  · exact heq
  · rw [makeAt_of_follow_ok hfollow] at hmissing
    split at hmissing <;> cases hmissing

/-- **A directory that could not be made cannot be made the second time**, and nothing more is made on the way. The
reason is the same if the path does not step up. -/
theorem makeDirectories_again {path : String} (h : d.makeDirectories path = (.error reason, made)) :
    ∃ second, made.makeDirectories path = (.error second, made) ∧ (".." ∉ Path.segments path → second = reason) := by
  have horigin : made.origin path = d.origin path := by
    have hgrown := d.grown_makeDirectories path
    rw [h] at hgrown
    exact hgrown.spares.origin path
  obtain ⟨second, hsecond, hsame⟩ := makeAllAt_cons_again (fun d _ => d.makeAllAt_above_of_follow)
    exists_makeAllAt_ways_again h
  refine ⟨second, ?_, fun hdots => ?_⟩
  · rw [makeDirectories, horigin]
    exact hsecond
  · by_cases habove : d.makeAllAt (d.origin path) (Path.ways (Path.names path).dropLast).reverse = (.error reason, made)
    · -- nothing was made, so this was the first attempt
      have hnames : ∀ name ∈ (Path.names path).dropLast, name ≠ "." ∧ name ≠ ".." := fun name hname => by
        obtain ⟨hsegment, hdot⟩ := List.mem_filter.1 ((List.dropLast_sublist _).subset hname)
        exact ⟨of_decide_eq_true hdot, fun heq => hdots (heq ▸ hsegment)⟩
      obtain rfl := eq_of_makeAllAt_error hnames habove
      rw [← makeDirectories, h] at hsecond
      cases hsecond
      rfl
    · exact hsame habove

end Disk

end Docket
