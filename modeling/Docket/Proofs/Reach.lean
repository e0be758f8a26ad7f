import Docket.Proofs.FileTree

/-!
# Places that can be reached

A path is followed through directories, so it still leads to the same place as long as no directory on the way is
lost. A name joined to a path leads one step further.

* `Path.segments_join`: the segments of a path with a plain name after it.
* **`Disk.place_join_eq_ok_iff`**: when a joined path leads somewhere.
* `Node.hasDirectory_set`: a change of a tree away from a directory keeps it.
* `Disk.Spares`: a disk on which no directory is lost.
* `Disk.Leads`, `Disk.Spares.leads`: a path that leads to a directory, and that it still does.
* `Disk.leads_of_makeDirectories`, `Disk.makeDirectories_of_leads`: directories that are made are there, and those that
  are there are not made again.
-/

namespace Docket

namespace Path

/-! ## Joined paths -/

/-- A name that leads one step down. -/
structure Plain (name : String) : Prop where
  nonempty : name ≠ ""
  notDot : name ≠ "."
  notDots : name ≠ ".."
  whole : '/' ∉ name.toList

theorem pieces_ne_nil (text : List Char) : pieces text ≠ [] := by
  cases text with
  | nil => exact List.cons_ne_nil _ _
  | cons c rest =>
    rw [pieces]
    split
    · exact List.cons_ne_nil _ _
    · split <;> exact List.cons_ne_nil _ _

theorem pieces_append_slash (before after : List Char) :
    pieces (before ++ '/' :: after) = pieces before ++ pieces after := by
  induction before with
  | nil => rfl
  | cons c rest ih =>
    rw [List.cons_append, pieces, pieces, ih]
    split
    · rfl
    · cases hrest : pieces rest with
      | nil => exact absurd hrest (pieces_ne_nil rest)
      | cons piece others => rfl

theorem pieces_of_whole {text : List Char} (h : '/' ∉ text) : pieces text = [text] := by
  induction text with
  | nil => rfl
  | cons c rest ih =>
    rw [List.mem_cons, not_or] at h
    rw [pieces, if_neg (Ne.symm h.1), ih h.2]

theorem segments_of_plain {name : String} (h : Plain name) : segments name = [name] := by
  have hne : name.toList ≠ [] := fun hnil => h.nonempty (String.toList_eq_nil_iff.1 hnil)
  rw [segments, pieces_of_whole h.whole]
  simp [hne]

theorem not_isAbsolute_of_plain {name : String} (h : Plain name) : ¬ IsAbsolute name := fun habsolute =>
  h.whole (List.mem_of_mem_head? habsolute)

theorem segments_append_slash (base name : String) :
    segments (base ++ "/" ++ name) = segments base ++ segments name := by
  simp only [segments, String.toList_append, List.append_assoc]
  rw [← List.map_append, ← List.filter_append]
  exact congrArg _ (congrArg _ (pieces_append_slash base.toList name.toList))

theorem exists_of_endsInSlash {base : String} (h : EndsInSlash base) : ∃ init, base = init ++ "/" := by
  obtain ⟨init, hinit⟩ := List.getLast?_eq_some_iff.1 h
  refine ⟨String.ofList init, String.toList_inj.1 ?_⟩
  rw [String.toList_append, String.toList_ofList]
  exact hinit

section Join

variable (base : String) {name : String} (h : Plain name)

include h

theorem segments_join : segments (join base name) = segments base ++ [name] := by
  rw [join, if_neg (not_isAbsolute_of_plain h), ← segments_of_plain h]
  split
  · next hlead =>
    rcases hlead with rfl | hslash
    · rw [String.empty_append]
      rfl
    · obtain ⟨init, rfl⟩ := exists_of_endsInSlash hslash
      have hinit := segments_append_slash init ""
      rw [String.append_empty] at hinit
      rw [segments_append_slash, hinit]
      exact congrArg (· ++ segments name) (List.append_nil _).symm
  · exact segments_append_slash base name

theorem join_eq_append : ∃ lead, join base name = lead ++ name ∧ (IsAbsolute (lead ++ name) ↔ IsAbsolute base) := by
  rw [join, if_neg (not_isAbsolute_of_plain h)]
  by_cases hempty : base = ""
  · subst hempty
    refine ⟨"", if_pos (.inl rfl), ?_⟩
    rw [String.empty_append]
    exact iff_of_false (not_isAbsolute_of_plain h) (by decide)
  · obtain ⟨c, rest, hbase⟩ := List.exists_cons_of_ne_nil fun hnil => hempty (String.toList_eq_nil_iff.1 hnil)
    have habsolute : ∀ more : String, IsAbsolute (base ++ more) ↔ IsAbsolute base := fun more => by
      rw [IsAbsolute, IsAbsolute, String.toList_append, hbase]
      rfl
    by_cases hslash : EndsInSlash base
    · exact ⟨base, if_pos (.inr hslash), habsolute name⟩
    · refine ⟨base ++ "/", if_neg (not_or.2 ⟨hempty, hslash⟩), ?_⟩
      rw [String.append_assoc]
      exact habsolute _

theorem isAbsolute_join : IsAbsolute (join base name) ↔ IsAbsolute base := by
  obtain ⟨lead, heq, habsolute⟩ := join_eq_append base h
  rw [heq]
  exact habsolute

theorem join_ne_empty : join base name ≠ "" := by
  obtain ⟨lead, heq, -⟩ := join_eq_append base h
  rw [heq]
  intro hempty
  exact h.nonempty (String.append_eq_empty_iff.1 hempty).2

theorem not_endsInSlash_join : ¬ EndsInSlash (join base name) := by
  obtain ⟨lead, heq, -⟩ := join_eq_append base h
  have hne : name.toList ≠ [] := fun hnil => h.nonempty (String.toList_eq_nil_iff.1 hnil)
  rw [heq, EndsInSlash, String.toList_append, List.getLast?_append, List.getLast?_eq_some_getLast hne,
    Option.some_or, Option.some.injEq]
  exact fun hlast => h.whole (hlast ▸ List.getLast_mem hne)

end Join

end Path

namespace Node

/-! ## Directories that stay -/

/-- There is a directory at a place. -/
def HasDirectory (p : Place) (root : Node) : Prop := ∃ entries, get? p root = some (.directory entries)

theorem not_hasDirectory {p : Place} {root node : Node} (h : get? p root = some node) (hnode : ¬ node.IsDirectory) :
    ¬ HasDirectory p root := by
  rintro ⟨entries, hentries⟩
  rw [h, Option.some.injEq] at hentries
  rw [hentries] at hnode
  exact hnode trivial

theorem not_hasDirectory_of_none {p : Place} {root : Node} (h : get? p root = none) : ¬ HasDirectory p root := by
  rintro ⟨entries, hentries⟩
  rw [h] at hentries
  cases hentries

theorem hasDirectory_of_above {p : Place} {name : String} {rest : Place} {root node : Node}
    (h : get? (p ++ name :: rest) root = some node) : HasDirectory p root := by
  rw [get?_append] at h
  obtain ⟨above, habove, hbelow⟩ := Option.bind_eq_some_iff.1 h
  cases above with
  | directory entries => exact ⟨entries, habove⟩
  | file content => cases hbelow
  | database store => cases hbelow
  | busy => cases hbelow

theorem hasDirectory_set {p here : Place} {root : Node} (node : Node) (h : HasDirectory p root)
    (hhere : ¬ here <+: p) : HasDirectory p (set node here root) := by
  obtain ⟨entries, hget⟩ := h
  induction p generalizing here root with
  | nil =>
    cases hget
    cases here with
    | nil => exact absurd List.nil_prefix hhere
    | cons other others => exact ⟨_, rfl⟩
  | cons name rest ih =>
    cases here with
    | nil => exact absurd List.nil_prefix hhere
    | cons other others =>
      cases root with
      | directory es =>
        rw [get?_cons_directory] at hget
        obtain ⟨child, hchild, hget⟩ := Option.bind_eq_some_iff.1 hget
        unfold HasDirectory
        rw [set, get?_cons_directory]
        by_cases hname : name = other
        · subst hname
          have hothers : ¬ others <+: rest := fun hle => hhere (List.cons_prefix_cons.2 ⟨rfl, hle⟩)
          rw [Table.find?_place_self, Option.bind_some, hchild]
          exact ih hothers hget
        · rw [Table.find?_place_of_ne _ _ hname, hchild]
          exact ⟨entries, hget⟩
      | file content => cases hget
      | database store => cases hget
      | busy => cases hget

end Node

namespace Disk

/-- No directory is lost. -/
structure Spares (d after : Disk) : Prop where
  directory : after.directory = d.directory
  kept : ∀ p, Node.HasDirectory p d.root → Node.HasDirectory p after.root

theorem Spares.trans {d middle after : Disk} (h : Spares d middle) (h' : Spares middle after) : Spares d after :=
  ⟨h'.directory.trans h.directory, fun p hp => h'.kept p (h.kept p hp)⟩

theorem Grown.spares {d grown : Disk} (h : Grown d grown) : Spares d grown where
  directory := h.directory
  kept p hp := by
    obtain ⟨entries, hentries⟩ := hp
    obtain ⟨others, hothers, -⟩ := (h.root p).2 entries hentries
    exact ⟨others, hothers⟩

theorem spares_set {d : Disk} {here : Place} (h : ¬ Node.HasDirectory here d.root) (node : Node) :
    Spares d (d.set here node) where
  directory := rfl
  kept p hp := by
    refine Node.hasDirectory_set node hp ?_
    rintro ⟨rest, rfl⟩
    cases rest with
    | nil =>
      rw [List.append_nil] at hp
      exact h hp
    | cons name more =>
      obtain ⟨entries, hentries⟩ := hp
      exact h (Node.hasDirectory_of_above hentries)

/-! ## Following paths -/

theorem step_eq_ok_of_hasDirectory {d : Disk} {here : Place} (h : Node.HasDirectory here d.root) (segment : String) :
    d.step here segment =
      .ok (if segment = "." then here else if segment = ".." then here.dropLast else here ++ [segment]) := by
  obtain ⟨entries, hentries⟩ := h
  rw [step, hentries]
  simp only [Node.IsDirectory, not_true_eq_false, if_false]
  split
  · rfl
  · split <;> rfl

theorem Spares.follow {d after : Disk} (h : Spares d after) {here there : Place} {segments : List String}
    (hfollow : d.follow here segments = .ok there) : after.follow here segments = .ok there := by
  induction segments generalizing here with
  | nil => exact hfollow
  | cons segment rest ih =>
    rw [Disk.follow, List.foldlM_cons] at hfollow ⊢
    cases hstep : d.step here segment with
    | error e =>
      rw [hstep] at hfollow
      cases hfollow
    | ok next =>
      obtain ⟨hdirectory, rfl⟩ := step_eq_ok hstep
      rw [hstep] at hfollow
      rw [step_eq_ok_of_hasDirectory (h.kept here hdirectory)]
      exact ih hfollow

theorem Spares.origin {d after : Disk} (h : Spares d after) (path : String) : after.origin path = d.origin path := by
  rw [Disk.origin, Disk.origin, h.directory]

theorem place_of_ne_empty (d : Disk) {path : String} (h : path ≠ "") :
    d.place path = d.follow (d.origin path) (Path.segments path) := if_neg h

/-- A path leads to a directory. -/
structure Leads (d : Disk) (path : String) : Prop where
  follow : d.follow (d.origin path) (Path.segments path) = .ok (placeFrom d.directory path)
  hasDirectory : Node.HasDirectory (placeFrom d.directory path) d.root

theorem leads_of_follow {d : Disk} {path : String} {here : Place}
    (h : d.follow (d.origin path) (Path.segments path) = .ok here) (hdirectory : Node.HasDirectory here d.root) :
    d.Leads path := by
  have hhere : here = placeFrom d.directory path := follow_eq h
  exact ⟨hhere ▸ h, hhere ▸ hdirectory⟩

theorem Leads.place {d : Disk} {path : String} (h : d.Leads path) (hne : path ≠ "") :
    d.place path = .ok (placeFrom d.directory path) := by rw [d.place_of_ne_empty hne, h.follow]

theorem Spares.leads {d after : Disk} (h : Spares d after) {path : String} (hleads : d.Leads path) :
    after.Leads path := by
  refine leads_of_follow ?_ (h.kept _ hleads.hasDirectory)
  rw [h.origin]
  exact h.follow hleads.follow

section Join

variable {d : Disk} {base name : String} (h : Path.Plain name)

include h

theorem origin_join : d.origin (Path.join base name) = d.origin base := by
  simp only [origin, Path.isAbsolute_join base h]

variable (base) in
theorem placeFrom_join (directory : Place) :
    placeFrom directory (Path.join base name) = placeFrom directory base ++ [name] := by
  simp only [placeFrom, walk, Path.isAbsolute_join base h, Path.segments_join base h, List.foldl_append,
    List.foldl_cons, List.foldl_nil, if_neg h.notDot, if_neg h.notDots]

/-- A joined path leads one step on from a directory. -/
theorem place_join_eq_ok_iff {here : Place} : d.place (Path.join base name) = .ok here ↔
    d.Leads base ∧ here = placeFrom d.directory base ++ [name] := by
  rw [d.place_of_ne_empty (Path.join_ne_empty base h), origin_join h, Path.segments_join base h]
  constructor
  · intro hplace
    rw [Disk.follow, List.foldlM_append] at hplace
    cases hfollow : d.follow (d.origin base) (Path.segments base) with
    | error e =>
      rw [Disk.follow] at hfollow
      rw [hfollow] at hplace
      cases hplace
    | ok above =>
      have hlast : (d.step above name >>= fun there => pure there) = .ok here := by
        rw [Disk.follow] at hfollow
        rw [hfollow] at hplace
        exact hplace
      rw [bind_pure] at hlast
      obtain ⟨hdirectory, hhere⟩ := step_eq_ok hlast
      rw [if_neg h.notDot, if_neg h.notDots] at hhere
      have habove : above = placeFrom d.directory base := follow_eq hfollow
      exact ⟨leads_of_follow hfollow hdirectory, habove ▸ hhere⟩
  · rintro ⟨hleads, rfl⟩
    have hfollow := hleads.follow
    rw [Disk.follow] at hfollow
    rw [Disk.follow, List.foldlM_append, hfollow]
    show (d.step (placeFrom d.directory base) name >>= fun there => pure there) = _
    rw [bind_pure, step_eq_ok_of_hasDirectory hleads.hasDirectory, if_neg h.notDot, if_neg h.notDots]

theorem leads_join_iff : d.Leads (Path.join base name) ↔
    d.Leads base ∧ Node.HasDirectory (placeFrom d.directory base ++ [name]) d.root := by
  have hplace := d.place_of_ne_empty (Path.join_ne_empty base h)
  constructor
  · intro hleads
    have hfollow := hleads.follow
    have hdirectory := hleads.hasDirectory
    rw [placeFrom_join base h] at hdirectory
    rw [← hplace] at hfollow
    exact ⟨((place_join_eq_ok_iff h).1 hfollow).1, hdirectory⟩
  · rintro ⟨hleads, hdirectory⟩
    refine leads_of_follow ?_ hdirectory
    rw [← hplace]
    exact (place_join_eq_ok_iff h).2 ⟨hleads, rfl⟩

end Join

/-! ## Making directories -/

variable {d made : Disk} {start : Place} {segments : List String}

theorem hasDirectoryAt_iff : d.hasDirectoryAt start segments = true ↔
    ∃ here, d.follow start segments = .ok here ∧ Node.HasDirectory here d.root := by
  unfold hasDirectoryAt
  cases hfollow : d.follow start segments with
  | error e => exact iff_of_false Bool.false_ne_true fun ⟨_, h, _⟩ => nomatch h
  | ok here =>
    simp only [Except.ok.injEq, exists_eq_left', Node.HasDirectory]
    cases hget : Node.get? here d.root with
    | none => exact iff_of_false Bool.false_ne_true fun ⟨_, h⟩ => nomatch h
    | some node =>
      cases node with
      | directory entries => exact iff_of_true (decide_eq_true trivial) ⟨entries, rfl⟩
      | file content => exact iff_of_false Bool.false_ne_true fun ⟨_, h⟩ => nomatch h
      | database store => exact iff_of_false Bool.false_ne_true fun ⟨_, h⟩ => nomatch h
      | busy => exact iff_of_false Bool.false_ne_true fun ⟨_, h⟩ => nomatch h

theorem makeAt_of_hasDirectoryAt (h : d.hasDirectoryAt start segments = true) :
    d.makeAt start segments = .error .alreadyExists := by
  obtain ⟨here, hfollow, entries, hentries⟩ := hasDirectoryAt_iff.1 h
  simp [makeAt, hfollow, hentries, bind, Except.bind]

theorem makeAllAt_of_hasDirectoryAt (h : d.hasDirectoryAt start segments = true) (above : List (List String)) :
    d.makeAllAt start (segments :: above) = (.ok (), d) := by
  rw [makeAllAt, makeAt_of_hasDirectoryAt h]
  simp only [h, and_self, if_true]

theorem hasDirectoryAt_of_makeAt (hstart : segments = [] → start = []) (h : d.makeAt start segments = .ok made) :
    made.hasDirectoryAt start segments = true := by
  have hspares := (grown_makeAt h).spares
  obtain ⟨here, hfollow, hnone, rfl⟩ := makeAt_eq_ok h
  obtain ⟨above, name, entries, rfl, habove⟩ := exists_parent_of_follow hstart hfollow hnone
  exact hasDirectoryAt_iff.2 ⟨_, hspares.follow hfollow, [], Node.get?_set_concat _ habove⟩

theorem hasDirectoryAt_of_makeAllAt {above : List (List String)} (hstart : segments = [] → start = [])
    (h : d.makeAllAt start (segments :: above) = (.ok (), made)) : made.hasDirectoryAt start segments = true := by
  have hpresent : ∀ {between : Disk} {reason : IoError},
      (if reason = .alreadyExists ∧ between.hasDirectoryAt start segments then (.ok () : Except IoError Unit)
        else .error reason, between) = (.ok (), made) → made.hasDirectoryAt start segments = true := by
    intro between reason heq
    split at heq
    · next hhas =>
      cases heq
      exact hhas.2
    · cases heq
  rw [makeAllAt] at h
  split at h
  · next hmade =>
    cases h
    exact hasDirectoryAt_of_makeAt hstart hmade
  · split at h
    · cases h
    · split at h
      · next hmade =>
        cases h
        exact hasDirectoryAt_of_makeAt hstart hmade
      · exact hpresent h
  · exact hpresent h

variable {path : String}

theorem leads_iff_hasDirectoryAt : d.Leads path ↔ d.hasDirectoryAt (d.origin path) (Path.segments path) = true := by
  rw [hasDirectoryAt_iff]
  exact ⟨fun h => ⟨_, h.follow, h.hasDirectory⟩, fun ⟨_, hfollow, hdirectory⟩ => leads_of_follow hfollow hdirectory⟩

theorem makeDirectories_of_leads (h : d.Leads path) : d.makeDirectories path = (.ok (), d) :=
  makeAllAt_of_hasDirectoryAt (leads_iff_hasDirectoryAt.1 h) _

theorem leads_of_makeDirectories (hne : path ≠ "") (h : d.makeDirectories path = (.ok (), made)) : made.Leads path := by
  have hgrown := d.grown_makeDirectories path
  rw [h] at hgrown
  rw [leads_iff_hasDirectoryAt, hgrown.spares.origin]
  exact hasDirectoryAt_of_makeAllAt (origin_of_segments_eq_nil hne) h

end Disk

end Docket
