import Docket.Proofs.Table
import Docket.FileTree

/-!
# Changes of a tree

What a change at one place does to what stands at another one, and where a path leads.

* `Node.get?_set_self`, `Node.get?_set_of_apart`: the place that is set, and one apart from it.
* **`Node.Grown`**: a tree differs from another one by new directories only.
* `Node.set_set`, `Node.set_of_get?`: a place that is set again, and one that is set to what stands there.
* `Node.InOrder`, `Node.Ordered`: the names of a directory, or of all of them, are in ascending order.
* `Disk.follow_eq`: a path leads to a place that its text determines.
* **`Disk.grown_makeDirectories`**: making directories changes nothing else.
-/

namespace Docket

namespace Node

/-! ## Setting a node -/

theorem get?_cons_directory (name : String) (rest : Place) (entries : List (String × Node)) :
    get? (name :: rest) (.directory entries) = (Table.find? name entries).bind (get? rest) := by
  rw [get?]

theorem not_isDirectory_of_content? {node : Node} {content : Bytes} (h : node.content? = some content) :
    ¬ node.IsDirectory := by
  cases node with
  | directory entries => cases h
  | file | database | busy => exact id

theorem get?_emptyDirectory {p : Place} (hp : p ≠ []) : get? p emptyDirectory = none := by
  obtain ⟨name, rest, rfl⟩ := List.exists_cons_of_ne_nil hp
  rfl

theorem get?_set_of_apart (node : Node) {p q : Place} (hpq : ¬ p <+: q) (hqp : ¬ q <+: p) (root : Node) :
    get? p (set node q root) = get? p root := by
  induction p generalizing q root with
  | nil => exact absurd List.nil_prefix hpq
  | cons name rest ih =>
    cases q with
    | nil => exact absurd List.nil_prefix hqp
    | cons other others =>
      cases root with
      | directory entries =>
        rw [set, get?_cons_directory, get?_cons_directory]
        by_cases hname : name = other
        · subst hname
          have hpq : ¬ rest <+: others := fun h => hpq (List.cons_prefix_cons.2 ⟨rfl, h⟩)
          have hqp : ¬ others <+: rest := fun h => hqp (List.cons_prefix_cons.2 ⟨rfl, h⟩)
          have hrest : rest ≠ [] := fun h => hpq (h ▸ List.nil_prefix)
          rw [Table.find?_place_self, Option.bind_some, ih hpq hqp]
          cases Table.find? name entries with
          | none => exact get?_emptyDirectory hrest
          | some child => rfl
        · rw [Table.find?_place_of_ne _ _ hname]
      | file content => rfl
      | database store => rfl
      | busy => rfl

theorem get?_set_self (node : Node) {p : Place} {root : Node} (h : (get? p root).isSome) :
    get? p (set node p root) = some node := by
  induction p generalizing root with
  | nil => rfl
  | cons name rest ih =>
    cases root with
    | directory entries =>
      rw [get?_cons_directory] at h
      rw [set, get?_cons_directory, Table.find?_place_self, Option.bind_some]
      cases hchild : Table.find? name entries with
      | none =>
        rw [hchild] at h
        cases h
      | some child =>
        rw [hchild] at h
        exact ih h
    | file content => cases h
    | database store => cases h
    | busy => cases h

theorem get?_set_concat (node : Node) {p : Place} {name : String} {root : Node} {entries : List (String × Node)}
    (h : get? p root = some (.directory entries)) : get? (p ++ [name]) (set node (p ++ [name]) root) = some node := by
  induction p generalizing root with
  | nil =>
    cases h
    rw [List.nil_append, set, get?_cons_directory, Table.find?_place_self]
    rfl
  | cons first rest ih =>
    cases root with
    | directory es =>
      rw [get?_cons_directory] at h
      obtain ⟨child, hchild, h⟩ := Option.bind_eq_some_iff.1 h
      rw [List.cons_append, set, get?_cons_directory, Table.find?_place_self, Option.bind_some, hchild]
      exact ih h
    | file content => cases h
    | database store => cases h
    | busy => cases h

theorem set_set (first second : Node) (p : Place) (root : Node) :
    set second p (set first p root) = set second p root := by
  induction p generalizing root with
  | nil => rfl
  | cons name rest ih =>
    cases root with
    | directory entries =>
      rw [set, set, set, Table.find?_place_self, Option.getD_some, ih, Table.place_place]
    | file content => rfl
    | database store => rfl
    | busy => rfl

theorem get?_append (p q : Place) (root : Node) : get? (p ++ q) root = (get? p root).bind (get? q) := by
  induction p generalizing root with
  | nil => rfl
  | cons name rest ih =>
    cases root with
    | directory entries =>
      rw [List.cons_append, get?_cons_directory, get?_cons_directory]
      cases Table.find? name entries with
      | none => rfl
      | some child => exact ih child
    | file content => rfl
    | database store => rfl
    | busy => rfl

/-- What is no directory stands above nothing. -/
theorem not_above_of_get? {p q : Place} {root node other : Node} (hp : get? p root = some node)
    (hnode : ¬ node.IsDirectory) (hq : get? q root = some other) (hother : other.IsDirectory) : ¬ p <+: q := by
  rintro ⟨rest, rfl⟩
  rw [get?_append, hp, Option.bind_some] at hq
  cases rest with
  | nil =>
    cases hq
    exact hnode hother
  | cons name more =>
    cases node with
    | directory entries => exact hnode trivial
    | file content => cases hq
    | database store => cases hq
    | busy => cases hq

/-! ## New directories -/

/-- A tree differs from another one by new directories only: what is no directory stands where it stood, and
every directory is still there, in order if it was. -/
def Grown (root grown : Node) : Prop :=
  ∀ p, (∀ node, ¬ node.IsDirectory → (get? p grown = some node ↔ get? p root = some node)) ∧
    ∀ entries, get? p root = some (.directory entries) →
      ∃ others, get? p grown = some (.directory others) ∧ (Ascending entries → Ascending others)

theorem Grown.refl (root : Node) : Grown root root := fun _ => ⟨fun _ _ => Iff.rfl, fun es h => ⟨es, h, id⟩⟩

theorem Grown.trans {root middle grown : Node} (h : Grown root middle) (h' : Grown middle grown) :
    Grown root grown := fun p => by
  refine ⟨fun node hnode => ((h' p).1 node hnode).trans ((h p).1 node hnode), fun entries hentries => ?_⟩
  obtain ⟨others, hothers, hascending⟩ := (h p).2 entries hentries
  obtain ⟨more, hmore, hascending'⟩ := (h' p).2 others hothers
  exact ⟨more, hmore, fun ha => hascending' (hascending ha)⟩

theorem isDirectory_of_get?_set_emptyDirectory {p q : Place} {node : Node}
    (h : get? p (set emptyDirectory q emptyDirectory) = some node) : node.IsDirectory := by
  induction q generalizing p with
  | nil =>
    cases p with
    | nil =>
      cases h
      trivial
    | cons name rest => cases h
  | cons other others ih =>
    cases p with
    | nil =>
      cases h
      trivial
    | cons name rest =>
      rw [emptyDirectory, set, get?_cons_directory] at h
      by_cases hname : name = other
      · subst hname
        rw [Table.find?_place_self] at h
        exact ih h
      · rw [Table.find?_place_of_ne _ _ hname] at h
        cases h

theorem grown_set_emptyDirectory {here : Place} {root : Node} (h : get? here root = none) :
    Grown root (set emptyDirectory here root) := by
  induction here generalizing root with
  | nil => cases h
  | cons other others ih =>
    cases root with
    | directory entries =>
      rw [get?_cons_directory] at h
      rw [set]
      intro p
      cases p with
      | nil =>
        refine ⟨fun node hnode => ?_, fun es hes => ⟨_, rfl, fun ha => ?_⟩⟩
        · constructor <;> rintro ⟨⟩ <;> exact absurd trivial hnode
        · cases hes
          exact Table.ascending_place ha
      | cons name rest =>
        rw [get?_cons_directory, get?_cons_directory]
        by_cases hname : name = other
        · subst hname
          rw [Table.find?_place_self, Option.bind_some]
          cases hchild : Table.find? name entries with
          | none =>
            refine ⟨fun node hnode => ⟨fun hget => ?_, fun hget => ?_⟩, fun es hes => ?_⟩
            · exact absurd (isDirectory_of_get?_set_emptyDirectory hget) hnode
            · cases hget
            · cases hes
          | some child =>
            rw [hchild] at h
            exact ih h rest
        · rw [Table.find?_place_of_ne _ _ hname]
          exact ⟨fun _ _ => Iff.rfl, fun es hes => ⟨es, hes, id⟩⟩
    | file content => exact .refl _
    | database store => exact .refl _
    | busy => exact .refl _

/-! ## Order -/

/-- The names of a directory are in ascending order, if it is there. -/
def InOrder (p : Place) (root : Node) : Prop := ∀ entries, get? p root = some (.directory entries) → Ascending entries

theorem inOrder_set {node : Node} (hnode : ∀ p, InOrder p node) {p : Place} {root : Node} (h : InOrder p root)
    (here : Place) : InOrder p (set node here root) := by
  induction here generalizing p root with
  | nil => exact hnode p
  | cons other others ih =>
    cases root with
    | directory entries =>
      intro es hget
      cases p with
      | nil =>
        cases hget
        exact Table.ascending_place (h entries rfl)
      | cons name rest =>
        rw [set, get?_cons_directory] at hget
        by_cases hname : name = other
        · subst hname
          rw [Table.find?_place_self, Option.bind_some] at hget
          refine ih (fun es' hes => ?_) es hget
          cases hchild : Table.find? name entries with
          | none =>
            rw [hchild] at hes
            cases rest with
            | nil =>
              cases hes
              exact List.Pairwise.nil
            | cons second more => cases hes
          | some child =>
            rw [hchild] at hes
            refine h es' ?_
            rw [get?_cons_directory, hchild]
            exact hes
        · rw [Table.find?_place_of_ne _ _ hname, ← get?_cons_directory] at hget
          exact h es hget
    | file content => exact h
    | database store => exact h
    | busy => exact h

/-- The names of every directory are in ascending order. -/
def Ordered (root : Node) : Prop := ∀ p, InOrder p root

theorem Ordered.set {node root : Node} (h : root.Ordered) (hnode : node.Ordered) (here : Place) :
    (set node here root).Ordered := fun p => inOrder_set hnode (h p) here

theorem ordered_directory {entries : List (String × Node)} (h : Ascending entries)
    (hchildren : ∀ name child, Table.find? name entries = some child → child.Ordered) :
    Ordered (.directory entries) := fun p es hes => by
  cases p with
  | nil =>
    cases hes
    exact h
  | cons name rest =>
    rw [get?_cons_directory] at hes
    obtain ⟨child, hchild, hes⟩ := Option.bind_eq_some_iff.1 hes
    exact hchildren name child hchild rest es hes

theorem Ordered.of_get? {node root : Node} (h : root.Ordered) {p : Place} (hget : get? p root = some node) :
    node.Ordered := fun q es hes => by
  refine h (p ++ q) es ?_
  rw [get?_append, hget]
  exact hes

theorem set_of_get? {node root : Node} (h : root.Ordered) {p : Place} (hget : get? p root = some node) :
    Node.set node p root = root := by
  induction p generalizing root with
  | nil =>
    cases hget
    rfl
  | cons name rest ih =>
    cases root with
    | directory entries =>
      rw [get?_cons_directory] at hget
      obtain ⟨child, hchild, hget⟩ := Option.bind_eq_some_iff.1 hget
      have hbelow : child.Ordered := h.of_get? (p := [name]) (by rw [get?_cons_directory, hchild]; rfl)
      rw [Node.set, hchild, Option.getD_some, ih hbelow hget, Table.place_of_find? (h [] entries rfl) hchild]
    | file content => cases hget
    | database store => cases hget
    | busy => cases hget

theorem isDirectory_of_get? {p : Place} {node : Node} {entries : List (String × Node)}
    (h : get? p node = some (.directory entries)) : node.IsDirectory := by
  cases node with
  | directory es => trivial
  | file content => cases p <;> cases h
  | database store => cases p <;> cases h
  | busy => cases p <;> cases h

theorem inOrder_of_not_isDirectory {node : Node} (h : ¬ node.IsDirectory) (p : Place) : InOrder p node :=
  fun _ hentries => absurd (isDirectory_of_get? hentries) h

theorem inOrder_emptyDirectory (p : Place) : InOrder p emptyDirectory := fun entries hentries => by
  cases p with
  | nil =>
    cases hentries
    exact List.Pairwise.nil
  | cons name rest => cases hentries

end Node

namespace Disk

/-! ## Paths -/

/-- Where segments lead, if everything on the way is there. -/
def walk (here : Place) (segments : List String) : Place :=
  segments.foldl (fun here segment =>
    if segment = "." then here else if segment = ".." then here.dropLast else here ++ [segment]) here

/-- The place of a path, seen from a working directory. -/
def placeFrom (directory : Place) (path : String) : Place :=
  walk (if Path.IsAbsolute path then [] else directory) (Path.segments path)

theorem step_eq_ok {d : Disk} {here there : Place} {segment : String} (h : d.step here segment = .ok there) :
    (∃ entries, Node.get? here d.root = some (.directory entries)) ∧
      there = if segment = "." then here else if segment = ".." then here.dropLast else here ++ [segment] := by
  unfold step at h
  split at h
  · cases h
  · next node hnode =>
    split at h
    · cases h
    · next hdirectory =>
      rw [not_not] at hdirectory
      refine ⟨?_, ?_⟩
      · cases node with
        | directory entries => exact ⟨entries, hnode⟩
        | file content => exact absurd hdirectory id
        | database store => exact absurd hdirectory id
        | busy => exact absurd hdirectory id
      · split at h
        · next hdot =>
          cases h
          rw [if_pos hdot]
        · next hdot =>
          split at h
          · next hdots =>
            cases h
            rw [if_neg hdot, if_pos hdots]
          · next hdots =>
            cases h
            rw [if_neg hdot, if_neg hdots]

/-- A path leads to a place that its text determines. -/
theorem follow_eq {d : Disk} {here there : Place} {segments : List String}
    (h : d.follow here segments = .ok there) : there = walk here segments := by
  induction segments generalizing here with
  | nil =>
    cases h
    rfl
  | cons segment rest ih =>
    rw [follow, List.foldlM_cons] at h
    cases hstep : d.step here segment with
    | error e =>
      rw [hstep] at h
      cases h
    | ok next =>
      rw [hstep] at h
      rw [ih h, (step_eq_ok hstep).2]
      rfl

theorem place_eq {d : Disk} {path : String} {there : Place} (h : d.place path = .ok there) :
    there = placeFrom d.directory path := by
  unfold place at h
  split at h
  · cases h
  · exact follow_eq h

theorem get?_dropLast_isSome {p : Place} {root : Node} (h : (Node.get? p root).isSome) :
    (Node.get? p.dropLast root).isSome := by
  rcases List.eq_nil_or_concat p with rfl | ⟨init, last, rfl⟩
  · exact h
  · rw [List.concat_eq_append, Node.get?_append] at h
    rw [List.concat_eq_append, List.dropLast_concat]
    cases hinit : Node.get? init root with
    | none =>
      rw [hinit] at h
      cases h
    | some node => rfl

theorem isAbsolute_of_segments_eq_nil {path : String} (hne : path ≠ "") (h : Path.segments path = []) :
    Path.IsAbsolute path := by
  unfold Path.IsAbsolute
  unfold Path.segments at h
  cases hlist : path.toList with
  | nil => exact absurd (String.toList_eq_nil_iff.1 hlist) hne
  | cons c rest =>
    rw [List.map_eq_nil_iff, hlist] at h
    by_cases hc : c = '/'
    · rw [hc]
      rfl
    · rw [Path.pieces, if_neg hc] at h
      cases hpieces : Path.pieces rest with
      | nil => simp [hpieces] at h
      | cons piece others => simp [hpieces] at h

/-- Segments that name nothing yet name it in a directory. -/
theorem exists_parent_of_follow {d : Disk} {start here : Place} {segments : List String}
    (hstart : segments = [] → start = []) (h : d.follow start segments = .ok here) (hnone : Node.get? here d.root = none) :
    ∃ above name entries, here = above ++ [name] ∧ Node.get? above d.root = some (.directory entries) := by
  rcases List.eq_nil_or_concat segments with rfl | ⟨init, last, rfl⟩
  · rw [hstart rfl] at h
    cases h
    cases hnone
  · rw [List.concat_eq_append, follow, List.foldlM_append] at h
    obtain ⟨middle, hstep⟩ : ∃ middle, d.step middle last = .ok here := by
      cases hinit : List.foldlM d.step start init with
      | error e =>
        rw [hinit] at h
        cases h
      | ok middle =>
        rw [hinit] at h
        have hlast : (d.step middle last >>= fun there => pure there) = .ok here := h
        rw [bind_pure] at hlast
        exact ⟨middle, hlast⟩
    obtain ⟨⟨entries, hentries⟩, hhere⟩ := step_eq_ok hstep
    split at hhere
    · rw [hhere, hentries] at hnone
      cases hnone
    · split at hhere
      · have hmiddle : (Node.get? middle d.root).isSome := by
          rw [hentries]
          rfl
        have hsome := get?_dropLast_isSome hmiddle
        rw [← hhere, hnone] at hsome
        cases hsome
      · exact ⟨middle, last, entries, hhere, hentries⟩

theorem origin_of_segments_eq_nil {d : Disk} {path : String} (hne : path ≠ "") (h : Path.segments path = []) :
    d.origin path = [] := if_pos (isAbsolute_of_segments_eq_nil hne h)

theorem exists_parent_of_place {d : Disk} {path : String} {here : Place} (h : d.place path = .ok here)
    (hnone : Node.get? here d.root = none) :
    ∃ above name entries, here = above ++ [name] ∧ Node.get? above d.root = some (.directory entries) := by
  unfold place at h
  split at h
  · cases h
  · next hne => exact exists_parent_of_follow (origin_of_segments_eq_nil hne) h hnone

/-! ## Making directories -/

/-- A disk differs from another one by new directories only, and these are in order. -/
structure Grown (d grown : Disk) : Prop where
  root : Node.Grown d.root grown.root
  directory : grown.directory = d.directory
  order : ∀ p, Node.InOrder p d.root → Node.InOrder p grown.root

theorem Grown.refl (d : Disk) : Grown d d := ⟨.refl _, rfl, fun _ => id⟩

theorem Grown.trans {d middle grown : Disk} (h : Grown d middle) (h' : Grown middle grown) : Grown d grown :=
  ⟨h.root.trans h'.root, h'.directory.trans h.directory, fun p hp => h'.order p (h.order p hp)⟩

theorem makeAt_eq_ok {d made : Disk} {start : Place} {segments : List String}
    (h : d.makeAt start segments = .ok made) :
    ∃ here, d.follow start segments = .ok here ∧ Node.get? here d.root = none ∧ made = d.set here .emptyDirectory := by
  unfold makeAt at h
  cases hfollow : d.follow start segments with
  | error e =>
    rw [hfollow] at h
    cases h
  | ok here =>
    rw [hfollow] at h
    cases hget : Node.get? here d.root with
    | some node => simp [bind, Except.bind, hget] at h
    | none =>
      simp only [bind, Except.bind, hget, Except.ok.injEq] at h
      exact ⟨here, rfl, hget, h.symm⟩

theorem grown_makeAt {d made : Disk} {start : Place} {segments : List String}
    (h : d.makeAt start segments = .ok made) : Grown d made := by
  obtain ⟨here, -, hget, rfl⟩ := makeAt_eq_ok h
  exact ⟨Node.grown_set_emptyDirectory hget, rfl, fun _ hp => Node.inOrder_set Node.inOrder_emptyDirectory hp here⟩

theorem grown_makeAllAt (d : Disk) (start : Place) (ways : List (List String)) :
    Grown d (d.makeAllAt start ways).2 := by
  induction ways generalizing d with
  | nil => exact .refl d
  | cons segments above ih =>
    rw [makeAllAt]
    split
    · next made hmade => exact grown_makeAt hmade
    · split
      · next habove => exact habove ▸ ih d
      · next between habove =>
        have hbetween : Grown d between := by
          have hgrown := ih d
          rw [habove] at hgrown
          exact hgrown
        split
        · next made hmade => exact hbetween.trans (grown_makeAt hmade)
        · exact hbetween
    · exact .refl d

/-- **Making directories changes nothing else.** -/
theorem grown_makeDirectories (d : Disk) (path : String) : Grown d (d.makeDirectories path).2 :=
  grown_makeAllAt d _ _

end Disk

end Docket
