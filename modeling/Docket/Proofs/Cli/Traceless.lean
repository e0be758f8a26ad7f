import Docket.Proofs.Cli.Containment
import Docket.Proofs.Cli.Options
import Docket.Proofs.Cli.Runs
import Docket.Proofs.Session.Reopening

/-!
# Failed commands leave no trace

Commands with one root are run one after another, and some of those that failed are struck out of the list. The others
are replied to as before. The only difference can be the reason for which the root could not be made, where it never can
be: directories that the first attempt made on the way stay, and the second one may get further.

* `Cli.replies`: the replies to a list of marked commands.
* `Layout.Agree.within`: an action on two disks on which a layout is opened alike.
* `Layout.Agree.replies_unmarked`: the same over a list of commands.
* **`replies_without_failures`**: the replies without those that failed.
-/

namespace Docket

namespace Cli

/-! ## Lists of commands -/

/-- The replies to commands, one after another, each with the mark of its command. -/
def replies (d : Disk) : List (List String × Bool) → List (Reply × Bool)
  | [] => []
  | (words, mark) :: rest => ((respond d words).1, mark) :: replies (respond d words).2 rest

/-- Those that are not marked. -/
def unmarked {α : Type} (xs : List (α × Bool)) : List (α × Bool) := xs.filter fun x => !x.2

/-- Words that ask for something to be done under this root, if they can be read. -/
def AtRoot (root : String) (words : List String) : Prop :=
  ∀ i, Invocation.parse words = .ok i → i.root = some root ∧ i.config = none

/-- What is told of a reply if this is told of a store that could not be opened. -/
def Reply.retold (told : OpenError → OpenError) : Reply → Reply
  | .error (.failure (.opening root e)) => .error (.failure (.opening root (told e)))
  | reply => reply

/-- The reply without the reason for which a directory of the documents could not be made. -/
def Reply.blurred : Reply → Reply := Reply.retold OpenError.blurred

theorem Reply.retold_id (reply : Reply) : reply.retold id = reply := by
  unfold retold
  split <;> rfl

/-- Words are replied to whatever the disk is, or they ask for an action in a session. -/
theorem AtRoot.respond_cases {root : String} {words : List String} (h : AtRoot root words) :
    (∃ reply, ∀ d, respond d words = (reply, d)) ∨
      root ≠ "" ∧ ∃ action : Action, (∀ opener v, Contained v (action opener v)) ∧ ∀ d, respond d words =
        ((within d (.under root) action).1.mapError .failure, (within d (.under root) action).2) := by
  unfold respond
  cases hparse : Invocation.parse words with
  | error e => exact .inl ⟨.error (.usage e), fun _ => rfl⟩
  | ok i =>
    obtain ⟨hroot, hconfig⟩ := h i hparse
    rcases Invocation.run_cases hroot hconfig with ⟨text, htext⟩ | ⟨e, he⟩ | ⟨action, haction, hrun⟩
    · exact .inl ⟨(normalize text).mapError .failure, fun d => by simp only [Invocation.run, htext]⟩
    · refine .inl ⟨.error (.failure e), fun d => ?_⟩
      simp only [he]
      rfl
    · refine .inr ⟨Invocation.root_ne_empty hparse hroot, action, fun _ _ => Command.contained haction, fun d => ?_⟩
      simp only [hrun]

end Cli

namespace Layout

open Cli

variable {told : OpenError → OpenError} {root : String} {d d' : Disk}

/-! ## One command -/

/-- An action on two disks on which a layout is opened alike. Where it fails, its disk still agrees with the other one. -/
theorem Agree.within (h : Agree told root d d') {action : Action}
    (hcontained : ∀ opener v, Contained v (action opener v)) :
    Reply.retold told ((Cli.within d (.under root) action).1.mapError .failure) =
        Reply.retold told ((Cli.within d' (.under root) action).1.mapError .failure) ∧
      Agree told root (Cli.within d (.under root) action).2 (Cli.within d' (.under root) action).2 ∧
      ∀ e, (Cli.within d (.under root) action).1 = .error e → Agree told root (Cli.within d (.under root) action).2 d' := by
  cases h with
  | opens s hordered h h' =>
    have hdone := hcontained s.opener s.vault
    have hclosed := ordered_close hordered h fun name child hchild => (hdone.directories name child hchild).1
    have hstands := ((launched_of_open? h).close (hordered _) fun name child hchild =>
      (hdone.directories name child hchild).2).2
    rw [within_of_ok h, within_of_ok h']
    refine ⟨rfl, hstands.agree hclosed told, fun e he => ?_⟩
    obtain ⟨hstore, hentries⟩ := hdone.failed e he
    exact .opens s hclosed (open?_close hordered h hstore hentries) h'
  | fails failure h h' =>
    obtain ⟨first, after, hopen, hfirst, hagain⟩ := h.again
    obtain ⟨first', after', hopen', hfirst', hagain'⟩ := h'.again
    rw [within_of_error hopen, within_of_error hopen']
    refine ⟨?_, .fails _ hagain hagain', fun _ _ => .fails _ hagain h'⟩
    show Except.error (Refusal.failure (.opening root (told first))) = .error (.failure (.opening root (told first')))
    rw [hfirst, hfirst']

/-- The words of a command on two disks on which the layout of its root is opened alike. Nothing needs to be known of an
empty root, since no command has it. -/
theorem Agree.respond (h : root ≠ "" → Agree told root d d') {words : List String} (hwords : AtRoot root words) :
    Reply.retold told (Cli.respond d words).1 = Reply.retold told (Cli.respond d' words).1 ∧
      (root ≠ "" → Agree told root (Cli.respond d words).2 (Cli.respond d' words).2) ∧
      ∀ e, (Cli.respond d words).1 = .error e → root ≠ "" → Agree told root (Cli.respond d words).2 d' := by
  rcases hwords.respond_cases with ⟨reply, hreply⟩ | ⟨hne, action, hcontained, hrun⟩
  · rw [hreply, hreply]
    exact ⟨rfl, h, fun _ _ => h⟩
  · obtain ⟨hsame, hagree, hfailed⟩ := (h hne).within hcontained
    rw [hrun, hrun]
    refine ⟨hsame, fun _ => hagree, fun e he _ => ?_⟩
    cases houtcome : (Cli.within d (.under root) action).1 with
    | error failure => exact hfailed failure houtcome
    | ok text =>
      rw [houtcome] at he
      cases he

/-! ## Lists of commands -/

theorem Agree.replies_unmarked (h : root ≠ "" → Agree told root d d') {commands : List (List String × Bool)}
    (hroot : ∀ c ∈ commands, AtRoot root c.1)
    (hfailed : ∀ x ∈ replies d commands, x.2 = true → ∃ e, x.1 = .error e) :
    (unmarked (replies d commands)).map (Prod.map (Reply.retold told) id) =
      (replies d' (unmarked commands)).map (Prod.map (Reply.retold told) id) := by
  induction commands generalizing d d' with
  | nil => rfl
  | cons command rest ih =>
    obtain ⟨words, mark⟩ := command
    rw [List.forall_mem_cons] at hroot
    rw [replies, List.forall_mem_cons] at hfailed
    obtain ⟨hsame, hboth, hone⟩ := Agree.respond h hroot.1
    cases mark with
    | true =>
      obtain ⟨e, he⟩ := hfailed.1 rfl
      exact ih (hone e he) hroot.2 hfailed.2
    | false =>
      have hlater := ih hboth hroot.2 hfailed.2
      show (Reply.retold told (Cli.respond d words).1, false) :: _ = (Reply.retold told (Cli.respond d' words).1, false) :: _
      rw [hsame]
      exact congrArg _ hlater

end Layout

namespace Cli

/-- **The replies without those that failed.** Commands that failed are struck out of a list of commands with one root. If
the root can be made, or its path does not step up, the others are replied to as before. In any case they are but for the
reason for which a directory of the documents could not be made. -/
theorem replies_without_failures {d : Disk} (hordered : d.root.Ordered) {root : String}
    {commands : List (List String × Bool)} (hroot : ∀ c ∈ commands, AtRoot root c.1)
    (hfailed : ∀ x ∈ replies d commands, x.2 = true → ∃ e, x.1 = .error e) :
    (".." ∉ Path.segments root ∨ (d.makeDirectories root).1 = .ok () →
      unmarked (replies d commands) = replies d (unmarked commands)) ∧
    (unmarked (replies d commands)).map (Prod.map Reply.blurred id) =
      (replies d (unmarked commands)).map (Prod.map Reply.blurred id) := by
  refine ⟨fun hreach => ?_, ?_⟩
  · have hsame : root ≠ "" → Layout.Agree id root d d := fun hne => Layout.agree_self hordered fun e after hopen => by
      obtain ⟨second, hsecond, -, heq⟩ := Layout.open?_again hne hopen
      exact ⟨second, hsecond, heq hreach⟩
    have hreplies := Layout.Agree.replies_unmarked hsame hroot hfailed
    have hid : Prod.map (Reply.retold id) (id : Bool → Bool) = id := funext fun x => by
      rw [Prod.map, Reply.retold_id]
      rfl
    rw [hid, List.map_id, List.map_id] at hreplies
    exact hreplies
  · refine Layout.Agree.replies_unmarked (fun hne => Layout.agree_self hordered fun e after hopen => ?_) hroot hfailed
    obtain ⟨second, hsecond, hblurred, -⟩ := Layout.open?_again hne hopen
    exact ⟨second, hsecond, hblurred⟩

/-! ## Failures between commands that succeed, and a root that leads through a file -/

theorem atRoot_of_parse {root : String} {words : List String} {i : Invocation} (hparse : Invocation.parse words = .ok i)
    (hroot : i.root = some root) (hconfig : i.config = none) : AtRoot root words := fun j hj => by
  rw [hparse] at hj
  cases hj
  exact ⟨hroot, hconfig⟩

theorem exists_of_not_isOk {reply : Reply} (h : reply.isOk = false) : ∃ e, reply = .error e := by
  cases reply with
  | error e => exact ⟨e, rfl⟩
  | ok text => cases h

theorem ordered_single {name : String} {child : Node} (h : child.Ordered) :
    (Node.directory [(name, child)]).Ordered := by
  refine Node.ordered_directory (List.pairwise_singleton ..) fun other found hfound => ?_
  obtain ⟨-, rfl⟩ := Prod.mk.inj (List.mem_singleton.1 ((Table.find?_eq_some_iff (List.pairwise_singleton ..)).1 hfound))
  exact h

theorem ordered_file (content : Bytes) : (Node.file content).Ordered := Node.inOrder_of_not_isDirectory id

/-- A document is asked for before it is made, and then a file is attached that is not there. -/
def interspersed : List (List String × Bool) :=
  [(["ls", "--root", "data", "--doc", "a"], true), (["create", "--root", "data", "--doc", "a"], false),
    (["attach", "--root", "data", "--doc", "a", "--file", "missing"], true), (["collect", "--root", "data"], false)]

theorem atRoot_interspersed : ∀ c ∈ interspersed, AtRoot "data" c.1 := by
  simp only [interspersed, List.forall_mem_cons, List.not_mem_nil, false_imp_iff, implies_true, and_true]
  refine ⟨?_, ?_, ?_, ?_⟩
  · exact atRoot_of_parse (i := ⟨some "data", none, .table, .list "a"⟩) (by decide +kernel) rfl rfl
  · exact atRoot_of_parse (i := ⟨some "data", none, .table, .create "a" "\x7b\x7d"⟩) (by decide +kernel) rfl rfl
  · exact atRoot_of_parse (i := ⟨some "data", none, .table, .attach "a" "missing" none defaultMediaType⟩)
      (by decide +kernel) rfl rfl
  · exact atRoot_of_parse (i := ⟨some "data", none, .table, .collect⟩) (by decide +kernel) rfl rfl

theorem replies_without_failures_interspersed : beside.root.Ordered ∧ (∀ c ∈ interspersed, AtRoot "data" c.1) ∧
    (∀ x ∈ replies beside interspersed, x.2 = true → ∃ e, x.1 = .error e) ∧
    unmarked (replies beside interspersed) = replies beside (unmarked interspersed) := by
  have hordered : beside.root.Ordered := ordered_single (ordered_single (ordered_file _))
  have hfailed : ∀ x ∈ replies beside interspersed, x.2 = true → x.1.isOk = false := by decide +kernel
  have hfailed : ∀ x ∈ replies beside interspersed, x.2 = true → ∃ e, x.1 = .error e := fun x hx hmark =>
    exists_of_not_isOk (hfailed x hx hmark)
  have hdots : ".." ∉ Path.segments "data" := by decide +kernel
  exact ⟨hordered, atRoot_interspersed, hfailed,
    (replies_without_failures hordered atRoot_interspersed hfailed).1 (.inl hdots)⟩

/-- A disk with a file in the working directory. -/
def withFile : Disk := ⟨.directory [("work", .directory [("f", .file [])])], ["work"]⟩

/-- Twice the same, under a root that steps up from a directory that is not there and leads through the file. -/
def barred : List (List String × Bool) :=
  [(["--root", "new/../f/x", "collect"], true), (["--root", "new/../f/x", "collect"], false)]

/-- The root could not be made for this reason. -/
def unmade (reason : IoError) : Reply := .error (.failure (.opening "new/../f/x" (.documents (.io reason))))

theorem replies_barred : replies withFile barred = [(unmade .alreadyExists, true), (unmade .notADirectory, false)] := by
  rfl

theorem replies_unmarked_barred : replies withFile (unmarked barred) = [(unmade .alreadyExists, false)] := by
  rfl

/-- The first attempt makes the directory that the root steps up from, and so the second one gets further. -/
theorem failure_leaves_trace : withFile.root.Ordered ∧ (∀ c ∈ barred, AtRoot "new/../f/x" c.1) ∧
    (∀ x ∈ replies withFile barred, x.2 = true → ∃ e, x.1 = .error e) ∧
    unmarked (replies withFile barred) ≠ replies withFile (unmarked barred) := by
  have hcollect : AtRoot "new/../f/x" ["--root", "new/../f/x", "collect"] :=
    atRoot_of_parse (i := ⟨some "new/../f/x", none, .table, .collect⟩) (by decide +kernel) rfl rfl
  refine ⟨ordered_single (ordered_single (ordered_file _)), ?_, ?_, ?_⟩
  · simp only [barred, List.forall_mem_cons, List.not_mem_nil, false_imp_iff, implies_true, and_true]
    exact ⟨hcollect, hcollect⟩
  · rw [replies_barred]
    simp only [List.forall_mem_cons, List.not_mem_nil, false_imp_iff, implies_true, and_true]
    exact ⟨fun _ => ⟨_, rfl⟩, fun hmark => nomatch hmark⟩
  · rw [replies_barred, replies_unmarked_barred]
    intro h
    cases h

end Cli

end Docket
