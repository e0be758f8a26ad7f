import Docket.Cli.Failure
import Docket.Cli.Report
import Docket.Selector.Check

/-!
# Running commands

A command reads its arguments, opens the layout it is told, does one thing and closes the layout again. The
disk afterwards is answered in any case.

* `Cli.Invocation.run`: what a command prints, or why it failed, and the disk afterwards.
-/

namespace Docket.Cli

/-- The outcome of a command. -/
abbrev Outcome := Except Failure String

/-- The canonical form of a selector. -/
def normalize (text : String) : Outcome :=
  match Value.ofText? text with
  | none => .error (.notJson "selector")
  | some raw =>
    match Selector.canonical raw with
    | .error r => .error (.rejected r)
    | .ok v => .ok v.toJson.indented

/-- The layout of an invocation. A configuration file goes before a root. -/
def layout (d : Disk) (root config : Option String) : Except Failure Config :=
  match config, root with
  | some path, _ =>
    match Config.load d path with
    | .error e => .error (.config path e)
    | .ok c => .ok c
  | none, some root => .ok (.under root)
  | none, none => .ok .standard

/-- The current revision of a document that has to be there. -/
def current (v : Vault) (document : String) : Except Failure Revision :=
  match v.store.get document with
  | .error e => .error (.store e)
  | .ok none => .error (.noDocument document)
  | .ok (some r) => .ok r

/-- Something done to a vault. -/
abbrev Action := FileOpener → Vault → Outcome × Vault

/-- Something done to the current revision of a document. -/
def onCurrent (document : String) (f : Revision → Action) : Action := fun opener v =>
  match current v document with
  | .error e => (.error e, v)
  | .ok r => f r opener v

/-- A new document. -/
def Action.create (format : Format) (document : String) (body : Json) : Action := fun _ v =>
  match v.store.create document body with
  | .error e => (.error (.store e), v)
  | .ok (r, store) => (.ok (format.revision r), { v with store })

/-- The outcome of a change of attachments. -/
def changed (format : Format) : Except AttachmentError Revision × Vault → Outcome × Vault
  | (.error e, v) => (.error (.attachments e), v)
  | (.ok r, v) => (.ok (format.revision r), v)

/-- A new attachment. -/
def Action.attach (format : Format) (document file name mediaType : String) : Action :=
  onCurrent document fun r opener v =>
    changed format (v.addAll opener r [⟨name, mediaType, .file file⟩])

/-- The attachments of a document. -/
def Action.list (format : Format) (document : String) : Action :=
  onCurrent document fun r _ v =>
    match v.attachments r with
    | .error e => (.error (.attachments e), v)
    | .ok as => (.ok (format.attachments as), v)

/-- Fewer attachments. -/
def Action.remove (format : Format) (document : String) (names : List String) : Action :=
  onCurrent document fun r _ v => changed format (v.remove r names)

/-- A collection. -/
def Action.collect (format : Format) : Action := fun _ v =>
  match v.collect with
  | (.error e, v) => (.error (.attachments e), v)
  | (.ok report, v) => (.ok (format.report report), v)

/-- What a command does to a vault, once its arguments are read. -/
def Command.action (format : Format) : Command → Except Failure Action
  | .normalize text => .ok fun _ v => (Cli.normalize text, v)
  | .create document body =>
    match Json.ofText? body with
    | none => .error (.notJson "body")
    | some body => .ok (Action.create format document body)
  | .attach document file name mediaType =>
    match name.or (Path.fileName? file) with
    | none => .error (.noFileName file)
    | some name => .ok (Action.attach format document file name mediaType)
  | .list document => .ok (Action.list format document)
  | .remove document names => .ok (Action.remove format document names)
  | .collect => .ok (Action.collect format)

/-- Does something to the vault of a layout. -/
def within (d : Disk) (config : Config) (action : Action) : Outcome × Disk :=
  match Session.open? d config with
  | (.error e, d) => (.error (.opening config.root e), d)
  | (.ok s, _) =>
    let (outcome, s) := s.run action
    (outcome, s.close)

/-- Runs a command. Only `normalize` needs no store. -/
def Invocation.run (i : Invocation) (d : Disk) : Outcome × Disk :=
  match i.command with
  | .normalize text => (normalize text, d)
  | command =>
    match command.action i.format with
    | .error e => (.error e, d)
    | .ok action =>
      match layout d i.root i.config with
      | .error e => (.error e, d)
      | .ok config => within d config action

end Docket.Cli
