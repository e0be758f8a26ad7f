import Docket.Cli.Command

/-!
# A shell

Commands are given one a line, as JSON lists of words, and share one disk. A line that is a JSON map writes
files: it holds a text for each path.

* `Cli.Shell.answer`: what is printed for a line, and the disk afterwards.
-/

namespace Docket.Cli.Shell

/-- The words of a list. -/
def words? : List Json → Option (List String)
  | [] => some []
  | .str s :: rest => (words? rest).map (s :: ·)
  | _ :: _ => none

/-- The files of a map. -/
def files? : List (String × Json) → Option (List (String × String))
  | [] => some []
  | (path, .str s) :: rest => (files? rest).map ((path, s) :: ·)
  | _ :: _ => none

/-- What a failure prints: its links, the outermost first. -/
def failureText (e : Failure) : String := "error: " ++ ": ".intercalate (e.chain.map Link.message)

/-- Runs a command. -/
def command (d : Disk) (words : List String) : String × Disk :=
  match Invocation.parse words with
  | .error e => (e.message, d)
  | .ok invocation =>
    match invocation.run d with
    | (.ok text, d) => (text, d)
    | (.error e, d) => (failureText e, d)

/-- Writes files, up to the first that cannot be written. -/
def write (d : Disk) : List (String × String) → String × Disk
  | [] => ("", d)
  | (path, text) :: rest =>
    match d.writeWithParents path (Text.bytes text) with
    | (.error reason, d) => ("error: " ++ path ++ ": " ++ reason.name, d)
    | (.ok (), d) => write d rest

/-- What is printed for a line. -/
def answer (d : Disk) (line : String) : String × Disk :=
  let request := match Json.ofText? line with
    | some (.arr items) => (words? items).map (command d)
    | some (.obj entries) => (files? entries).map (write d)
    | _ => none
  request.getD ("error: a line holds a list of words or a map of files", d)

end Docket.Cli.Shell
