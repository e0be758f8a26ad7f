import Docket.Cli.Shell

/-!
# The program

With arguments it runs one command; without, it is a shell over its standard input.
-/

namespace Docket.Cli

/-- Answers lines to the end of the input. -/
partial def serve (input output : IO.FS.Stream) (d : Disk) : IO Unit := do
  let line ← input.getLine
  unless line.isEmpty do
    let (text, d) := Shell.answer d line
    output.putStrLn text
    output.flush
    serve input output d

end Docket.Cli

/-- Runs the command of the arguments, or the shell if there are none. -/
def main (arguments : List String) : IO Unit := do
  match arguments with
  | [] => Docket.Cli.serve (← IO.getStdin) (← IO.getStdout) .blank
  | words => IO.println (Docket.Cli.Shell.command .blank words).1
