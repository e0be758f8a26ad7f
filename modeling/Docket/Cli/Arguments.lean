/-!
# Arguments of a command

Words turn into options and a subcommand. Three options may stand at either level: the root, the
configuration and the output format; what stands at the inner level wins. The first thing that is wrong ends
the reading, and an option is only looked at when the next thing after its value is reached.

* `Cli.Format`, `Cli.Command`, `Cli.Invocation`: what is asked for.
* `Cli.UsageError`: why words are no invocation.
* `Cli.Invocation.parse`: the invocation of words.
-/

namespace Docket.Cli

/-- How results are printed. -/
inductive Format where
  | table
  | json
deriving DecidableEq, Repr, Inhabited

/-- A subcommand with its arguments. -/
inductive Command where
  | normalize (selector : String)
  | create (document body : String)
  | attach (document file : String) (name : Option String) (mediaType : String)
  | list (document : String)
  | remove (document : String) (names : List String)
  | collect
deriving DecidableEq

/-- What is asked for. -/
structure Invocation where
  root : Option String
  config : Option String
  format : Format
  command : Command
deriving DecidableEq

/-- Why words are no invocation. -/
inductive UsageError where
  | helpForNothing
  | help
  | version
  | missingSubcommand
  | unknownSubcommand
  | unknownArgument
  | invalidValue
  | tooManyValues
  | conflict
  | missingArgument
deriving DecidableEq, Repr

/-- The wording of a usage error. -/
def UsageError.message : UsageError → String
  | .helpForNothing => "nothing to do"
  | .help => "commands: normalize, create, attach, ls, rm, collect"
  | .version => "docket"
  | .missingSubcommand => "a command is required"
  | .unknownSubcommand => "unknown command"
  | .unknownArgument => "unknown argument"
  | .invalidValue => "invalid value of an option"
  | .tooManyValues => "an option takes no value"
  | .conflict => "options exclude one another"
  | .missingArgument => "a required argument is missing"

/-! ## Levels -/

/-- What the value of an option has to be. -/
inductive ValueKind where
  | any
  /-- A path is not empty. -/
  | path
  | format
deriving DecidableEq

/-- The format of a name in either case. -/
def Format.ofName? (s : String) : Option Format :=
  if s.toLower = "table" then some .table
  else if s.toLower = "json" then some .json
  else none

/-- The value is one of the kind. -/
def ValueKind.Accepts (k : ValueKind) (value : String) : Prop :=
  match k with
  | .any => True
  | .path => value ≠ ""
  | .format => (Format.ofName? value).isSome

instance (k : ValueKind) (value : String) : Decidable (k.Accepts value) := by
  unfold ValueKind.Accepts; split <;> infer_instance

/-- How many words without a dash a level takes. -/
inductive Capacity where
  | none
  | one
  | many
deriving DecidableEq

/-- The options and words of a level. -/
structure Level where
  options : List (String × ValueKind)
  capacity : Capacity
  /-- There is a version to show. -/
  hasVersion : Bool
  /-- Words are names of subcommands. -/
  hasSubcommands : Bool

namespace Level

/-- The options that stand at every level. -/
def shared : List (String × ValueKind) := [("root", .path), ("config", .path), ("format", .format)]

/-- The outer level. -/
def outer : Level := ⟨shared, .none, true, true⟩

/-- A subcommand's level. -/
def inner (options : List (String × ValueKind)) (capacity : Capacity) : Level :=
  ⟨options ++ shared, capacity, false, false⟩

/-- The levels of the subcommands. -/
def subcommands : List (String × Level) :=
  [("normalize", inner [] .one),
   ("create", inner [("doc", .any), ("body", .any)] .none),
   ("attach", inner [("doc", .any), ("file", .path), ("name", .any), ("type", .any)] .none),
   ("ls", inner [("doc", .any)] .none),
   ("rm", inner [("doc", .any)] .many),
   ("collect", inner [] .none)]

/-- The kind of an option's value. -/
def kind? (l : Level) (name : String) : Option ValueKind := (l.options.find? (·.1 = name)).map (·.2)

/-- The level of a subcommand. -/
def subcommand? (name : String) : Option Level := (subcommands.find? (·.1 = name)).map (·.2)

end Level

/-! ## Reading a level -/

/-- What a level has read so far. -/
structure Reading where
  level : Level
  values : List (String × String)
  words : List String
  /-- The last option and the value that followed it, not yet looked at. -/
  pending : Option (String × Option String)
  /-- All that follows are words. -/
  onlyWords : Bool

namespace Reading

/-- Nothing read yet. -/
def start (level : Level) : Reading := ⟨level, [], [], none, false⟩

/-- The value of an option. -/
def value? (r : Reading) (name : String) : Option String := (r.values.find? (·.1 = name)).map (·.2)

/-- Takes an option with its value. An option is given once. -/
def accept (r : Reading) (name value : String) : Except UsageError Reading :=
  if (r.value? name).isSome then .error .conflict
  else match r.level.kind? name with
    | none => .error .unknownArgument
    | some k =>
      if k.Accepts value then .ok { r with values := r.values ++ [(name, value)], pending := none }
      else .error .invalidValue

/-- Looks at the last option. -/
def resolve (r : Reading) : Except UsageError Reading :=
  match r.pending with
  | none => .ok r
  | some (_, none) => .error .invalidValue
  | some (name, some value) => r.accept name value

/-- A word with two dashes, without the dashes: an option, or an option and its value. -/
def long (r : Reading) (text : List Char) : Except UsageError Reading :=
  let name := String.ofList (text.takeWhile (· ≠ '='))
  let value := if '=' ∈ text then some (String.ofList ((text.dropWhile (· ≠ '=')).drop 1)) else none
  if name = "help" ∨ (name = "version" ∧ r.level.hasVersion) then
    match value with
    | some _ => .error .tooManyValues
    | none =>
      match r.resolve with
      | .error e => .error e
      | .ok _ => .error (if name = "help" then .help else .version)
  else if (r.level.kind? name).isNone then .error .unknownArgument
  else
    match r.resolve, value with
    | .error e, _ => .error e
    | .ok r, some value => r.accept name value
    | .ok r, none => .ok { r with pending := some (name, none) }

/-- A word with one dash, without the dash. -/
def short (r : Reading) (text : List Char) : Except UsageError Reading :=
  let found : Option UsageError :=
    if text.head? = some 'h' then some .help
    else if text.head? = some 'V' ∧ r.level.hasVersion then some .version
    else none
  match found with
  | none => .error .unknownArgument
  | some e =>
    match r.resolve with
    | .error e => .error e
    | .ok _ => .error e

/-- A word without a dash that is no value of an option. -/
def word (r : Reading) (text : String) : Except UsageError Reading :=
  match r.level.capacity, r.words with
  | .none, _ => .error .unknownArgument
  | .one, _ :: _ => .error .unknownArgument
  | _, _ => r.resolve.map fun r => { r with words := r.words ++ [text] }

/-- What the next word is. -/
inductive Step where
  | read (r : Reading)
  | failed (e : UsageError)
  | subcommand (name : String)

/-- A reading or a failure as a step. -/
def Step.of : Except UsageError Reading → Step
  | .ok r => .read r
  | .error e => .failed e

/-- A word where no option starts and no value is awaited. -/
def plain (r : Reading) (text : String) : Step :=
  if r.level.hasSubcommands then
    if (Level.subcommand? text).isSome ∨ text = "help" then
      if r.onlyWords then .failed .unknownArgument else .subcommand text
    else .failed .unknownSubcommand
  else .of (r.word text)

/-- The next word. -/
def step (r : Reading) (text : String) : Step :=
  if r.onlyWords then r.plain text
  else match text.toList, r.pending with
    | ['-', '-'], _ => .read { r with onlyWords := true }
    | '-' :: '-' :: rest, _ => .of (r.long rest)
    | '-' :: c :: rest, _ => .of (r.short (c :: rest))
    | _, some (name, none) => .read { r with pending := some (name, some text) }
    | _, _ => r.plain text

/-- The end of a level: the last option, and options that exclude one another. -/
def finish (r : Reading) : Except UsageError Reading :=
  match r.resolve with
  | .error e => .error e
  | .ok r =>
    if (r.value? "root").isSome ∧ (r.value? "config").isSome then .error .conflict else .ok r

/-- Reads the words of a subcommand. -/
def readAll (r : Reading) : List String → Except UsageError Reading
  | [] => r.finish
  | text :: rest =>
    match r.step text with
    | .read r => r.readAll rest
    | .failed e => .error e
    | .subcommand _ => .error .unknownArgument

end Reading

/-! ## Invocations -/

/-- The type of an attachment when none is said. -/
def defaultMediaType : String := "application/octet-stream"

/-- The command of a subcommand's reading. -/
def Command.ofReading (name : String) (r : Reading) : Except UsageError Command :=
  let document := r.value? "doc"
  match name, document, r.words with
  | "normalize", _, selector :: _ => .ok (.normalize selector)
  | "create", some document, _ => .ok (.create document ((r.value? "body").getD "\x7b\x7d"))
  | "attach", some document, _ =>
    match r.value? "file" with
    | some file => .ok (.attach document file (r.value? "name") ((r.value? "type").getD defaultMediaType))
    | none => .error .missingArgument
  | "ls", some document, _ => .ok (.list document)
  | "rm", some document, names@(_ :: _) => .ok (.remove document names)
  | "collect", _, _ => .ok .collect
  | _, _, _ => .error .missingArgument

/-- Help on a subcommand, which has to be one. -/
def helpOn : List String → UsageError
  | [] => .help
  | [name] => if (Level.subcommand? name).isSome ∨ name = "help" then .help else .unknownSubcommand
  | _ => .unknownSubcommand

namespace Invocation

/-- The invocation of an outer reading, a subcommand and the words after it. -/
def ofSubcommand (outer : Reading) (name : String) (rest : List String) : Except UsageError Invocation :=
  match Level.subcommand? name with
  | none => .error (helpOn rest)
  | some level => do
    let inner ← (Reading.start level).readAll rest
    let command ← Command.ofReading name inner
    let outer ← outer.finish
    let shared := fun option => (inner.value? option).or (outer.value? option)
    return {
      root := shared "root"
      config := shared "config"
      format := ((shared "format").bind Format.ofName?).getD .table
      command }

/-- Reads the words of an invocation. -/
def readFrom (r : Reading) : List String → Except UsageError Invocation
  | [] =>
    match r.resolve with
    | .error e => .error e
    | .ok r => .error (if r.values = [] then .helpForNothing else .missingSubcommand)
  | text :: rest =>
    match r.step text with
    | .read r => readFrom r rest
    | .failed e => .error e
    | .subcommand name => ofSubcommand r name rest

/-- The invocation of words. -/
def parse (words : List String) : Except UsageError Invocation := readFrom (.start .outer) words

end Invocation

end Docket.Cli
