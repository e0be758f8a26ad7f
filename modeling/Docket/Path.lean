/-!
# Paths

A path is text; its segments stand between slashes. One that starts with a slash is absolute, and one that
ends with a slash can only name a directory.

* `Path.segments`: the segments that are not empty.
* `Path.names`: those that lead somewhere.
* `Path.join`: a path seen from another one.
* `Path.fileName?`: the last segment that is a name.
-/

namespace Docket.Path

/-- The pieces of a text between slashes. -/
def pieces : List Char → List (List Char)
  | [] => [[]]
  | c :: rest =>
    if c = '/' then [] :: pieces rest
    else match pieces rest with
      | piece :: others => (c :: piece) :: others
      | [] => [[c]]

/-- The segments of a path that are not empty. -/
def segments (path : String) : List String :=
  ((pieces path.toList).filter (· ≠ [])).map String.ofList

/-- The segments that lead somewhere; a single dot does not. -/
def names (path : String) : List String := (segments path).filter (· ≠ ".")

/-- The ways from a directory along names, the shortest first. -/
def ways : List String → List (List String)
  | [] => []
  | name :: rest => [name] :: (ways rest).map (name :: ·)

/-- A path from the top of the tree. -/
def IsAbsolute (path : String) : Prop := path.toList.head? = some '/'

instance (path : String) : Decidable (IsAbsolute path) := by unfold IsAbsolute; infer_instance

/-- A path that can only name a directory. -/
def EndsInSlash (path : String) : Prop := path.toList.getLast? = some '/'

instance (path : String) : Decidable (EndsInSlash path) := by unfold EndsInSlash; infer_instance

/-- A path seen from another one. An absolute path stays as it is; otherwise one slash separates the two,
unless the first is empty or has it already. -/
def join (base path : String) : String :=
  if IsAbsolute path then path
  else if base = "" ∨ EndsInSlash base then base ++ path
  else base ++ "/" ++ path

/-- The last segment, if it is the name of a file. -/
def fileName? (path : String) : Option String :=
  match (names path).getLast? with
  | some ".." => none
  | name => name

end Docket.Path
