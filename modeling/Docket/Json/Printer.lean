import Docket.Json
import Docket.Binary64.Layout

/-!
# The text of a JSON value

Two layouts of the same tokens. The compact one has no blanks; the indented one puts every item on a line of
its own. Strings escape what JSON requires and nothing else.

* `Json.Escape.char`, `Json.Escape.quoted`: characters and whole strings.
* `Json.render`, `Json.text`: the compact layout.
* `Json.indented`: the layout in lines.
-/

namespace Docket.Json

namespace Escape

/-- The four digits of a code below 256. -/
def hexCode (n : Nat) : List Char := ['0', '0', Nat.digitChar (n / 16), Nat.digitChar (n % 16)]

/-- A character inside quotes. Quotes, backslashes and the characters below U+0020 are escaped. -/
def char (c : Char) : List Char :=
  if c = '"' then ['\\', '"']
  else if c = '\\' then ['\\', '\\']
  else if c = '\x08' then ['\\', 'b']
  else if c = '\x0c' then ['\\', 'f']
  else if c = '\n' then ['\\', 'n']
  else if c = '\r' then ['\\', 'r']
  else if c = '\t' then ['\\', 't']
  else if c.toNat < 32 then '\\' :: 'u' :: hexCode c.toNat
  else [c]

/-- A string in quotes. -/
def quoted (s : String) : List Char := '"' :: (s.toList.flatMap char ++ ['"'])

end Escape

/-- An integer in decimal. -/
def integerText (n : Int) : List Char :=
  (if n < 0 then ['-'] else []) ++ Nat.toDigits 10 n.natAbs

/-- A number. -/
def Number.render : Number → List Char
  | .integer n _ => integerText n
  | .float x _ => x.text .wire

/-- The truth values. -/
def renderBool : Bool → List Char
  | true => ['t', 'r', 'u', 'e']
  | false => ['f', 'a', 'l', 's', 'e']

/-! ## Compact -/

mutual

/-- A value without blanks. -/
def render : Json → List Char
  | .null => ['n', 'u', 'l', 'l']
  | .bool b => renderBool b
  | .num n => n.render
  | .str s => Escape.quoted s
  | .arr [] => ['[', ']']
  | .arr (v :: rest) => '[' :: (render v ++ renderItems rest)
  | .obj [] => ['{', '}']
  | .obj ((k, v) :: rest) => '{' :: (Escape.quoted k ++ ':' :: (render v ++ renderEntries rest))

/-- The items after the first one, and the closing bracket. -/
def renderItems : List Json → List Char
  | [] => [']']
  | v :: rest => ',' :: (render v ++ renderItems rest)

/-- The entries after the first one, and the closing brace. -/
def renderEntries : List (String × Json) → List Char
  | [] => ['}']
  | (k, v) :: rest => ',' :: (Escape.quoted k ++ ':' :: (render v ++ renderEntries rest))

end

/-- The compact text of a value. -/
def text (v : Json) : String := String.ofList v.render

/-! ## In lines -/

/-- The start of a line at a depth: two blanks a level. -/
def newline (depth : Nat) : List Char := '\n' :: List.replicate (2 * depth) ' '

mutual

/-- A value in lines, for a line that stands at the depth. -/
def indentedAt (depth : Nat) : Json → List Char
  | .arr (v :: rest) =>
    '[' :: (newline (depth + 1) ++ indentedAt (depth + 1) v ++ indentedItems depth rest)
  | .obj ((k, v) :: rest) =>
    '{' :: (newline (depth + 1) ++ Escape.quoted k ++ ':' :: ' ' :: indentedAt (depth + 1) v ++
      indentedEntries depth rest)
  | .null => ['n', 'u', 'l', 'l']
  | .bool b => renderBool b
  | .num n => n.render
  | .str s => Escape.quoted s
  | .arr [] => ['[', ']']
  | .obj [] => ['{', '}']

/-- The items after the first one, and the closing bracket. -/
def indentedItems (depth : Nat) : List Json → List Char
  | [] => newline depth ++ [']']
  | v :: rest =>
    ',' :: (newline (depth + 1) ++ indentedAt (depth + 1) v ++ indentedItems depth rest)

/-- The entries after the first one, and the closing brace. -/
def indentedEntries (depth : Nat) : List (String × Json) → List Char
  | [] => newline depth ++ ['}']
  | (k, v) :: rest =>
    ',' :: (newline (depth + 1) ++ Escape.quoted k ++ ':' :: ' ' :: indentedAt (depth + 1) v ++
      indentedEntries depth rest)

end

/-- The text of a value in lines. -/
def indented (v : Json) : String := String.ofList (v.indentedAt 0)

end Docket.Json
