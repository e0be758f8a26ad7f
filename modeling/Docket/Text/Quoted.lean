import Docket.Text.Hidden

/-!
# Quoted text in messages

Text is quoted so that every character can be seen: quotes, backslashes and a few controls have short
escapes, every other hidden character is written by its number.

* `Text.quoted`: a string in quotes.
-/

namespace Docket.Text

namespace Quoted

/-- A character by its number. -/
def code (c : Char) : List Char := ['\\', 'u', '\x7b'] ++ Nat.toDigits 16 c.toNat ++ ['\x7d']

/-- A character inside quotes. -/
def char (c : Char) : List Char :=
  match c with
  | '\x00' => ['\\', '0']
  | '\t' => ['\\', 't']
  | '\r' => ['\\', 'r']
  | '\n' => ['\\', 'n']
  | '"' => ['\\', '"']
  | '\\' => ['\\', '\\']
  | c => if Hidden c then code c else [c]

end Quoted

/-- A string in quotes. -/
def quoted (s : String) : String := String.ofList ('"' :: (s.toList.flatMap Quoted.char ++ ['"']))

end Docket.Text
