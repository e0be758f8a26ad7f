import Docket.Hex

/-!
# The tokens of JSON text

The text is read one character at a time by a machine with six modes. It knows brackets, commas, colons,
strings and words; a word is what stands between two of the others, and whether it is a number is settled
later. Blanks separate words and vanish.

* `Json.Part`: a character of a string, or a unit written as four hexadecimal digits.
* `Json.Token`, `Json.Token.scan?`: tokens and the tokens of a text.
* `Json.Scanner.step?`: one character.
-/

namespace Docket.Json

/-- A part of a quoted string: a character, or a sixteen-bit unit written in digits. -/
inductive Part where
  | char (c : Char)
  | unit (u : UInt16)
deriving DecidableEq

/-- A token. -/
inductive Token where
  | openList
  | closeList
  | openMap
  | closeMap
  | comma
  | colon
  | quoted (parts : List Part)
  | word (letters : List Char)
deriving DecidableEq

/-- The four blanks. -/
def IsBlank (c : Char) : Prop := c = ' ' ∨ c = '\n' ∨ c = '\t' ∨ c = '\r'

instance (c : Char) : Decidable (IsBlank c) := by unfold IsBlank; infer_instance

/-- The tokens of one character. -/
def Token.ofChar? : Char → Option Token
  | '[' => some .openList
  | ']' => some .closeList
  | '{' => some .openMap
  | '}' => some .closeMap
  | ',' => some .comma
  | ':' => some .colon
  | _ => none

/-- The value of a hexadecimal digit of either case. -/
def hexDigit? (c : Char) : Option Nat :=
  if 65 ≤ c.toNat ∧ c.toNat ≤ 70 then some (c.toNat - 55) else Hex.value? c

/-- What a character after a backslash stands for. -/
def escaped? : Char → Option Char
  | '"' => some '"'
  | '\\' => some '\\'
  | '/' => some '/'
  | 'b' => some '\x08'
  | 'f' => some '\x0c'
  | 'n' => some '\n'
  | 'r' => some '\r'
  | 't' => some '\t'
  | _ => none

/-! ## The machine -/

/-- Where the scanner stands. Letters and parts are held last first. -/
inductive Scanner.Mode where
  | between
  | word (letters : List Char)
  | quoted (parts : List Part)
  | escape (parts : List Part)
  | digits (parts : List Part) (value : Nat) (missing : Nat)
deriving DecidableEq

/-- The scanner: its mode and the tokens so far, last first. -/
structure Scanner where
  mode : Scanner.Mode
  done : List Token
deriving DecidableEq

namespace Scanner

/-- The scanner before the first character. -/
def start : Scanner := ⟨.between, []⟩

/-- A character outside words and strings. -/
def begin (done : List Token) (c : Char) : Scanner :=
  if IsBlank c then ⟨.between, done⟩
  else if c = '"' then ⟨.quoted [], done⟩
  else match Token.ofChar? c with
    | some token => ⟨.between, token :: done⟩
    | none => ⟨.word [c], done⟩

/-- A character that ends a word. -/
def EndsWord (c : Char) : Prop := IsBlank c ∨ c = '"' ∨ (Token.ofChar? c).isSome

instance (c : Char) : Decidable (EndsWord c) := by unfold EndsWord; infer_instance

/-- One character. A raw control character in a string and an unknown escape are refused. -/
def step? (s : Scanner) (c : Char) : Option Scanner :=
  match s.mode with
  | .between => some (begin s.done c)
  | .word letters =>
    if EndsWord c then some (begin (.word letters.reverse :: s.done) c)
    else some ⟨.word (c :: letters), s.done⟩
  | .quoted parts =>
    if c = '"' then some ⟨.between, .quoted parts.reverse :: s.done⟩
    else if c = '\\' then some ⟨.escape parts, s.done⟩
    else if c.toNat < 32 then none
    else some ⟨.quoted (.char c :: parts), s.done⟩
  | .escape parts =>
    if c = 'u' then some ⟨.digits parts 0 4, s.done⟩
    else (escaped? c).map fun d => ⟨.quoted (.char d :: parts), s.done⟩
  | .digits parts value missing =>
    (hexDigit? c).map fun d =>
      let value := 16 * value + d
      if missing ≤ 1 then ⟨.quoted (.unit (UInt16.ofNat value) :: parts), s.done⟩
      else ⟨.digits parts value (missing - 1), s.done⟩

/-- Characters in order. -/
def run? (s : Scanner) (text : List Char) : Option Scanner := text.foldlM step? s

/-- The tokens, once the text has ended. -/
def tokens? (s : Scanner) : Option (List Token) :=
  match s.mode with
  | .between => some s.done.reverse
  | .word letters => some (.word letters.reverse :: s.done).reverse
  | _ => none

@[simp] theorem run?_nil (s : Scanner) : s.run? [] = some s := rfl

@[simp] theorem run?_cons (s : Scanner) (c : Char) (text : List Char) :
    s.run? (c :: text) = (s.step? c).bind fun t => t.run? text := rfl

theorem run?_append (s : Scanner) (xs ys : List Char) :
    s.run? (xs ++ ys) = (s.run? xs).bind fun t => t.run? ys := by
  simp [run?, List.foldlM_append]

end Scanner

/-- The tokens of a text. -/
def Token.scan? (text : List Char) : Option (List Token) :=
  (Scanner.start.run? text).bind Scanner.tokens?

end Docket.Json
