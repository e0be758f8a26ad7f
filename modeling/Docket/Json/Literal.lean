import Docket.Json.Token
import Docket.Json.Numeral

/-!
# JSON text as a tree

A literal is what a text says before anything is made of it: objects keep repeated keys, strings their
escaped units, numbers their digits, and nesting has no bound. It is built from the tokens by a machine that
holds the open lists and maps on a stack.

* `Json.Literal`: the tree.
* `Json.Literal.Builder.step?`: one token.
* `Json.Literal.ofTokens?`, `Json.Literal.parse?`: the tree of tokens, and of a text.
-/

namespace Docket.Json

/-- A JSON text as a tree. -/
inductive Literal where
  | null
  | bool (b : Bool)
  | num (n : Numeral)
  | str (parts : List Part)
  | arr (items : List Literal)
  | obj (entries : List (List Part × Literal))
deriving Inhabited

namespace Literal

/-- What a word stands for. -/
def ofWord? (letters : List Char) : Option Literal :=
  if letters = ['n', 'u', 'l', 'l'] then some .null
  else if letters = ['t', 'r', 'u', 'e'] then some (.bool true)
  else if letters = ['f', 'a', 'l', 's', 'e'] then some (.bool false)
  else (Numeral.ofChars? letters).map .num

/-! ## The machine -/

/-- An open list, or an open map that waits for the value of a key. Contents are held last first. -/
inductive Builder.Frame where
  | items (done : List Literal)
  | entries (done : List (List Part × Literal)) (key : List Part)

/-- What comes next. -/
inductive Builder.Mode where
  /-- A value. -/
  | value
  /-- A value, or the end of the list that was just opened. -/
  | firstItem
  /-- A key, or the end of the map that was just opened. -/
  | firstKey
  /-- A key of the map with these entries. -/
  | key (done : List (List Part × Literal))
  /-- The colon after a key of the map with these entries. -/
  | colon (done : List (List Part × Literal)) (key : List Part)
  /-- What follows a value: a comma, the end of a list or map, or nothing. -/
  | after (v : Literal)

/-- The machine: the open lists and maps, the innermost first, and what comes next. -/
structure Builder where
  frames : List Builder.Frame
  mode : Builder.Mode

namespace Builder

/-- The machine before the first token. -/
def start : Builder := ⟨[], .value⟩

/-- The first token of a value. -/
def begin? (frames : List Frame) : Token → Option Builder
  | .openList => some ⟨frames, .firstItem⟩
  | .openMap => some ⟨frames, .firstKey⟩
  | .quoted parts => some ⟨frames, .after (.str parts)⟩
  | .word letters => (ofWord? letters).map fun v => ⟨frames, .after v⟩
  | _ => none

/-- A token after a value. -/
def proceed? (v : Literal) : List Frame → Token → Option Builder
  | .items done :: frames, .comma => some ⟨.items (v :: done) :: frames, .value⟩
  | .items done :: frames, .closeList => some ⟨frames, .after (.arr (v :: done).reverse)⟩
  | .entries done k :: frames, .comma => some ⟨frames, .key ((k, v) :: done)⟩
  | .entries done k :: frames, .closeMap => some ⟨frames, .after (.obj ((k, v) :: done).reverse)⟩
  | _, _ => none

/-- One token. -/
def step? (s : Builder) (token : Token) : Option Builder :=
  match s.mode, token with
  | .value, token => begin? s.frames token
  | .firstItem, .closeList => some ⟨s.frames, .after (.arr [])⟩
  | .firstItem, token => begin? (.items [] :: s.frames) token
  | .firstKey, .closeMap => some ⟨s.frames, .after (.obj [])⟩
  | .firstKey, .quoted k => some ⟨s.frames, .colon [] k⟩
  | .key done, .quoted k => some ⟨s.frames, .colon done k⟩
  | .colon done k, .colon => some ⟨.entries done k :: s.frames, .value⟩
  | .after v, token => proceed? v s.frames token
  | _, _ => none

/-- Tokens in order. -/
def run? (s : Builder) (tokens : List Token) : Option Builder := tokens.foldlM step? s

/-- The value, once the tokens have ended. -/
def result? (s : Builder) : Option Literal :=
  match s.frames, s.mode with
  | [], .after v => some v
  | _, _ => none

@[simp] theorem run?_nil (s : Builder) : s.run? [] = some s := rfl

@[simp] theorem run?_cons (s : Builder) (token : Token) (tokens : List Token) :
    s.run? (token :: tokens) = (s.step? token).bind fun t => t.run? tokens := rfl

theorem run?_append (s : Builder) (xs ys : List Token) :
    s.run? (xs ++ ys) = (s.run? xs).bind fun t => t.run? ys := by
  simp [run?, List.foldlM_append]

end Builder

/-- The tree of tokens. -/
def ofTokens? (tokens : List Token) : Option Literal :=
  (Builder.start.run? tokens).bind Builder.result?

/-- The tree of a text. -/
def parse? (text : List Char) : Option Literal := (Token.scan? text).bind ofTokens?

end Literal

end Docket.Json
