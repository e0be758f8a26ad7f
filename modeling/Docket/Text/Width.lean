import Docket.Text.Emoji
import Docket.Text.Ligature

/-!
# Columns of text

A string takes the columns of its characters, except where characters are shown as one: emoji with what
modifies or joins them, flags, letters that join, and the end of a line. So a string is read from its end, and
what a character takes depends on what follows it.

* `Text.Context`: what follows a character.
* `Text.Following`: a context, and a selector of the form that a character is shown in.
* `Text.Following.before`: the columns of a character, and what it is for the one before it.
* `Text.width`: the columns of a string.
-/

namespace Docket.Text

/-! ## What follows -/

/-- What follows a character. -/
inductive Context where
  /-- Nothing that matters. -/
  | plain
  | lineFeed
  | skinTone
  | flagLetter
  /-- Two flag letters or more. -/
  | flagLetters
  | emoji
  /-- A joiner and an emoji. -/
  | joined
  /-- A keycap before a joiner and an emoji. -/
  | joinedKeycap
  /-- One flag letter before a joiner and an emoji. -/
  | joinedLetter
  /-- An even number of flag letters before a joiner and an emoji. -/
  | joinedPairs
  /-- An odd number of flag letters, at least three, before a joiner and an emoji. -/
  | joinedOdd
  /-- The end of the tags of a flag before a joiner and an emoji, and how many letters and digits they have. -/
  | joinedTags (letters digits : Nat)
  | alef
  /-- The Hebrew letter lamed, after a joiner or not. -/
  | lamed (joined : Bool)
  /-- The Buginese letter ya, after a joiner or not. -/
  | ya (joined : Bool)
  /-- The Buginese vowel i before a joiner and a ya. -/
  | vowelBeforeYa
  /-- A Tifinagh consonant, after a joiner or not. -/
  | tifinagh (joined : Bool)
  /-- The Tifinagh joiner before a consonant. -/
  | tifinaghJoiner
  | lisuTone
  /-- The Old Turkic letter i, after a joiner or not. -/
  | turkicI (joined : Bool)
  /-- A Khmer letter that takes no column below another one. -/
  | khmerLetter
  | kiratE
  | kiratAi
deriving DecidableEq, Inhabited

namespace Context

/-- A letter that may join the one before it. -/
def IsLetter : Context → Prop
  | alef | lamed _ | ya _ | vowelBeforeYa | tifinagh _ | tifinaghJoiner | lisuTone | turkicI _ | khmerLetter =>
    True
  | _ => False

instance (k : Context) : Decidable k.IsLetter := by cases k <;> unfold IsLetter <;> infer_instance

/-- A letter that joins over a joiner. -/
def afterJoiner : Context → Context
  | lamed _ => lamed true
  | ya _ => ya true
  | tifinagh _ => tifinagh true
  | turkicI _ => turkicI true
  | k => k

/-- What a character by itself is for the one before it. -/
def ofChar (c : Char) : Context :=
  match c.toNat with
  | 0x5dc => lamed false
  | 0x1a10 => ya false
  | 0xa4fc => lisuTone
  | 0xa4fd => lisuTone
  | 0x10c03 => turkicI false
  | 0x16d67 => kiratE
  | 0x16d68 => kiratAi
  | _ =>
    if IsAlef c then alef
    else if IsTifinagh c then tifinagh false
    else if GoesBelow c then khmerLetter
    else if IsFlagLetter c then flagLetter
    else if IsSkinTone c then skinTone
    else if IsEmoji c then emoji
    else plain

/-! ## Characters that are shown as one with what follows -/

/-- A character of an emoji sequence: what it adds to the columns of what follows, if it belongs to it. -/
def beforeEmoji? (c : Char) : Context → Option (Int × Context)
  | skinTone => if TakesSkinTone c then some (0, emoji) else if c.toNat = 0x200d then some (0, joined) else none
  | flagLetter => if IsFlagLetter c then some (1, flagLetters) else none
  | flagLetters =>
    if IsFlagLetter c then some (1, flagLetters) else if c.toNat = 0x200d then some (0, joined) else none
  | emoji => if c.toNat = 0x200d then some (0, joined) else none
  | joined =>
    if c.toNat = 0x20e3 then some (0, joinedKeycap)
    else if c.toNat = 0xe007f then some (0, joinedTags 0 0)
    else if IsFlagLetter c then some (1, joinedLetter)
    else if IsSkinTone c then some (0, skinTone)
    else if IsEmoji c then some (0, emoji)
    else none
  | joinedLetter => if IsFlagLetter c then some (-1, joinedPairs) else none
  | joinedOdd =>
    if IsFlagLetter c then some (-1, joinedPairs) else if c.toNat = 0x200d then some (0, joined) else none
  | joinedPairs =>
    if IsFlagLetter c then some (3, joinedOdd) else if c.toNat = 0x200d then some (0, joined) else none
  | joinedTags letters digits =>
    if IsTagLetter c ∧ digits = 0 ∧ letters < 6 then some (0, joinedTags (letters + 1) 0)
    else if IsTagDigit c ∧ digits < 3 ∧ (0 < digits ∨ letters ≤ 4) then
      some (0, joinedTags letters (digits + 1))
    else if c.toNat = 0x1f3f4 ∧ (digits = 3 ∨ (digits = 0 ∧ 3 ≤ letters)) then some (0, emoji)
    else none
  | _ => none

/-- A letter that joins what follows: what it adds to its columns. -/
def beforeLetter? (c : Char) : Context → Option (Int × Context)
  | alef => if IsLam c then some (0, plain) else if LetsLamPass c then some (0, alef) else none
  | lamed true => if c.toNat = 0x5d0 then some (0, plain) else none
  | khmerLetter => if c.toNat = 0x17d2 then some (-1, plain) else none
  | ya true => if c.toNat = 0x1a17 then some (0, vowelBeforeYa) else none
  | vowelBeforeYa => if c.toNat = 0x1a15 then some (0, plain) else none
  | tifinagh tied =>
    if c.toNat = 0x2d7f then some (1, tifinaghJoiner)
    else if tied ∧ IsTifinagh c then some (0, plain)
    else none
  | tifinaghJoiner => if IsTifinagh c then some (-1, plain) else none
  | lisuTone => if IsLisuTone c then some (0, plain) else none
  | turkicI true => if c.toNat = 0x10c32 then some (0, plain) else none
  | kiratE =>
    match c.toNat with
    | 0x16d63 => some (0, plain)
    | 0x16d67 => some (0, kiratAi)
    | 0x16d68 => some (1, kiratE)
    | 0x16d69 => some (0, plain)
    | _ => none
  | kiratAi => if c.toNat = 0x16d63 then some (0, plain) else none
  | _ => none

/-- What stands between letters that join. -/
def between? (c : Char) (k : Context) : Option (Int × Context) :=
  if k.IsLetter ∧ k ≠ alef then
    if c.toNat = 0x200d then some (0, k.afterJoiner)
    else if LetsLettersPass c then some (0, k)
    else none
  else none

/-- A character of the first block before a context. -/
def basic (c : Char) (k : Context) : Int × Context :=
  if c = '\n' then (1, lineFeed)
  else if c = '\r' ∧ k = lineFeed then (0, plain)
  else (1, plain)

/-- A character before a context: what it adds to the columns, and the context that it makes. -/
def before (c : Char) (k : Context) : Int × Context :=
  if c.toNat ≤ 0xa0 then basic c k
  else (((between? c k).or (beforeLetter? c k)).or (beforeEmoji? c k)).getD (columns c, ofChar c)

end Context

/-! ## Selectors -/

/-- The form that the character before a selector is shown in. -/
inductive Form where
  | picture
  | text
  /-- As wide as an ideograph. -/
  | wide
deriving DecidableEq

/-- The form of a selector. -/
def Form.ofSelector? (c : Char) : Option Form :=
  match c.toNat with
  | 0xfe01 => some .wide
  | 0xfe0e => some .text
  | 0xfe0f => some .picture
  | _ => none

/-- What follows a character: a context, with a selector before it or without. -/
structure Following where
  context : Context
  form : Option Form
deriving DecidableEq, Inhabited

namespace Following

/-- Nothing follows. -/
def nothing : Following := ⟨.plain, none⟩

/-- A context without a selector. -/
def of (k : Context) : Following := ⟨k, none⟩

/-- A curved quotation mark. -/
def IsCurvedQuote (c : Char) : Prop := Ranges.Has [(0x2018, 0x2019), (0x201c, 0x201d)] c

instance (c : Char) : Decidable (IsCurvedQuote c) := by unfold IsCurvedQuote; infer_instance

/-- An emoji that a joiner ties to what follows it. -/
def IsTied (k : Context) : Prop := k = .joined ∨ k = .joinedKeycap

instance (k : Context) : Decidable (IsTied k) := by unfold IsTied; infer_instance

/-- A selector before a context. Letters join over it, and a picture may be tied to what follows. -/
def select (form : Form) (k : Context) : Following :=
  ⟨if k.IsLetter ∨ (form = .picture ∧ IsTied k) then k else .plain, some form⟩

/-- A character that a selector gives a form. -/
def formed? (c : Char) (k : Context) : Form → Option (Int × Context)
  | .picture => if HasVariants c then some (if IsTied k then 0 else 2, .emoji) else none
  | .text => if Narrows c then some (1, .plain) else none
  | .wide => if IsCurvedQuote c then some (2, .plain) else none

/-- The columns that a character adds, and what it is for the one before it. -/
def before (c : Char) (f : Following) : Int × Following :=
  match f.form.bind (formed? c f.context) with
  | some (n, k) => (n, of k)
  | none =>
    let k := if f.form = some .picture ∧ IsTied f.context then .plain else f.context
    match Form.ofSelector? c with
    | some form => (0, select form k)
    | none =>
      let (n, k) := k.before c
      (n, of k)

end Following

/-! ## Strings -/

/-- The columns of characters, and what they are for one before them. -/
def measure (cs : List Char) : Int × Following :=
  cs.foldr (fun c done =>
    let (n, f) := done.2.before c
    (n + done.1, f)) (0, .nothing)

/-- The columns of a string. -/
def width (s : String) : Nat := (measure s.toList).1.toNat

end Docket.Text
