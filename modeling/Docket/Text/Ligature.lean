import Docket.Text.Columns

/-!
# Letters that join

In some scripts letters that meet are drawn as one. Lam and alef meet over any marks between them; letters of
other scripts meet over marks that are to be passed over.

* `Text.IsLam`, `Text.IsAlef`, `Text.LetsLamPass`: Arabic.
* `Text.IsTifinagh`, `Text.GoesBelow`, `Text.IsLisuTone`: Tifinagh, Khmer and Lisu letters.
* `Text.LetsLettersPass`: what may stand between letters that join.
-/

namespace Docket.Text

/-- The ranges of the alefs. -/
def alefRanges : Ranges :=
  [(0x622, 0x623), (0x625, 0x625), (0x627, 0x627), (0x671, 0x673), (0x675, 0x675), (0x773, 0x774),
   (0x870, 0x882)]

/-- The ranges of the lams. -/
def lamRanges : Ranges :=
  [(0x644, 0x644), (0x6b5, 0x6b8), (0x76a, 0x76a), (0x8a6, 0x8a6), (0x8c7, 0x8c7)]

/-- The ranges of characters without a column that keep Arabic letters apart. -/
def partingRanges : Ranges :=
  [(0x605, 0x605), (0x890, 0x891), (0x8e2, 0x8e2), (0x9be, 0x9be), (0x9d7, 0x9d7), (0xb3e, 0xb3e),
   (0xb57, 0xb57), (0xbbe, 0xbbe), (0xbd7, 0xbd7), (0xcc0, 0xcc0), (0xcc2, 0xcc2), (0xcc7, 0xcc8),
   (0xcca, 0xccb), (0xcd5, 0xcd6), (0xd3e, 0xd3e), (0xd4e, 0xd4e), (0xd57, 0xd57), (0xdcf, 0xdcf),
   (0xddf, 0xddf), (0x1160, 0x11ff), (0x1715, 0x1715), (0x1734, 0x1734), (0x180e, 0x180e),
   (0x1b35, 0x1b35), (0x1b3b, 0x1b3b), (0x1b3d, 0x1b3d), (0x1b43, 0x1b44), (0x1baa, 0x1baa),
   (0x1bf2, 0x1bf3), (0x200c, 0x200d), (0x2066, 0x2069), (0x302e, 0x302f), (0x3164, 0x3164),
   (0xa8fa, 0xa8fa), (0xa953, 0xa953), (0xa9c0, 0xa9c0), (0xd7b0, 0xd7c6), (0xd7cb, 0xd7fb),
   (0xff9e, 0xffa0), (0x111c0, 0x111c0), (0x111c2, 0x111c3), (0x11235, 0x11235),
   (0x1133e, 0x1133e), (0x1134d, 0x1134d), (0x11357, 0x11357), (0x113b8, 0x113b8),
   (0x113c2, 0x113c2), (0x113c5, 0x113c5), (0x113c7, 0x113c9), (0x113cf, 0x113cf),
   (0x114b0, 0x114b0), (0x114bd, 0x114bd), (0x115af, 0x115af), (0x116b6, 0x116b6),
   (0x11930, 0x11930), (0x1193d, 0x1193d), (0x1193f, 0x1193f), (0x11941, 0x11941),
   (0x11a3a, 0x11a3a), (0x11a84, 0x11a89), (0x11d46, 0x11d46), (0x11f02, 0x11f02),
   (0x11f41, 0x11f41), (0x16ff0, 0x16ff1), (0x1d165, 0x1d166), (0x1d16d, 0x1d172)]

/-- The ranges of Khmer letters that take no column below another one. -/
def belowRanges : Ranges :=
  [(0x1780, 0x1782), (0x1784, 0x1787), (0x1789, 0x178c), (0x178e, 0x1793), (0x1795, 0x1798),
   (0x179b, 0x179d), (0x17a0, 0x17a0), (0x17a2, 0x17a2), (0x17a7, 0x17a7), (0x17ab, 0x17ac),
   (0x17af, 0x17af)]

/-- An Arabic lam. -/
def IsLam (c : Char) : Prop := lamRanges.Has c

instance (c : Char) : Decidable (IsLam c) := by unfold IsLam; infer_instance

/-- An Arabic alef. -/
def IsAlef (c : Char) : Prop := alefRanges.Has c

instance (c : Char) : Decidable (IsAlef c) := by unfold IsAlef; infer_instance

/-- What may stand between a lam and an alef. -/
def LetsLamPass (c : Char) : Prop := columns c = 0 ∧ ¬ partingRanges.Has c

instance (c : Char) : Decidable (LetsLamPass c) := by unfold LetsLamPass; infer_instance

/-- A Tifinagh consonant. -/
def IsTifinagh (c : Char) : Prop := Ranges.Has [(0x2d31, 0x2d65), (0x2d6f, 0x2d6f)] c

instance (c : Char) : Decidable (IsTifinagh c) := by unfold IsTifinagh; infer_instance

/-- A Khmer letter that takes no column below another one. -/
def GoesBelow (c : Char) : Prop := belowRanges.Has c

instance (c : Char) : Decidable (GoesBelow c) := by unfold GoesBelow; infer_instance

/-- A Lisu tone that may stand before another one in one column. -/
def IsLisuTone (c : Char) : Prop := Ranges.Has [(0xa4f8, 0xa4fb)] c

instance (c : Char) : Decidable (IsLisuTone c) := by unfold IsLisuTone; infer_instance

/-- A mark that is to be passed over between letters that join. -/
def LetsLettersPass (c : Char) : Prop :=
  Ranges.Has [(0x34f, 0x34f), (0x17b4, 0x17b5), (0x180b, 0x180d), (0x180f, 0x180f), (0xfe00, 0xfe0f),
    (0xe0100, 0xe01ef)] c

instance (c : Char) : Decidable (LetsLettersPass c) := by unfold LetsLettersPass; infer_instance

end Docket.Text
