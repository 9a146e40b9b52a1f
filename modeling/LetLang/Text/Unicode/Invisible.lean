import LetLang.Text.Unicode.GraphemeExtend
import LetLang.Text.Unicode.Unassigned

/-! Characters that leave no mark of their own: those that only attach to their
neighbours, those that may be left out when text is shown, and those of the
general categories Cc, Cf, Co, Cn, Zl, Zp and Zs, the space apart. -/
namespace LetLang.Text.Unicode

/-- The general category Cc. -/
def control : List (Nat × Nat) := [(0x0, 0x1f), (0x7f, 0x9f)]

/-- The general category Cf. -/
def formatting : List (Nat × Nat) :=
  [(0xad, 0xad), (0x600, 0x605), (0x61c, 0x61c), (0x6dd, 0x6dd), (0x70f, 0x70f), (0x890, 0x891),
   (0x8e2, 0x8e2), (0x180e, 0x180e), (0x200b, 0x200f), (0x202a, 0x202e), (0x2060, 0x2064),
   (0x2066, 0x206f), (0xfeff, 0xfeff), (0xfff9, 0xfffb), (0x110bd, 0x110bd), (0x110cd, 0x110cd),
   (0x13430, 0x1343f), (0x1bca0, 0x1bca3), (0x1d173, 0x1d17a), (0xe0001, 0xe0001),
   (0xe0020, 0xe007f)]

/-- The general categories Zl, Zp and Zs. -/
def separator : List (Nat × Nat) :=
  [(0x20, 0x20), (0xa0, 0xa0), (0x1680, 0x1680), (0x2000, 0x200a), (0x2028, 0x2029),
   (0x202f, 0x202f), (0x205f, 0x205f), (0x3000, 0x3000)]

/-- The general category Co. -/
def privateUse : List (Nat × Nat) :=
  [(0xe000, 0xf8ff), (0xf0000, 0xffffd), (0x100000, 0x10fffd)]

/-- The property Default_Ignorable_Code_Point of Unicode 17.0: code points that
are shown as nothing where they are not supported. Among them are letters, the
fillers that stand for a missing part of a Hangul syllable. -/
def defaultIgnorable : List (Nat × Nat) :=
  [(0xad, 0xad), (0x34f, 0x34f), (0x61c, 0x61c), (0x115f, 0x1160), (0x17b4, 0x17b5),
   (0x180b, 0x180f), (0x200b, 0x200f), (0x202a, 0x202e), (0x2060, 0x206f), (0x3164, 0x3164),
   (0xfe00, 0xfe0f), (0xfeff, 0xfeff), (0xffa0, 0xffa0), (0xfff0, 0xfff8), (0x1bca0, 0x1bca3),
   (0x1d173, 0x1d17a), (0xe0000, 0xe0fff)]

/-- Whether a character leaves no mark of its own. The space counts as a mark,
and so does all else of ASCII from the space to the tilde. -/
def isInvisible (character : Char) : Bool :=
  let code := character.toNat
  if code < 0x7f then contains control code
  else
    contains control code || contains formatting code || contains separator code ||
      contains privateUse code || contains defaultIgnorable code ||
      contains graphemeExtend code || contains unassigned code

end LetLang.Text.Unicode
