import Sexpand.Text.CharWidth

namespace Sexpand.Text

def alefRanges : CharRanges where
  ranges := [
    (0x622, 0x623), (0x625, 0x625), (0x627, 0x627), (0x671, 0x673), (0x675, 0x675), (0x773, 0x774),
    (0x870, 0x882)]

def lamRanges : CharRanges where
  ranges := [
    (0x644, 0x644), (0x6B5, 0x6B8), (0x76A, 0x76A), (0x8A6, 0x8A6), (0x8C7, 0x8C7)]

def subscriptRanges : CharRanges where
  ranges := [
    (0x1780, 0x1782), (0x1784, 0x1787), (0x1789, 0x178C), (0x178E, 0x1793), (0x1795, 0x1798),
    (0x179B, 0x179D), (0x17A0, 0x17A0), (0x17A2, 0x17A2), (0x17A7, 0x17A7), (0x17AB, 0x17AC),
    (0x17AF, 0x17AF)]

def tifinaghRanges : CharRanges where
  ranges := [
    (0x2D31, 0x2D65), (0x2D6F, 0x2D6F)]

/-- Characters without a column that still part two joining Arabic letters. -/
def partingRanges : CharRanges where
  ranges := [
    (0x605, 0x605), (0x890, 0x891), (0x8E2, 0x8E2), (0x9BE, 0x9BE), (0x9D7, 0x9D7), (0xB3E, 0xB3E),
    (0xB57, 0xB57), (0xBBE, 0xBBE), (0xBD7, 0xBD7), (0xCC0, 0xCC0), (0xCC2, 0xCC2), (0xCC7, 0xCC8),
    (0xCCA, 0xCCB), (0xCD5, 0xCD6), (0xD3E, 0xD3E), (0xD4E, 0xD4E), (0xD57, 0xD57), (0xDCF, 0xDCF),
    (0xDDF, 0xDDF), (0x1160, 0x11FF), (0x1715, 0x1715), (0x1734, 0x1734), (0x180E, 0x180E),
    (0x1B35, 0x1B35), (0x1B3B, 0x1B3B), (0x1B3D, 0x1B3D), (0x1B43, 0x1B44), (0x1BAA, 0x1BAA),
    (0x1BF2, 0x1BF3), (0x200C, 0x200D), (0x2065, 0x2069), (0x302E, 0x302F), (0x3164, 0x3164),
    (0xA8FA, 0xA8FA), (0xA953, 0xA953), (0xA9C0, 0xA9C0), (0xD7B0, 0xD7C6), (0xD7CB, 0xD7FB),
    (0xFFA0, 0xFFA0), (0xFFF0, 0xFFF8), (0x111C0, 0x111C0), (0x111C2, 0x111C3), (0x11235, 0x11235),
    (0x1133E, 0x1133E), (0x1134D, 0x1134D), (0x11357, 0x11357), (0x113B8, 0x113B8),
    (0x113C2, 0x113C2), (0x113C5, 0x113C5), (0x113C7, 0x113C9), (0x113CF, 0x113CF),
    (0x113D1, 0x113D1), (0x114B0, 0x114B0), (0x114BD, 0x114BD), (0x115AF, 0x115AF),
    (0x116B6, 0x116B6), (0x11930, 0x11930), (0x1193D, 0x1193D), (0x1193F, 0x1193F),
    (0x11941, 0x11941), (0x11A84, 0x11A89), (0x11D46, 0x11D46), (0x11F02, 0x11F02),
    (0x11F41, 0x11F41), (0x16FF0, 0x16FF1), (0x1D165, 0x1D166), (0x1D16D, 0x1D172),
    (0xE0000, 0xE0000), (0xE0002, 0xE001F), (0xE0080, 0xE00FF), (0xE01F0, 0xE0FFF)]

/-- Marks that a display ignores. The variation selectors two, fifteen and sixteen have a meaning
of their own and are not among them. -/
def ignoredMarkRanges : CharRanges where
  ranges := [
    (0x34F, 0x34F), (0x17B4, 0x17B5), (0x180B, 0x180D), (0x180F, 0x180F), (0xFE00, 0xFE00),
    (0xFE02, 0xFE0D), (0xE0100, 0xE01EF)]

def zeroWidthJoiner : Char := '\u200d'

/-- The right part of a ligature that the characters before it may complete. Where a ligature needs
a zero width joiner, `joined` tells whether one has been met. -/
inductive Ligature
  | alef
  | lamed (joined : Bool)
  | ya (joined : Bool)
  | vowelYa
  | consonant (joined : Bool)
  | joinedConsonant
  | tone
  | orkhonI (joined : Bool)
  | subscript
  | vowelE
  | vowelAi
  deriving DecidableEq

namespace Ligature

def ofChar? (c : Char) : Option Ligature :=
  if c = '\u05dc' then some (.lamed false)
  else if c = '\u1a10' then some (.ya false)
  else if c = '\ua4fc' ∨ c = '\ua4fd' then some .tone
  else if c.toNat = 0x10C03 then some (.orkhonI false)
  else if c.toNat = 0x16D67 then some .vowelE
  else if c.toNat = 0x16D68 then some .vowelAi
  else if alefRanges.contains c then some .alef
  else if subscriptRanges.contains c then some .subscript
  else if tifinaghRanges.contains c then some (.consonant false)
  else none

def isVowel : Ligature → Bool
  | .vowelE | .vowelAi => true
  | _ => false

def join : Ligature → Ligature
  | .lamed _ => .lamed true
  | .ya _ => .ya true
  | .consonant _ => .consonant true
  | .orkhonI _ => .orkhonI true
  | l => l

def part? (l : Ligature) (c : Char) : Option (Int × Option Ligature) :=
  match l with
  | .alef =>
      if lamRanges.contains c then some (0, none)
      else if charWidth c = 0 ∧ partingRanges.contains c = false then some (0, some .alef)
      else none
  | .lamed joined => if joined ∧ c = '\u05d0' then some (0, none) else none
  | .ya joined => if joined ∧ c = '\u1a17' then some (0, some .vowelYa) else none
  | .vowelYa => if c = '\u1a15' then some (0, none) else none
  | .consonant joined =>
      if c = '\u2d7f' then some (1, some .joinedConsonant)
      else if joined ∧ tifinaghRanges.contains c then some (0, none)
      else none
  | .joinedConsonant => if tifinaghRanges.contains c then some (-1, none) else none
  | .tone => if '\ua4f8' ≤ c ∧ c ≤ '\ua4fb' then some (0, none) else none
  | .orkhonI joined => if joined ∧ c.toNat = 0x10C32 then some (0, none) else none
  | .subscript => if c = '\u17d2' then some (-1, none) else none
  | .vowelE =>
      if c.toNat = 0x16D63 ∨ c.toNat = 0x16D69 then some (0, none)
      else if c.toNat = 0x16D67 then some (0, some .vowelAi)
      else if c.toNat = 0x16D68 then some (1, some .vowelE)
      else none
  | .vowelAi => if c.toNat = 0x16D63 then some (0, none) else none

/-- Marks that a display ignores stand anywhere in a ligature, and so does a zero width joiner but
in Arabic, where it parts the letters. -/
def before? (l : Ligature) (c : Char) : Option (Int × Option Ligature) :=
  if l = .alef ∨ l.isVowel then l.part? c
  else if c = zeroWidthJoiner then some (0, some l.join)
  else if ignoredMarkRanges.contains c then some (0, some l)
  else l.part? c

end Ligature

end Sexpand.Text
