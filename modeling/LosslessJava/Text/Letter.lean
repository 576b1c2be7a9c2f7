import LosslessJava.Text.Alphabetic

/-!
# Letters of words

The words of a source text follow a later edition of Unicode than the segments of qualified names:
their letters are the alphabetic characters and the ones that the later edition adds.

* `isLetter_of_isAlphabetic`: every alphabetic character is a letter.
-/

namespace LosslessJava

/-- The letters that are not alphabetic yet: single additions to Armenian, Hebrew, Latin, Devanagari,
cuneiform, Khitan, kana, mathematical letters and ideographs, and the archaic cuneiform numerals,
Jurchen and seal script. -/
def addedLetterRanges : List (Nat × Nat) :=
  [(0x558, 0x558), (0x58B, 0x58C), (0x5C8, 0x5C8), (0x208F, 0x208F), (0x209D, 0x209F),
   (0xA7DD, 0xA7E2), (0xAB6C, 0xAB6C), (0x107BB, 0x107BB), (0x11B0A, 0x11B0A),
   (0x1246F, 0x1246F), (0x12550, 0x12686), (0x18CD6, 0x18CD6), (0x18E00, 0x19191),
   (0x1B123, 0x1B123), (0x1D6A6, 0x1D6A7), (0x1DF2B, 0x1DF2B), (0x2B81E, 0x2B81F),
   (0x3D000, 0x3FC3F)]

/-- The character is a letter of a word. -/
def isLetter (c : Char) : Bool :=
  isAlphabetic c || (0x80 ≤ c.toNat && inRanges addedLetterRanges c)

theorem isLetter_of_isAlphabetic {c : Char} (h : isAlphabetic c = true) : isLetter c = true := by
  simp [isLetter, h]

end LosslessJava
