import ExpLang.Text.Alphabetic
import ExpLang.Text.Numeric
import ExpLang.Text.Mark

/-!
# Identifier and word characters

Two classes decide where a word ends. A keyword stops where no *identifier character* follows:
alphabetic, numeric or an underscore. Names and the word boundary of patterns use *word
characters*: alphabetic, mark, decimal digit, connector punctuation or a join control. Identifier
characters follow version 17 of the Unicode standard and word characters version 16, so a letter
that is new in version 17 ends a name but not a keyword.
-/

namespace ExpLang.Text

/-- Code points of the category Pc. -/
def connectorRanges : List (Nat × Nat) :=
  [(0x5F, 0x5F), (0x203F, 0x2040), (0x2054, 0x2054), (0xFE33, 0xFE34), (0xFE4D, 0xFE4F),
   (0xFF3F, 0xFF3F)]

/-- The ranges of connectors are increasing. -/
theorem connectorRanges_isIncreasing : isIncreasing connectorRanges := by decide +kernel

/-- Whether a character can continue an identifier. -/
def isIdentChar (c : Char) : Bool := isAlphabetic17 c || isNumeric c || c == '_'

/-- Whether a character joins its neighbours: the zero width joiner and non-joiner. -/
def isJoiner (c : Char) : Bool := c == '\u200c' || c == '\u200d'

/-- Whether a character is part of a word. -/
def isWordChar (c : Char) : Bool :=
  isAlphabetic16 c || isMark c || isDigit c || inRanges connectorRanges c.toNat || isJoiner c

end ExpLang.Text
