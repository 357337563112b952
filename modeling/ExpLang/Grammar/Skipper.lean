import ExpLang.Text.Blank
import ExpLang.Text.Source

/-!
# Skippers

Before each token the matcher passes over what carries no meaning: nothing, blank characters, or
blank characters and comments. A line comment runs through the next newline, a block comment
through the next closing mark; either may also run to the end of the text.

Offsets are words for those who ask a skipper about a text, `skipOffset`. Where a skipper moves a cursor
the offset is a number, which is the word in texts below 2 ^ 32 bytes.
-/

namespace ExpLang

open Text

/-- What is passed over before each token. -/
inductive Skipper where
  /-- Nothing. -/
  | none
  /-- Blank characters. -/
  | blanks
  /-- Blank characters, line comments and block comments. -/
  | blanksAndComments
  deriving DecidableEq, Repr, Inhabited

namespace Skipper

/-- Pass over blank characters. -/
def passBlanks (pos : Nat) : List Char → Cursor
  | [] => ⟨pos, []⟩
  | c :: cs => if isBlank c then passBlanks (pos + c.utf8Size) cs else ⟨pos, c :: cs⟩

mutual

/-- Pass over blank characters and comments. -/
def passGap (pos : Nat) : List Char → Cursor
  | '/' :: '/' :: cs => passLine (pos + 2) cs
  | '/' :: '*' :: cs => passBlock (pos + 2) cs
  | c :: cs => if isBlank c then passGap (pos + c.utf8Size) cs else ⟨pos, c :: cs⟩
  | [] => ⟨pos, []⟩

/-- Pass over the rest of a line comment and the gap after it. -/
def passLine (pos : Nat) : List Char → Cursor
  | '\n' :: cs => passGap (pos + 1) cs
  | c :: cs => passLine (pos + c.utf8Size) cs
  | [] => ⟨pos, []⟩

/-- Pass over the rest of a block comment and the gap after it. -/
def passBlock (pos : Nat) : List Char → Cursor
  | '*' :: '/' :: cs => passGap (pos + 2) cs
  | c :: cs => passBlock (pos + c.utf8Size) cs
  | [] => ⟨pos, []⟩

end

/-- Move a cursor to the first significant character at or after it. -/
def skip : Skipper → Cursor → Cursor
  | none, c => c
  | blanks, c => passBlanks c.pos c.rest
  | blanksAndComments, c => passGap c.pos c.rest

/-- Where the next token would start after an offset of a source. -/
def skipFrom (sk : Skipper) (source : Source) (pos : Nat) : Nat :=
  (sk.skip (source.cursorAt pos)).pos

end Skipper

end ExpLang
