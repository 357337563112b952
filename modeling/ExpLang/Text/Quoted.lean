import ExpLang.Text.Hidden
import ExpLang.Text.Mark

/-!
# Quoted text

Text is quoted between double quotes. A backslash introduces the quote, the backslash itself and
the common control characters; every other character without a printed form, and every character
that would fuse with the one before it, is written by its code point in hexadecimal.
-/

namespace ExpLang.Text

/-- A code point between braces, in lower case hexadecimal digits. -/
def codePointEscape (c : Char) : List Char :=
  '\\' :: 'u' :: '\x7b' :: Nat.toDigits 16 c.toNat ++ ['\x7d']

/-- The quoted form of one character. -/
def quoteChar (c : Char) : List Char :=
  if c = '\x00' then ['\\', '0']
  else if c = '\t' then ['\\', 't']
  else if c = '\r' then ['\\', 'r']
  else if c = '\n' then ['\\', 'n']
  else if c = '\\' then ['\\', '\\']
  else if c = '"' then ['\\', '"']
  else if isExtending c || isHidden c then codePointEscape c
  else [c]

/-- The quoted form of a text. -/
def quote (s : String) : String :=
  String.ofList ('"' :: s.toList.flatMap quoteChar ++ ['"'])

end ExpLang.Text
