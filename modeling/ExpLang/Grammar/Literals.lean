import ExpLang.Text.Bytes
import ExpLang.Text.Word

/-!
# Sets of literals

The operators of a language share beginnings, so that one of them has to be told from the longest
candidate down. Candidates are grouped by their length in bytes, longest group first: one probe of
each length decides, since a text has only one beginning of that length. A literal that ends in an
identifier character matches only where the identifier ends too.
-/

namespace ExpLang

open Text

/-- Whether a literal ends where a word may end: it does not end in an identifier character that
the text after it continues. -/
def atWordEnd (literal after : List Char) : Bool :=
  !(literal.getLast?.any isIdentChar && after.head?.any isIdentChar)

/-- A set of literals, grouped by length. -/
structure Literals where
  /-- A length in bytes with the candidates of that length, longest first. -/
  groups : List (Nat × List (List Char))
  deriving DecidableEq, Repr, Inhabited

namespace Literals

/-- Add a candidate to the group of its length; groups stay in order of decreasing length. -/
def insertInto (literal : List Char) (size : Nat) :
    List (Nat × List (List Char)) → List (Nat × List (List Char))
  | [] => [(size, [literal])]
  | (n, set) :: groups =>
    if n = size then (n, if set.contains literal then set else set ++ [literal]) :: groups
    else if n < size then (size, [literal]) :: (n, set) :: groups
    else (n, set) :: insertInto literal size groups

/-- Add a candidate. -/
def insert (set : Literals) (literal : List Char) : Literals :=
  ⟨insertInto literal (byteLength literal) set.groups⟩

/-- The set of the candidates of a list; repetitions count once. -/
def ofList (literals : List (List Char)) : Literals := literals.foldl insert ⟨[]⟩

/-- All candidates, longest first. -/
def toList (set : Literals) : List (List Char) := set.groups.flatMap (·.2)

/-- The beginning of the text of a given length, if it is a candidate that ends a word. -/
def probe (text : List Char) (group : Nat × List (List Char)) : Option (List Char) := do
  let start ← takeBytes? text group.1
  let after ← dropBytes? text group.1
  if group.2.contains start && atWordEnd start after then some start else none

/-- The longest candidate that the text starts with and that ends a word there. -/
def longest? (set : Literals) (text : List Char) : Option (List Char) :=
  set.groups.findSome? (probe text)

end Literals

end ExpLang
