import ExpLang.Grammar.TokenReader
import ExpLang.Text.Word

/-!
# Character patterns

A pattern describes tokens by character sets, sequence, choice and repetition, and is one way to give
a token reader, `Pattern.reader`. A match starts at the beginning of the remaining text. Of several
possible matches the preferred one is taken: the left side of a choice before the right side, and one
more repetition before stopping, where a repetition that reads nothing is the last one.
`Pattern.ends` lists every way to match in the order of preference.

`Pattern.parse?` reads the part of the usual notation that patterns can express: `.`, `^`, `\b`, `\d`,
`\w`, bracketed sets, groups, `|`, `*`, `+` and `?`. It refuses everything else, among it `$`, counted
and lazy repetition, flags and sets within sets.
-/

namespace ExpLang

open Text

/-- A set of characters. -/
inductive CharSet where
  /-- The characters between two bounds, both included. -/
  | range (lo hi : Char)
  /-- The decimal digits. -/
  | digit
  /-- The word characters. -/
  | word
  /-- The characters of one set or the other. -/
  | union (a b : CharSet)
  /-- The characters outside of a set. -/
  | outside (a : CharSet)
  deriving DecidableEq, Repr, Inhabited

/-- Whether a character is in a set. -/
def CharSet.contains : CharSet → Char → Bool
  | range lo hi, c => lo ≤ c && c ≤ hi
  | digit, c => isDigit c
  | word, c => isWordChar c
  | union a b, c => a.contains c || b.contains c
  | outside a, c => !a.contains c

/-- The set of one character. -/
def CharSet.single (c : Char) : CharSet := .range c c

/-- A description of tokens. -/
inductive Pattern where
  /-- Matches without reading anything. -/
  | empty
  /-- One character of a set. -/
  | one (set : CharSet)
  /-- One pattern after the other. -/
  | seq (first second : Pattern)
  /-- One of two patterns, the first one preferred. -/
  | alt (first second : Pattern)
  /-- Any number of repetitions, more preferred over fewer. -/
  | star (body : Pattern)
  /-- The place between a word character and one that is none. -/
  | boundary
  /-- The beginning of the remaining text. -/
  | anchor
  deriving DecidableEq, Repr, Inhabited

/-- A place in a match: the character just read, if any, and the text that is left. -/
structure Place where
  /-- The character read last. -/
  before : Option Char
  /-- The text that is left. -/
  rest : List Char
  deriving DecidableEq, Repr, Inhabited

namespace Pattern

/-- At least one repetition. -/
def plus (p : Pattern) : Pattern := seq p (star p)

/-- One pattern or nothing. -/
def optional (p : Pattern) : Pattern := alt p empty

/-- A fixed text. -/
def literal : List Char → Pattern
  | [] => empty
  | [c] => one (.single c)
  | c :: cs => seq (one (.single c)) (literal cs)

/-- Read one character of a set. -/
def readOne (set : CharSet) (m : Place) : List Place :=
  match m.rest with
  | [] => []
  | c :: cs => if set.contains c then [⟨some c, cs⟩] else []

/-- Whether a word starts or ends at a place. -/
def atBoundary (m : Place) : Bool :=
  m.before.any isWordChar != m.rest.head?.any isWordChar

/-- Repeat a step, the last time when it reads nothing. The list bounds the repetitions that read
something. -/
def repeatEnds (step : Place → List Place) : List Char → Place → List Place
  | [], m => [m]
  | _ :: bound, m =>
    ((step m).flatMap fun m' =>
      if m'.rest.length < m.rest.length then repeatEnds step bound m' else [m']) ++ [m]

/-- All places where a match can end, the preferred one first. -/
def ends : Pattern → Place → List Place
  | empty, m => [m]
  | one set, m => readOne set m
  | seq a b, m => (a.ends m).flatMap b.ends
  | alt a b, m => a.ends m ++ b.ends m
  | star a, m => repeatEnds a.ends m.rest m
  | boundary, m => if atBoundary m then [m] else []
  | anchor, m => if m.before.isNone then [m] else []

/-- The text that the preferred match reads. -/
def token (p : Pattern) (text : List Char) : List Char :=
  match p.ends ⟨none, text⟩ with
  | [] => []
  | m :: _ => text.take (text.length - m.rest.length)

/-- The reader of the tokens that a pattern describes. -/
def reader (p : Pattern) : TokenReader where
  token := p.token
  token_isPrefix text := by
    unfold token
    split
    · exact List.nil_prefix
    · exact List.take_prefix _ _

instance : Coe Pattern TokenReader := ⟨reader⟩

/-! ## Reading patterns -/

/-- The set that an escaped character stands for; punctuation stands for itself, but for the angle
brackets, which are marks of word boundaries. -/
def escape? (c : Char) : Option CharSet :=
  if c = 'd' then some .digit
  else if c = 'D' then some (.outside .digit)
  else if c = 'w' then some .word
  else if c = 'W' then some (.outside .word)
  else if c = 'n' then some (.single '\n')
  else if c = 't' then some (.single '\t')
  else if c = 'r' then some (.single '\r')
  else if c.isAlphanum || c = '<' || c = '>' || 128 ≤ c.toNat then none
  else some (.single c)

/-- Read one member of a bracketed set: a character, a range or an escape. Sets within sets, operators
between sets and ranges from or to an escape are refused. -/
def parseMember : List Char → Option (CharSet × List Char)
  | [] | '[' :: _ | '&' :: '&' :: _ | '~' :: '~' :: _ => none
  | '\\' :: c :: '-' :: ']' :: cs => (escape? c).map (·, '-' :: ']' :: cs)
  | '\\' :: _ :: '-' :: _ => none
  | '\\' :: c :: cs => (escape? c).map (·, cs)
  | lo :: '-' :: hi :: cs =>
    if hi = ']' then some (.single lo, '-' :: hi :: cs)
    else if lo ≤ hi && !"[\\".toList.contains hi then some (.range lo hi, cs) else none
  | c :: cs => some (.single c, cs)

/-- Read the members of a bracketed set up to the closing bracket. The number bounds them. -/
def parseMembers : Nat → CharSet → List Char → Option (CharSet × List Char)
  | 0, _, _ => none
  | _, _, [] => none
  | _, set, ']' :: cs => some (set, cs)
  | n + 1, set, cs => do
    let (member, rest) ← parseMember cs
    parseMembers n (.union set member) rest

/-- Read a bracketed set after its opening bracket. -/
def parseSet (cs : List Char) : Option (CharSet × List Char) :=
  let (negated, cs) := match cs with
    | '^' :: cs => (true, cs)
    | cs => (false, cs)
  do
    let (first, rest) ← parseMember cs
    let (set, rest) ← parseMembers rest.length.succ first rest
    return (if negated then .outside set else set, rest)

/-- Apply the repetition marks that follow an item. A question mark after a mark asks for as few
repetitions as possible and is refused. -/
def parseMarks (p : Pattern) : List Char → Option (Pattern × List Char)
  | '*' :: '?' :: _ | '+' :: '?' :: _ | '?' :: '?' :: _ => none
  | '*' :: cs => parseMarks (star p) cs
  | '+' :: cs => parseMarks (plus p) cs
  | '?' :: cs => parseMarks (optional p) cs
  | cs => some (p, cs)

/-- Read one item without its repetition marks, given how to read what stands in a group. -/
def parseItem (group : List Char → Option (Pattern × List Char)) :
    List Char → Option (Pattern × List Char)
  | '(' :: '?' :: ':' :: cs => group cs >>= close
  | '(' :: cs => group cs >>= close
  | '[' :: cs => (parseSet cs).map fun (set, rest) => (one set, rest)
  | '\\' :: 'b' :: cs => some (boundary, cs)
  | '\\' :: c :: cs => (escape? c).map fun set => (one set, cs)
  | '^' :: cs => some (anchor, cs)
  | '.' :: cs => some (one (.outside (.single '\n')), cs)
  | c :: cs => if "*+?\\$\x7b".toList.contains c then none else some (one (.single c), cs)
  | [] => none
where
  /-- Drop the parenthesis that closes a group. -/
  close : Pattern × List Char → Option (Pattern × List Char)
    | (p, ')' :: rest) => some (p, rest)
    | _ => none

/-- Read a sequence of items up to a bar, a closing parenthesis or the end. -/
def parseSeq (group : List Char → Option (Pattern × List Char)) :
    Nat → Pattern → List Char → Option (Pattern × List Char)
  | _, p, [] => some (p, [])
  | _, p, '|' :: cs => some (p, '|' :: cs)
  | _, p, ')' :: cs => some (p, ')' :: cs)
  | 0, _, _ => none
  | n + 1, p, cs => do
    let (item, rest) ← parseItem group cs
    let (item, rest) ← parseMarks item rest
    parseSeq group n (if p = empty then item else seq p item) rest

/-- Read a choice between sequences. The number bounds nested groups and further choices. -/
def parseAlt : Nat → List Char → Option (Pattern × List Char)
  | 0, _ => none
  | n + 1, cs => do
    let (first, rest) ← parseSeq (parseAlt n) cs.length empty cs
    match rest with
    | '|' :: rest =>
      let (second, rest) ← parseAlt n rest
      return (alt first second, rest)
    | rest => return (first, rest)

/-- The pattern with a given notation, if the notation is well formed. -/
def parse? (s : String) : Option Pattern :=
  match parseAlt s.toList.length.succ s.toList with
  | some (p, []) => some p
  | _ => none

end Pattern

end ExpLang
