import ExpLang.Text.Bytes
import ExpLang.Text.Quoted
import ExpLang.Text.Span

/-!
# Source texts

A source is a text with the name it is reported under. Lines are ended by a newline character;
the column of an offset counts bytes from the start of its line, and both are counted from one.
-/

namespace ExpLang

open Text

/-- A named text. -/
structure Source where
  /-- The name that reports use. -/
  name : String
  /-- The characters of the text. -/
  chars : List Char
  deriving DecidableEq, Repr, Inhabited

namespace Source

/-- The source with a given name and text. -/
def ofText (name text : String) : Source := ⟨name, text.toList⟩

/-- The text as a string. -/
def text (s : Source) : String := String.ofList s.chars

/-- Length of the text in bytes. -/
def size (s : Source) : Nat := byteLength s.chars

/-- Whether the text is empty. -/
def isEmpty (s : Source) : Bool := s.chars.isEmpty

/-- The cursor at the start of the text. -/
def start (s : Source) : Cursor := ⟨0, s.chars⟩

/-- The cursor at a byte offset. -/
def cursorAt (s : Source) (pos : Nat) : Cursor := Cursor.ofOffset s.chars pos

/-- The characters between two byte offsets, if both are character boundaries in order. -/
def slice? (s : Source) (span : Span) : Option (List Char) :=
  if span.start ≤ span.stop then
    dropBytes? s.chars span.start >>= (takeBytes? · (span.stop - span.start))
  else
    none

/-- A span has a slice exactly where the text is made of three runs that end at its offsets. -/
theorem slice?_eq_some_iff {s : Source} {span : Span} {part : List Char} :
    s.slice? span = some part ↔ ∃ before after, s.chars = before ++ part ++ after
      ∧ byteLength before = span.start ∧ byteLength before + byteLength part = span.stop := by
  unfold slice?
  constructor
  · intro h
    split at h
    · obtain ⟨rest, hrest, hpart⟩ := Option.bind_eq_some_iff.1 h
      obtain ⟨before, hbefore, hstart⟩ := dropBytes?_eq_some_iff.1 hrest
      obtain ⟨after, hafter, hsize⟩ := takeBytes?_eq_some_iff.1 hpart
      exact ⟨before, after, by rw [hbefore, hafter, List.append_assoc], hstart, by omega⟩
    · cases h
  · rintro ⟨before, after, hchars, hstart, hstop⟩
    rw [if_pos (by omega)]
    apply Option.bind_eq_some_iff.2
    exact ⟨part ++ after, dropBytes?_eq_some_iff.2 ⟨before, by simp [hchars], hstart⟩,
      takeBytes?_eq_some_iff.2 ⟨after, rfl, by omega⟩⟩

/-- The text that a span covers; empty when the span does not fit the text. -/
def slice (s : Source) (span : Span) : String := String.ofList ((s.slice? span).getD [])

/-- Offsets at which lines start, given the offset of the first character. -/
def lineStartsFrom (pos : Nat) : List Char → List Nat
  | [] => []
  | c :: cs =>
    let next := pos + c.utf8Size
    if c = '\n' then next :: lineStartsFrom next cs else lineStartsFrom next cs

/-- Offsets at which lines start, in increasing order. The first line starts at zero, and a start that a
word cannot hold is cut off at the largest offset. -/
def lineStarts (s : Source) : Array UInt32 :=
  ((0 :: lineStartsFrom 0 s.chars).map fun start => UInt32.ofNat (min start Span.maxOffset)).toArray

/-- Where a search in increasing offsets ends. -/
inductive Found where
  /-- The offset stands at an index. -/
  | hit (i : Nat)
  /-- The offset does not occur, and its place is before an index. -/
  | miss (next : Nat)
  deriving DecidableEq, Repr, Inhabited

/-- Look for an offset among those from one index up to another, of which each step leaves a half. -/
def searchBetween (starts : Array UInt32) (offset : UInt32) (lo hi : Nat) : Found :=
  if lo < hi then
    let mid := lo + (hi - lo) / 2
    let start := starts.getD mid 0
    if start = offset then .hit mid
    else if start < offset then searchBetween starts offset (mid + 1) hi
    else searchBetween starts offset lo mid
  else .miss lo
termination_by hi - lo

/-- The line of an offset, counted from zero. -/
def lineIndex (s : Source) (offset : UInt32) : Nat :=
  match searchBetween s.lineStarts offset 0 s.lineStarts.size with
  | .hit line => line
  | .miss next => next - 1

/-- Line and column of a byte offset, both counted from one. They are words like the offset, so that a
count of 2 ^ 32 wraps around to zero. -/
def lineColWords (s : Source) (offset : UInt32) : UInt32 × UInt32 :=
  let line := s.lineIndex offset
  (UInt32.ofNat line + 1, offset - s.lineStarts.getD line 0 + 1)

/-- Line and column of a byte offset as numbers. -/
def lineCol (s : Source) (offset : Nat) : Nat × Nat :=
  let (line, col) := s.lineColWords (UInt32.ofNat offset)
  (line.toNat, col.toNat)

/-- The lines of a text, each with the newline that ends it. -/
def splitLines : List Char → List (List Char)
  | [] => []
  | c :: cs =>
    if c = '\n' then [c] :: splitLines cs
    else match splitLines cs with
      | [] => [[c]]
      | line :: rest => (c :: line) :: rest

/-- A line without its end: a newline and a carriage return before it. -/
def dropLineEnd (line : List Char) : List Char :=
  match line.reverse with
  | '\n' :: '\r' :: body => body.reverse
  | '\n' :: body => body.reverse
  | _ => line

/-- The text of a line, counted from one, without its end; empty past the last line. -/
def lineText (s : Source) (line : Nat) : String :=
  String.ofList (dropLineEnd ((splitLines s.chars).getD (line - 1) []))

/-- The text of a source for inspection: its name and its size. -/
def inspect (s : Source) : String :=
  "SourceFile \x7b name: " ++ quote s.name ++ ", len: " ++ toString s.size ++ ", .. \x7d"

/-- A span of a source is written as the name, the span and the quoted text. -/
def rangeText (s : Source) (span : Span) : String :=
  s.name ++ ":" ++ span.text ++ " " ++ quote (s.slice span)

end Source

end ExpLang
