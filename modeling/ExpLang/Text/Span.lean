/-!
# Spans

A span is a half-open range of byte offsets into one source text, which hold for texts below 2 ^ 32
bytes; see `ExpLang.Text.Bytes`. It does not hold the text
itself; `Source.slice` gives the text that a span covers.
-/

namespace ExpLang

/-- A half-open range of byte offsets. -/
structure Span where
  /-- Offset of the first byte. -/
  start : Nat
  /-- Offset past the last byte. -/
  stop : Nat
  deriving DecidableEq, Repr, Inhabited

namespace Span

/-- The largest offset that a span can hold; offsets are 32-bit words. -/
def maxOffset : Nat := 4294967295

/-- The span of things that stand nowhere in the text. -/
def synthetic : Span := ⟨0, 0⟩

/-- The span between two offsets, each cut off at the largest offset. -/
def ofOffsets (start stop : Nat) : Span := ⟨min start maxOffset, min stop maxOffset⟩

/-- The empty span at an offset. -/
def point (offset : Nat) : Span := ⟨offset, offset⟩

/-- Number of bytes covered. -/
def length (s : Span) : Nat := s.stop - s.start

/-- Whether no byte is covered. -/
def isEmpty (s : Span) : Bool := s.start == s.stop

/-- Whether an offset lies inside the span. -/
def contains (s : Span) (offset : Nat) : Bool := s.start ≤ offset && offset < s.stop

/-- The smallest span that covers two spans. -/
def merge (s t : Span) : Span := ⟨min s.start t.start, max s.stop t.stop⟩

/-- Merging spans is associative. -/
theorem merge_assoc (s t u : Span) : (s.merge t).merge u = s.merge (t.merge u) := by
  simp only [merge, Nat.min_assoc, Nat.max_assoc]

instance : Std.Associative merge := ⟨merge_assoc⟩

/-- The smallest span that covers all spans of a list; none for the empty list. -/
def cover : List Span → Option Span
  | [] => none
  | s :: rest => some (rest.foldl merge s)

/-- A span is written as its two offsets with two dots between them. -/
def text (s : Span) : String := s!"{s.start}..{s.stop}"

end Span

end ExpLang
