import ExpLang.Grammar.Pattern
import ExpLang.Text.Source

/-!
# Readers

A reader is a cursor over a source. Each reading operation either takes a span and moves past it,
or takes nothing and stays where it is.
-/

namespace ExpLang

open Text

/-- A source with a place in it. -/
structure Reader where
  /-- The source. -/
  source : Source
  /-- The place. -/
  cursor : Cursor
  deriving DecidableEq, Repr, Inhabited

namespace Reader

/-- The reader at the start of a source. -/
def ofSource (source : Source) : Reader := ⟨source, source.start⟩

/-- The byte offset of the reader. -/
def pos (r : Reader) : Nat := r.cursor.pos

/-- The text that is left. -/
def rest (r : Reader) : String := String.ofList r.cursor.rest

/-- Whether nothing is left. -/
def atEnd (r : Reader) : Bool := r.source.size ≤ r.pos

/-- Move to a byte offset. -/
def moveTo (r : Reader) (pos : Nat) : Reader := { r with cursor := r.source.cursorAt pos }

/-- Take a number of bytes, or as many as are left. -/
def take (r : Reader) (n : Nat) : Span × Reader :=
  let stop := min (r.pos + n) r.source.size
  (⟨r.pos, stop⟩, r.moveTo stop)

/-- Take a literal, if the text goes on with it. -/
def takeLiteral (r : Reader) (literal : String) : Option (Span × Reader) :=
  (dropPrefix? literal.toList r.cursor.rest).map fun _ => r.take (byteLength literal.toList)

/-- Take the preferred match of a pattern, if there is one that reads something. -/
def takePattern (r : Reader) (p : Pattern) : Option (Span × Reader) :=
  (p.reader.readAt r.cursor).map fun stop => r.take (stop.pos - r.pos)

/-- Take from an opening mark through the next closing mark, or all that is left. -/
def takeBetween (r : Reader) (opening closing : String) : Option (Span × Reader) :=
  (dropPrefix? opening.toList r.cursor.rest).map fun body =>
    let after := (dropThrough? closing.toList body).getD []
    r.take (byteLength r.cursor.rest - byteLength after)

end Reader

end ExpLang
