/-!
# Byte offsets into text

Positions in a source text are byte offsets into its UTF-8 encoding, while the text itself is a
list of characters. An offset that falls inside a character, or past the end, has no text after
it. A cursor pairs an offset with the text that follows, so that reading on from it costs nothing.

Offsets are 32-bit words in the programs and reports that are described here, and numbers without a bound
in this library. In a text below 2 ^ 32 bytes every offset is a word and the two are the same. In a
longer one, words are cut off or wrap around, so that what is said of positions is meant for texts below
that bound. Where an offset is given from outside, as to `Skipper.skipOffset` and `Source.lineColWords`,
it is a word here too.

An offset splits a text exactly where the text is made of two runs of characters the first of which
takes that many bytes: `takeBytes?_eq_some_iff` and `dropBytes?_eq_some_iff`.
-/

namespace ExpLang.Text

/-- Number of bytes that a run of characters takes. -/
def byteLength : List Char → Nat
  | [] => 0
  | c :: cs => c.utf8Size + byteLength cs

/-- The byte length of two texts is the sum of theirs. -/
theorem byteLength_append (cs ds : List Char) :
    byteLength (cs ++ ds) = byteLength cs + byteLength ds := by
  induction cs with
  | nil => simp [byteLength]
  | cons c cs ih => simp [byteLength, ih, Nat.add_assoc]

/-- Every character takes a byte. -/
theorem eq_nil_of_byteLength_eq_zero {cs : List Char} (h : byteLength cs = 0) : cs = [] := by
  cases cs with
  | nil => rfl
  | cons c cs =>
    have := c.utf8Size_pos
    simp only [byteLength] at h
    omega

/-- A text with a character in it takes a byte. -/
theorem byteLength_pos {cs : List Char} (h : cs ≠ []) : 0 < byteLength cs :=
  Nat.pos_of_ne_zero fun hzero => h (eq_nil_of_byteLength_eq_zero hzero)

/-- The text from a byte offset on, if the offset is a character boundary of the text. -/
def dropBytes? : List Char → Nat → Option (List Char)
  | cs, 0 => some cs
  | [], _ + 1 => none
  | c :: cs, n + 1 =>
    if c.utf8Size ≤ n + 1 then dropBytes? cs (n + 1 - c.utf8Size) else none

/-- Dropping the bytes of a first part leaves the rest. -/
theorem dropBytes?_append (cs rest : List Char) :
    dropBytes? (cs ++ rest) (byteLength cs) = some rest := by
  induction cs with
  | nil => simp [byteLength, dropBytes?]
  | cons c cs ih =>
    have := c.utf8Size_pos
    obtain ⟨n, hn⟩ : ∃ n, byteLength (c :: cs) = n + 1 :=
      ⟨c.utf8Size + byteLength cs - 1, by simp only [byteLength]; omega⟩
    have hc : c.utf8Size ≤ n + 1 := by simp only [byteLength] at hn; omega
    have hr : n + 1 - c.utf8Size = byteLength cs := by simp only [byteLength] at hn; omega
    rw [hn, List.cons_append, dropBytes?, if_pos hc, hr, ih]

/-- Dropping bytes leaves what follows a first part of that byte length. -/
theorem dropBytes?_eq_some_iff {cs rest : List Char} {n : Nat} :
    dropBytes? cs n = some rest ↔ ∃ first, cs = first ++ rest ∧ byteLength first = n := by
  constructor
  · intro h
    fun_induction dropBytes? cs n with
    | case1 cs => cases h; exact ⟨[], rfl, rfl⟩
    | case2 => cases h
    | case3 c cs n hc ih =>
      obtain ⟨first, hfirst, hsize⟩ := ih h
      exact ⟨c :: first, by rw [hfirst, List.cons_append], by simp only [byteLength]; omega⟩
    | case4 => cases h
  · rintro ⟨first, rfl, rfl⟩
    exact dropBytes?_append first rest

/-- The first bytes of a text, if their end is a character boundary of the text. -/
def takeBytes? : List Char → Nat → Option (List Char)
  | _, 0 => some []
  | [], _ + 1 => none
  | c :: cs, n + 1 =>
    if c.utf8Size ≤ n + 1 then (takeBytes? cs (n + 1 - c.utf8Size)).map (c :: ·) else none

/-- Taking the bytes of a first part gives that part. -/
theorem takeBytes?_append (cs rest : List Char) :
    takeBytes? (cs ++ rest) (byteLength cs) = some cs := by
  induction cs with
  | nil => simp [byteLength, takeBytes?]
  | cons c cs ih =>
    have := c.utf8Size_pos
    obtain ⟨n, hn⟩ : ∃ n, byteLength (c :: cs) = n + 1 :=
      ⟨c.utf8Size + byteLength cs - 1, by simp only [byteLength]; omega⟩
    have hc : c.utf8Size ≤ n + 1 := by simp only [byteLength] at hn; omega
    have hr : n + 1 - c.utf8Size = byteLength cs := by simp only [byteLength] at hn; omega
    rw [hn, List.cons_append, takeBytes?, if_pos hc, hr, ih, Option.map_some]

/-- Taking bytes gives the first part of that byte length. -/
theorem takeBytes?_eq_some_iff {cs first : List Char} {n : Nat} :
    takeBytes? cs n = some first ↔ ∃ rest, cs = first ++ rest ∧ byteLength first = n := by
  constructor
  · intro h
    fun_induction takeBytes? cs n generalizing first with
    | case1 cs => cases h; exact ⟨cs, rfl, rfl⟩
    | case2 => cases h
    | case3 c cs n hc ih =>
      obtain ⟨tail, ht, rfl⟩ := Option.map_eq_some_iff.1 h
      obtain ⟨rest, hrest, hsize⟩ := ih ht
      exact ⟨rest, by rw [hrest, List.cons_append], by simp only [byteLength]; omega⟩
    | case4 => cases h
  · rintro ⟨rest, rfl, rfl⟩
    exact takeBytes?_append first rest

/-- The text that follows `pre`, if the text starts with it. -/
def dropPrefix? : List Char → List Char → Option (List Char)
  | [], cs => some cs
  | _ :: _, [] => none
  | p :: pre, c :: cs => if p = c then dropPrefix? pre cs else none

/-- Dropping a prefix leaves what follows it. -/
theorem dropPrefix?_eq_some_iff {pre cs rest : List Char} :
    dropPrefix? pre cs = some rest ↔ cs = pre ++ rest := by
  induction pre generalizing cs with
  | nil => simp [dropPrefix?]
  | cons p pre ih =>
    cases cs with
    | nil => simp [dropPrefix?]
    | cons c cs => by_cases h : p = c <;> simp [dropPrefix?, h, ih, eq_comm]

/-- The text after the first occurrence of `mark`, if there is one. -/
def dropThrough? (mark : List Char) : List Char → Option (List Char)
  | [] => dropPrefix? mark []
  | c :: cs => match dropPrefix? mark (c :: cs) with
    | some rest => some rest
    | none => dropThrough? mark cs

end ExpLang.Text

namespace ExpLang

open Text

/-- A byte offset together with the text from there on. -/
structure Cursor where
  /-- Byte offset from the start of the text. -/
  pos : Nat
  /-- The text from the offset on; empty when the offset is no character boundary. -/
  rest : List Char
  deriving DecidableEq, Repr, Inhabited

namespace Cursor

/-- The cursor at a byte offset of a text. -/
def ofOffset (text : List Char) (pos : Nat) : Cursor := ⟨pos, (dropBytes? text pos).getD []⟩

end Cursor

end ExpLang
