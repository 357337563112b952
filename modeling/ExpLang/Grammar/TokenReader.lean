import ExpLang.Text.Bytes

/-!
# Token readers

Which names, numbers and other open classes of tokens a language has is not for the matching engine
to know. It is given a reader for each of them, a function that takes from a text the token that the
text starts with. All that matching relies on is that such a token is the beginning of the text in
whole characters, which is part of the type. How a reader finds the token, and which notation describes
it, is left open, so that every statement on matching holds for all readers.

A reader that takes no character has not found a token.
-/

namespace ExpLang

open Text

/-- A function that reads one class of tokens. -/
structure TokenReader where
  /-- The token that a text starts with; empty if it starts with none. -/
  token : List Char → List Char
  /-- A token is the beginning of the text. -/
  token_isPrefix : ∀ text, token text <+: text

namespace TokenReader

instance : Inhabited TokenReader := ⟨⟨fun _ => [], fun _ => List.nil_prefix⟩⟩

/-- Read a token at a cursor. -/
def readAt (reader : TokenReader) (c : Cursor) : Option Cursor :=
  match reader.token c.rest with
  | [] => none
  | token => some ⟨c.pos + byteLength token, c.rest.drop token.length⟩

/-- Reading moves over the token in front of the cursor, and fails where there is none. -/
theorem readAt_eq_some_iff {reader : TokenReader} {c c' : Cursor} :
    reader.readAt c = some c' ↔ reader.token c.rest ≠ [] ∧
      c.rest = reader.token c.rest ++ c'.rest ∧
      c'.pos = c.pos + byteLength (reader.token c.rest) := by
  obtain ⟨rest, hrest⟩ := reader.token_isPrefix c.rest
  obtain ⟨pos', rest'⟩ := c'
  unfold readAt
  cases htoken : reader.token c.rest with
  | nil => simp
  | cons ch token =>
    rw [htoken] at hrest
    have hdrop : c.rest.drop (ch :: token).length = rest := by rw [← hrest, List.drop_left]
    simp only [hdrop, Option.some.injEq, Cursor.mk.injEq]
    constructor
    · rintro ⟨rfl, rfl⟩
      exact ⟨List.cons_ne_nil ch token, hrest.symm, rfl⟩
    · rintro ⟨-, heq, hpos⟩
      exact ⟨hpos.symm, List.append_cancel_left (hrest.trans heq)⟩

/-- Nothing is read where there is no token. -/
theorem readAt_eq_none_iff {reader : TokenReader} {c : Cursor} :
    reader.readAt c = none ↔ reader.token c.rest = [] := by
  unfold readAt
  cases reader.token c.rest <;> simp

end TokenReader

end ExpLang
