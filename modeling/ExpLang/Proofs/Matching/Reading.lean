import ExpLang.Grammar.Matching

/-!
# Reading moves a cursor over the text in front of it

Passing over a gap and reading a token both move a cursor over a run of characters in front of it
and by as many bytes as the run takes. So the cursors of a source stay cursors of that source, and
the text between two of them is the slice of the source between their offsets.
-/

namespace ExpLang

open Text

namespace Cursor

variable {c c' c'' : Cursor}

/-- A cursor stands behind another one, with some text of the other in between. -/
def Advances (c c' : Cursor) : Prop :=
  ∃ text, c.rest = text ++ c'.rest ∧ c'.pos = c.pos + byteLength text

/-- A cursor advances to itself, over no text. -/
theorem Advances.refl (c : Cursor) : c.Advances c := ⟨[], rfl, rfl⟩

/-- A cursor advances over one text and then another. -/
theorem Advances.trans (h : c.Advances c') (h' : c'.Advances c'') : c.Advances c'' := by
  obtain ⟨text, hrest, hpos⟩ := h
  obtain ⟨text', hrest', hpos'⟩ := h'
  refine ⟨text ++ text', ?_, ?_⟩
  · rw [hrest, hrest', List.append_assoc]
  · rw [hpos', hpos, byteLength_append, Nat.add_assoc]

/-- Moving over the first run of characters. -/
theorem Advances.over (pos : Nat) (text rest : List Char) :
    (Cursor.mk pos (text ++ rest)).Advances ⟨pos + byteLength text, rest⟩ := ⟨text, rfl, rfl⟩

/-- A cursor advances over its next character. -/
theorem Advances.cons (pos : Nat) (ch : Char) (rest : List Char) :
    (Cursor.mk pos (ch :: rest)).Advances ⟨pos + ch.utf8Size, rest⟩ := .over pos [ch] rest

/-- Advancing does not lower the offset. -/
theorem Advances.le (h : c.Advances c') : c.pos ≤ c'.pos := by
  obtain ⟨text, -, hpos⟩ := h
  exact hpos ▸ Nat.le_add_right _ _

/-- A cursor stands behind another one and some text in front of that one. -/
structure Moves (c c' : Cursor) : Prop where
  advances : c.Advances c'
  lt : c.pos < c'.pos

/-- Two moves are one. -/
theorem Moves.trans (h : c.Moves c') (h' : c'.Moves c'') : c.Moves c'' :=
  ⟨h.advances.trans h'.advances, Nat.lt_trans h.lt h'.lt⟩

/-- A move and an advance are a move. -/
theorem Moves.trans_advances (h : c.Moves c') (h' : c'.Advances c'') : c.Moves c'' :=
  ⟨h.advances.trans h', Nat.lt_of_lt_of_le h.lt h'.le⟩

/-- Less is left of the text. -/
theorem Moves.length_lt (h : c.Moves c') : c'.rest.length < c.rest.length := by
  obtain ⟨⟨text, hrest, hpos⟩, hlt⟩ := h
  have hne : text ≠ [] := by
    rintro rfl
    exact Nat.ne_of_lt hlt hpos.symm
  rw [hrest, List.length_append]
  exact Nat.lt_add_of_pos_left (List.length_pos_iff.2 hne)

/-- A span lies between two cursors. -/
def Between (c stop : Cursor) (span : Span) : Prop :=
  ∃ first last, c.Advances first ∧ first.Advances last ∧ last.Advances stop ∧
    span = ⟨first.pos, last.pos⟩

/-- A span between two cursors is between cursors further apart. -/
theorem Between.mono {stop stop' : Cursor} {span : Span} (h : Between c stop span)
    (hc : c'.Advances c) (hstop : stop.Advances stop') : Between c' stop' span := by
  obtain ⟨first, last, hfirst, hmid, hlast, rfl⟩ := h
  exact ⟨first, last, hc.trans hfirst, hmid, hlast.trans hstop, rfl⟩

end Cursor

open Cursor (Advances)

namespace Skipper

/-- Passing blanks advances. -/
theorem passBlanks_advances (pos : Nat) (cs : List Char) :
    (Cursor.mk pos cs).Advances (passBlanks pos cs) := by
  fun_induction passBlanks pos cs with
  | case1 => exact .refl _
  | case2 pos c cs _ ih => exact (Advances.cons pos c cs).trans ih
  | case3 => exact .refl _

/-- Passing over a gap, over the rest of a block comment and over the rest of a line comment. -/
theorem pass_advances :
    (∀ pos cs, (Cursor.mk pos cs).Advances (passGap pos cs)) ∧
      (∀ pos cs, (Cursor.mk pos cs).Advances (passBlock pos cs)) ∧
      ∀ pos cs, (Cursor.mk pos cs).Advances (passLine pos cs) := by
  apply passGap.mutual_induct
  case case1 =>
    intro pos cs ih
    rw [passGap]
    exact (Advances.over pos ['/', '/'] cs).trans ih
  case case2 =>
    intro pos cs ih
    rw [passGap]
    exact (Advances.over pos ['/', '*'] cs).trans ih
  case case3 =>
    intro pos c cs hline hblock hblank ih
    rw [passGap.eq_3 pos c cs hline hblock, if_pos hblank]
    exact (Advances.cons pos c cs).trans ih
  case case4 =>
    intro pos c cs hline hblock hblank
    rw [passGap.eq_3 pos c cs hline hblock, if_neg hblank]
    exact .refl _
  case case6 =>
    intro pos cs ih
    rw [passBlock]
    exact (Advances.over pos ['*', '/'] cs).trans ih
  case case7 =>
    intro pos c cs hend ih
    rw [passBlock.eq_2 pos c cs hend]
    exact (Advances.cons pos c cs).trans ih
  case case9 =>
    intro pos cs ih
    rw [passLine]
    exact (Advances.cons pos '\n' cs).trans ih
  case case10 =>
    intro pos c cs hend ih
    rw [passLine.eq_2 pos c cs hend]
    exact (Advances.cons pos c cs).trans ih
  case case5 | case8 | case11 => exact fun _ => .refl _

/-- Passing over a gap moves a cursor over the text in front of it. -/
theorem skip_advances (sk : Skipper) (c : Cursor) : c.Advances (sk.skip c) := by
  cases sk with
  | none => exact .refl c
  | blanks => exact passBlanks_advances c.pos c.rest
  | blanksAndComments => exact pass_advances.1 c.pos c.rest

end Skipper

/-- Reading a fixed token. -/
theorem readLiteral_advances {text : List Char} {c c' : Cursor}
    (h : readLiteral text c = some c') : c.Advances c' := by
  unfold readLiteral at h
  split at h
  · rename_i after hafter
    split at h
    · cases h
      exact ⟨text, dropPrefix?_eq_some_iff.1 hafter, rfl⟩
    · cases h
  · cases h

/-- A fixed token of a set is the beginning of the text. -/
theorem Literals.longest?_isPrefix {set : Literals} {cs text : List Char}
    (h : set.longest? cs = some text) : ∃ rest, cs = text ++ rest := by
  obtain ⟨group, -, hprobe⟩ := List.exists_of_findSome?_eq_some h
  simp only [probe, Option.bind_eq_bind, Option.bind_eq_some_iff] at hprobe
  obtain ⟨start, hstart, after, -, hchosen⟩ := hprobe
  split at hchosen
  · cases hchosen
    obtain ⟨rest, hrest, -⟩ := takeBytes?_eq_some_iff.1 hstart
    exact ⟨rest, hrest⟩
  · cases hchosen

/-- Reading a fixed token of a set. -/
theorem readLiterals_advances {set : Literals} {c c' : Cursor}
    (h : readLiterals set c = some c') : c.Advances c' := by
  unfold readLiterals at h
  split at h
  · rename_i text htext
    cases h
    obtain ⟨rest, hrest⟩ := Literals.longest?_isPrefix htext
    exact ⟨text, by simp [hrest], rfl⟩
  · cases h

/-- Reading a token of a class. -/
theorem TokenReader.readAt_advances {reader : TokenReader} {c c' : Cursor}
    (h : reader.readAt c = some c') : c.Advances c' :=
  ⟨_, (readAt_eq_some_iff.1 h).2⟩

namespace Source

variable {source : Source} {c c' : Cursor}

/-- A cursor is the one that the source has at its offset. -/
def HasCursor (source : Source) (c : Cursor) : Prop := c = source.cursorAt c.pos

/-- The cursor of a source at an offset is one of the source. -/
theorem hasCursor_cursorAt (source : Source) (pos : Nat) :
    source.HasCursor (source.cursorAt pos) := rfl

/-- The cursor at offset 0 is the start. -/
theorem cursorAt_zero (source : Source) : source.cursorAt 0 = source.start := by
  simp [cursorAt, Cursor.ofOffset, dropBytes?, start]

/-- The start is a cursor of the source. -/
theorem hasCursor_start (source : Source) : source.HasCursor source.start :=
  source.cursorAt_zero.symm

/-- Reading stays in the source. Where an offset is no character boundary nothing can be read. -/
theorem HasCursor.advance (h : source.HasCursor c) (hc : c.Advances c') : source.HasCursor c' := by
  obtain ⟨text, hrest, hpos⟩ := hc
  have hhere : c.rest = (dropBytes? source.chars c.pos).getD [] := by rw [h]; rfl
  cases hdrop : dropBytes? source.chars c.pos with
  | none =>
    rw [hdrop, hrest, Option.getD_none, List.append_eq_nil_iff] at hhere
    obtain ⟨rfl, hrest'⟩ := hhere
    have heq : c' = c := by
      obtain ⟨pos, rest⟩ := c
      obtain ⟨pos', rest'⟩ := c'
      simp_all [byteLength]
    rwa [heq]
  | some rest =>
    rw [hdrop, Option.getD_some] at hhere
    obtain ⟨first, hfirst, hsize⟩ := dropBytes?_eq_some_iff.1 hdrop
    have hdrop' : dropBytes? source.chars c'.pos = some c'.rest := by
      refine dropBytes?_eq_some_iff.2 ⟨first ++ text, ?_, ?_⟩
      · rw [hfirst, ← hhere, hrest, List.append_assoc]
      · rw [byteLength_append, hsize, hpos]
    rw [HasCursor, cursorAt, Cursor.ofOffset, hdrop', Option.getD_some]

/-- What is reached from the start of a source by reading lies in the source. -/
theorem pos_le_size_of_advances (h : source.start.Advances c) : c.pos ≤ source.size := by
  obtain ⟨text, hrest, hpos⟩ := h
  change source.chars = _ at hrest
  rw [hpos, size, hrest, byteLength_append, start, Nat.zero_add]
  exact Nat.le_add_right _ _

/-- A cursor reached from the start of a source with nothing left stands at its end. -/
theorem pos_eq_size_of_advances (h : source.start.Advances c) (hrest : c.rest = []) :
    c.pos = source.size := by
  obtain ⟨text, htext, hpos⟩ := h
  rw [hrest, List.append_nil] at htext
  rw [hpos, ← htext, start, size, Nat.zero_add]

/-- The text between two cursors is the slice between their offsets. -/
theorem slice?_of_advances (h : source.start.Advances c) (hc : c.Advances c') :
    ∃ text, source.slice? ⟨c.pos, c'.pos⟩ = some text ∧ c.rest = text ++ c'.rest := by
  obtain ⟨before, hbefore, hpos⟩ := h
  obtain ⟨text, hrest, hpos'⟩ := hc
  refine ⟨text, slice?_eq_some_iff.2 ⟨before, c'.rest, ?_, ?_, ?_⟩, hrest⟩
  · rw [List.append_assoc, ← hrest]
    exact hbefore
  · rw [hpos, start, Nat.zero_add]
  · rw [hpos', hpos, start, Nat.zero_add]

end Source

end ExpLang
