import ExpLang.Proofs.Matching.Reading

/-!
# Gaps between tokens

A gap ends where nothing more is passed over. Where it ends depends on the text only, not on the
offset it stands at, and a gap that ends before some text also ends before any other text that is
solid: no comment is opened or closed by two characters of which the second one stands behind the
gap. A gap that runs to the end of the text is different, since it may end inside of a comment.
-/

namespace ExpLang.Skipper

open Text

/-- A text of which nothing is passed over. -/
def Solid (cs : List Char) : Prop := ∀ pos, passGap pos cs = ⟨pos, cs⟩

/-- An empty text is solid. -/
theorem solid_nil : Solid [] := fun _ => rfl

/-- A slash is no blank. -/
theorem not_isBlank_slash : isBlank '/' = false := by decide

/-- A blank is passed over, whatever follows. -/
theorem passGap_blank {c : Char} (h : isBlank c = true) (pos : Nat) (cs : List Char) :
    passGap pos (c :: cs) = passGap (pos + c.utf8Size) cs := by
  have hslash : c ≠ '/' := by
    rintro rfl
    rw [not_isBlank_slash] at h
    cases h
  rw [passGap.eq_3 pos c cs (fun _ hc _ => hslash hc) (fun _ hc _ => hslash hc), if_pos h]

/-- A text is solid unless it starts with a blank or with a comment. -/
theorem solid_cons {c : Char} {cs : List Char} (hblank : isBlank c = false)
    (hcomment : c = '/' → cs.head? ≠ some '/' ∧ cs.head? ≠ some '*') : Solid (c :: cs) := by
  intro pos
  rw [passGap.eq_3 pos c cs, if_neg (by simp [hblank])]
  · rintro rest hc rfl
    exact (hcomment hc).1 rfl
  · rintro rest hc rfl
    exact (hcomment hc).2 rfl

/-- Passing over some text and then over a gap moves a cursor. -/
theorem lt_pos_of_advances {pos step : Nat} {cs : List Char} {c : Cursor} (hstep : 0 < step)
    (h : (Cursor.mk (pos + step) cs).Advances c) : pos < c.pos := by
  obtain ⟨text, -, hpos⟩ := h
  rw [hpos]
  exact Nat.lt_add_right _ (Nat.lt_add_of_pos_right hstep)

/-- The first character of a solid text is no blank, and no comment starts there. -/
theorem Solid.head {c : Char} {cs : List Char} (h : Solid (c :: cs)) :
    isBlank c = false ∧ (c = '/' → cs.head? ≠ some '/' ∧ cs.head? ≠ some '*') := by
  have hpos : (passGap 0 (c :: cs)).pos = 0 := congrArg Cursor.pos (h 0)
  refine ⟨?_, ?_⟩
  · refine Bool.eq_false_iff.2 fun hblank => ?_
    rw [passGap_blank hblank] at hpos
    exact Nat.ne_of_gt (lt_pos_of_advances c.utf8Size_pos (pass_advances.1 _ cs)) hpos
  · rintro rfl
    refine ⟨fun hhead => ?_, fun hhead => ?_⟩
    · obtain ⟨rest, rfl⟩ := List.head?_eq_some_iff.1 hhead
      rw [passGap] at hpos
      exact Nat.ne_of_gt (lt_pos_of_advances Nat.two_pos (pass_advances.2.2 _ rest)) hpos
    · obtain ⟨rest, rfl⟩ := List.head?_eq_some_iff.1 hhead
      rw [passGap] at hpos
      exact Nat.ne_of_gt (lt_pos_of_advances Nat.two_pos (pass_advances.2.1 _ rest)) hpos

/-- A text is solid if it starts as a solid text does and goes on with the same character or with a
space. -/
theorem Solid.replace {c : Char} {cs cs' : List Char} (h : Solid (c :: cs))
    (hhead : cs'.head? = cs.head? ∨ cs'.head? = some ' ') : Solid (c :: cs') := by
  obtain ⟨hblank, hcomment⟩ := h.head
  refine solid_cons hblank fun hc => ?_
  rcases hhead with hhead | hhead
  · rw [hhead]
    exact hcomment hc
  · rw [hhead]
    decide

/-- A gap ends before a solid text, and it would end before any other one if it does not run to the
end of the text. -/
structure Passes (pass : Nat → List Char → Cursor) (gap rest : List Char) : Prop where
  solid : Solid rest
  pass_eq : ∀ pos, pass pos (gap ++ rest) = ⟨pos + byteLength gap, rest⟩
  replace : rest ≠ [] → ∀ {rest'}, Solid rest' → ∀ pos,
    pass pos (gap ++ rest') = ⟨pos + byteLength gap, rest'⟩

namespace Passes

variable {pass later : Nat → List Char → Cursor} {gap rest : List Char}

/-- The empty gap before a solid text. -/
theorem nil (h : Solid rest) : Passes passGap [] rest := ⟨h, h, fun _ _ h' => h'⟩

/-- What runs to the end of the text. -/
theorem toEnd (h : ∀ pos, pass pos [] = ⟨pos, []⟩) : Passes pass [] [] :=
  ⟨solid_nil, h, fun hne => absurd rfl hne⟩

/-- Passing over some text and then over a gap. -/
theorem append (h : Passes later gap rest) (text : List Char)
    (heq : ∀ tail, tail = rest ∨ rest ≠ [] → ∀ pos,
      pass pos (text ++ (gap ++ tail)) = later (pos + byteLength text) (gap ++ tail)) :
    Passes pass (text ++ gap) rest where
  solid := h.solid
  pass_eq pos := by
    rw [List.append_assoc, heq rest (.inl rfl), h.pass_eq, byteLength_append, Nat.add_assoc]
  replace hrest rest' hsolid pos := by
    rw [List.append_assoc, heq rest' (.inr hrest), h.replace hrest hsolid, byteLength_append,
      Nat.add_assoc]

end Passes

/-- Every text is a gap and what stands behind it, where a gap may also start inside of a comment. A
block comment has at least its end before what stands behind it. -/
theorem exists_passes :
    (∀ (_ : Nat) cs, ∃ gap rest, cs = gap ++ rest ∧ Passes passGap gap rest) ∧
      (∀ (_ : Nat) cs, ∃ gap rest, cs = gap ++ rest ∧ Passes passBlock gap rest ∧
        (rest ≠ [] → gap ≠ [])) ∧
      ∀ (_ : Nat) cs, ∃ gap rest, cs = gap ++ rest ∧ Passes passLine gap rest := by
  apply passGap.mutual_induct
  case case1 =>
    rintro - cs ⟨gap, rest, rfl, h⟩
    exact ⟨['/', '/'] ++ gap, rest, rfl, h.append ['/', '/'] fun _ _ _ => passGap.eq_1 ..⟩
  case case2 =>
    rintro - cs ⟨gap, rest, rfl, h, -⟩
    exact ⟨['/', '*'] ++ gap, rest, rfl, h.append ['/', '*'] fun _ _ _ => passGap.eq_2 ..⟩
  case case3 =>
    rintro - c cs - - hblank ⟨gap, rest, rfl, h⟩
    exact ⟨[c] ++ gap, rest, rfl, h.append [c] fun _ _ _ => passGap_blank hblank ..⟩
  case case4 =>
    intro _ c cs hline hblock hblank
    refine ⟨[], c :: cs, rfl, .nil fun pos => ?_⟩
    rw [passGap.eq_3 pos c cs hline hblock, if_neg hblank]
  case case5 => exact fun _ => ⟨[], [], rfl, .toEnd fun _ => rfl⟩
  case case6 =>
    rintro - cs ⟨gap, rest, rfl, h⟩
    exact ⟨['*', '/'] ++ gap, rest, rfl, h.append ['*', '/'] fun _ _ _ => passBlock.eq_1 ..,
      fun _ => List.cons_ne_nil _ _⟩
  case case7 =>
    rintro - c cs hend ⟨gap, rest, rfl, h, hmoved⟩
    refine ⟨[c] ++ gap, rest, rfl, h.append [c] fun tail htail pos => ?_,
      fun _ => List.cons_ne_nil _ _⟩
    -- The comment goes on, so the character after this one is still part of it.
    refine passBlock.eq_2 pos c (gap ++ tail) fun after hc heq => ?_
    rcases htail with rfl | hrest
    · exact hend after hc heq
    · obtain ⟨next, gap, rfl⟩ := List.exists_cons_of_ne_nil (hmoved hrest)
      cases heq
      exact hend (gap ++ rest) hc rfl
  case case8 => exact fun _ => ⟨[], [], rfl, .toEnd fun _ => rfl, fun h => absurd rfl h⟩
  case case9 =>
    rintro - cs ⟨gap, rest, rfl, h⟩
    exact ⟨['\n'] ++ gap, rest, rfl, h.append ['\n'] fun _ _ _ => passLine.eq_1 ..⟩
  case case10 =>
    rintro - c cs hend ⟨gap, rest, rfl, h⟩
    exact ⟨[c] ++ gap, rest, rfl, h.append [c] fun _ _ _ => passLine.eq_2 _ c _ hend⟩
  case case11 => exact fun _ => ⟨[], [], rfl, .toEnd fun _ => rfl⟩

/-- Every text is a gap and what stands behind it. -/
theorem exists_gap (cs : List Char) : ∃ gap rest, cs = gap ++ rest ∧ Passes passGap gap rest :=
  exists_passes.1 0 cs

/-- Skipping passes over the gap at a cursor. -/
theorem exists_skip (c : Cursor) : ∃ gap rest, c.rest = gap ++ rest ∧ Passes passGap gap rest ∧
    blanksAndComments.skip c = ⟨c.pos + byteLength gap, rest⟩ := by
  obtain ⟨gap, rest, hrest, hgap⟩ := exists_gap c.rest
  refine ⟨gap, rest, hrest, hgap, ?_⟩
  rw [skip, hrest, hgap.pass_eq]

/-- A gap starts with a blank or with the mark of a comment. -/
theorem Passes.head {c : Char} {gap rest : List Char} (h : Passes passGap (c :: gap) rest) :
    isBlank c = true ∨ c = '/' := by
  refine Decidable.or_iff_not_imp_right.2 fun hslash => ?_
  by_cases hblank : isBlank c = true
  · exact hblank
  · have hsolid : Solid (c :: (gap ++ rest)) :=
      solid_cons (by simpa using hblank) fun hc => absurd hc hslash
    have hpos := congrArg Cursor.pos ((hsolid 0).symm.trans (h.pass_eq 0))
    have := c.utf8Size_pos
    simp only [byteLength] at hpos
    omega

end ExpLang.Skipper
