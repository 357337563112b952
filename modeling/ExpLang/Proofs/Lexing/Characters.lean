import ExpLang.Syntax.Rules

/-!
# How the character classes overlap

Tokens are told apart by their characters, and the classes that decide are tables of code points:
blanks, letters, digits, identifier characters and word characters. A table lies inside another one,
or apart from it, when all its ranges do, which is a finite check.
-/

namespace ExpLang.Text

variable {inner outer table : List (Nat × Nat)} {n : Nat}

/-- Every range of a table lies in a range of another one. -/
def rangesInside (inner outer : List (Nat × Nat)) : Bool :=
  inner.all fun r => outer.any fun q => decide (q.1 ≤ r.1) && decide (r.2 ≤ q.2)

/-- No range of a table meets a range of another one. -/
def rangesApart (table outer : List (Nat × Nat)) : Bool :=
  table.all fun r => outer.all fun q => decide (r.2 < q.1) || decide (q.2 < r.1)

/-- A character in ranges inside other ones is in those. -/
theorem inRanges_of_inside (hinner : isIncreasing inner) (houter : isIncreasing outer)
    (h : rangesInside inner outer = true) (hn : inRanges inner n = true) :
    inRanges outer n = true := by
  obtain ⟨r, hr, hle, hge⟩ := (inRanges_iff hinner n).1 hn
  obtain ⟨q, hq, hqr⟩ := List.any_eq_true.1 (List.all_eq_true.1 h r hr)
  rw [Bool.and_eq_true, decide_eq_true_eq, decide_eq_true_eq] at hqr
  exact (inRanges_iff houter n).2 ⟨q, hq, Nat.le_trans hqr.1 hle, Nat.le_trans hge hqr.2⟩

/-- A character in ranges apart from other ones is not in those. -/
theorem not_inRanges_of_apart (htable : isIncreasing table) (houter : isIncreasing outer)
    (h : rangesApart table outer = true) (hn : inRanges table n = true) :
    inRanges outer n = false := by
  refine Bool.eq_false_iff.2 fun hn' => ?_
  obtain ⟨r, hr, hle, hge⟩ := (inRanges_iff htable n).1 hn
  obtain ⟨q, hq, hle', hge'⟩ := (inRanges_iff houter n).1 hn'
  have hapart := List.all_eq_true.1 (List.all_eq_true.1 h r hr) q hq
  rw [Bool.or_eq_true, decide_eq_true_eq, decide_eq_true_eq] at hapart
  omega

variable {c : Char}

/-- Digits are word characters. -/
theorem isWordChar_of_isDigit (h : isDigit c = true) : isWordChar c = true := by
  simp [isWordChar, h]

/-- Digits are characters of identifiers. -/
theorem isIdentChar_of_isDigit (h : isDigit c = true) : isIdentChar c = true := by
  have hnumeric : isNumeric c = true :=
    inRanges_of_inside digitRanges_isIncreasing numericRanges_isIncreasing (by decide +kernel) h
  simp [isIdentChar, hnumeric]

/-- Blanks are in no other class. -/
theorem not_of_isBlank (h : isBlank c = true) :
    isDigit c = false ∧ isWordChar c = false ∧ isIdentChar c = false := by
  have hclear {outer : List (Nat × Nat)} (houter : isIncreasing outer)
      (hcheck : rangesApart blankRanges outer = true) : inRanges outer c.toNat = false :=
    not_inRanges_of_apart blankRanges_isIncreasing houter hcheck h
  have hdigit : isDigit c = false := hclear digitRanges_isIncreasing (by decide +kernel)
  have halpha : isAlphabetic16 c = false := hclear alphabeticRanges_isIncreasing (by decide +kernel)
  have hadded : inRanges addedAlphabeticRanges c.toNat = false :=
    hclear addedAlphabeticRanges_isIncreasing (by decide +kernel)
  have hnumeric : isNumeric c = false := hclear numericRanges_isIncreasing (by decide +kernel)
  have hmark : isMark c = false := hclear markRanges_isIncreasing (by decide +kernel)
  have hconnector : inRanges connectorRanges c.toNat = false :=
    hclear connectorRanges_isIncreasing (by decide +kernel)
  have hne {d : Char} (hd : isBlank d = false) : c ≠ d := by
    rintro rfl
    rw [hd] at h
    cases h
  have hunderscore : c ≠ '_' := hne (by decide)
  have hjoiner : isJoiner c = false := by
    simp [isJoiner, hne (d := '\u200c') (by decide), hne (d := '\u200d') (by decide)]
  refine ⟨hdigit, ?_, ?_⟩
  · simp [isWordChar, halpha, hmark, hdigit, hconnector, hjoiner]
  · simp [isIdentChar, isAlphabetic17, halpha, hadded, hnumeric, hunderscore]

end ExpLang.Text

namespace ExpLang.Syntax

open Text

variable {c : Char}

/-- Code points of the letters that a name can start with. -/
def letterRanges : List (Nat × Nat) :=
  [(0x41, 0x5A), (0x61, 0x7A), (0x17F, 0x17F), (0x212A, 0x212A)]

/-- The ranges of letters are increasing. -/
theorem letterRanges_isIncreasing : isIncreasing letterRanges := by decide

/-- A letter is in the ranges of letters. -/
theorem inRanges_letterRanges (h : letters.contains c = true) :
    inRanges letterRanges c.toNat = true := by
  rw [inRanges_iff letterRanges_isIncreasing]
  simp only [letters, CharSet.contains, CharSet.single, Bool.or_eq_true, Bool.and_eq_true,
    decide_eq_true_eq, Char.le_def, UInt32.le_iff_toNat_le] at h
  simp only [letterRanges, List.mem_cons, List.not_mem_nil, or_false]
  change ((97 ≤ c.toNat ∧ c.toNat ≤ 122) ∨ (65 ≤ c.toNat ∧ c.toNat ≤ 90)) ∨
    (383 ≤ c.toNat ∧ c.toNat ≤ 383) ∨ (8490 ≤ c.toNat ∧ c.toNat ≤ 8490) at h
  rcases h with (h | h) | h | h
  · exact ⟨_, .inr (.inl rfl), h⟩
  · exact ⟨_, .inl rfl, h⟩
  · exact ⟨_, .inr (.inr (.inl rfl)), h⟩
  · exact ⟨_, .inr (.inr (.inr rfl)), h⟩

/-- A letter is a word character and an identifier character, and neither a digit nor a blank. -/
theorem of_letter (h : letters.contains c = true) :
    isWordChar c = true ∧ isIdentChar c = true ∧ isDigit c = false ∧ isBlank c = false := by
  have hletter := inRanges_letterRanges h
  have halpha : isAlphabetic16 c = true :=
    inRanges_of_inside letterRanges_isIncreasing alphabeticRanges_isIncreasing (by decide +kernel)
      hletter
  refine ⟨by simp [isWordChar, halpha], by simp [isIdentChar, isAlphabetic17, halpha], ?_, ?_⟩
  · exact not_inRanges_of_apart letterRanges_isIncreasing digitRanges_isIncreasing
      (by decide +kernel) hletter
  · exact not_inRanges_of_apart letterRanges_isIncreasing blankRanges_isIncreasing
      (by decide +kernel) hletter

end ExpLang.Syntax
