/-!
# Sets of characters given by code point ranges

A character class of the Unicode standard is a table of closed code point ranges, in increasing
order and disjoint. Membership scans the table and stops at the first range that starts past the
code point, so a character early in the table costs little whatever the size of the table.
`inRanges_iff` says that the scan misses nothing, provided that the table is increasing.
-/

namespace ExpLang.Text

/-- Whether a code point lies in one of the closed ranges of an increasing table. -/
def inRanges : List (Nat × Nat) → Nat → Bool
  | [], _ => false
  | (lo, hi) :: rest, n => if n < lo then false else n ≤ hi || inRanges rest n

/-- A table is increasing when every range is nonempty and ends before the next one starts. -/
def isIncreasing : List (Nat × Nat) → Bool
  | [] => true
  | [(lo, hi)] => lo ≤ hi
  | (lo, hi) :: (lo', hi') :: rest => lo ≤ hi && hi < lo' && isIncreasing ((lo', hi') :: rest)

/-- The ranges behind the first of an increasing table are increasing. -/
theorem isIncreasing_tail {r : Nat × Nat} {rest : List (Nat × Nat)}
    (h : isIncreasing (r :: rest)) : isIncreasing rest := by
  cases rest with
  | nil => rfl
  | cons head rest =>
    simp only [isIncreasing, Bool.and_eq_true] at h
    exact h.2

/-- The first range of an increasing table is nonempty. -/
theorem le_of_isIncreasing {lo hi : Nat} {rest : List (Nat × Nat)}
    (h : isIncreasing ((lo, hi) :: rest)) : lo ≤ hi := by
  cases rest with
  | nil => simpa [isIncreasing] using h
  | cons head rest =>
    simp only [isIncreasing, Bool.and_eq_true, decide_eq_true_eq] at h
    exact h.1.1

/-- The first range of an increasing table ends before every later one starts. -/
theorem lt_of_mem_of_isIncreasing {lo hi : Nat} {rest : List (Nat × Nat)}
    (h : isIncreasing ((lo, hi) :: rest)) : ∀ r ∈ rest, hi < r.1 := by
  induction rest generalizing lo hi with
  | nil => simp
  | cons head rest ih =>
    obtain ⟨lo', hi'⟩ := head
    have hle := le_of_isIncreasing (isIncreasing_tail h)
    simp only [isIncreasing, Bool.and_eq_true, decide_eq_true_eq] at h
    intro r hr
    rcases List.mem_cons.1 hr with rfl | hr
    · exact h.1.2
    · have := ih h.2 r hr
      omega

/-- The scan of an increasing table finds exactly the code points of its ranges. -/
theorem inRanges_iff {table : List (Nat × Nat)} (h : isIncreasing table) (n : Nat) :
    inRanges table n ↔ ∃ r ∈ table, r.1 ≤ n ∧ n ≤ r.2 := by
  induction table with
  | nil => simp [inRanges]
  | cons head rest ih =>
    obtain ⟨lo, hi⟩ := head
    have hle := le_of_isIncreasing h
    have later := lt_of_mem_of_isIncreasing h
    simp only [inRanges, List.mem_cons, exists_eq_or_imp]
    by_cases hlo : n < lo
    · rw [if_pos hlo]
      constructor
      · intro h
        cases h
      · rintro (⟨_, _⟩ | ⟨r, hr, _, _⟩)
        · omega
        · have := later r hr
          omega
    · rw [if_neg hlo, Bool.or_eq_true, decide_eq_true_eq, ih (isIncreasing_tail h)]
      constructor
      · rintro (h | h)
        · exact .inl ⟨by omega, h⟩
        · exact .inr h
      · rintro (h | h)
        · exact .inl h.2
        · exact .inr h

end ExpLang.Text
