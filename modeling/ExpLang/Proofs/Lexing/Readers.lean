import ExpLang.Proofs.Lexing.Candidates
import ExpLang.Proofs.Matching.Reading
import ExpLang.Syntax.Rules

/-!
# What token readers take

A reader of tokens is described by the texts that it takes and by what may stand behind them:
`ReadsBy read P` says that `read` takes `x` before `r` exactly where `P x r` holds, whatever the
offset. Each kind of token of the language is described in this way: a fixed token, the longest token
of a set, and the four patterns. Repetition in the patterns is greedy, and the only place where a
pattern gives back what it took is a fraction whose point is missing, which has no match at all.
-/

namespace ExpLang

open Text

/-- A text does not go on with a character of a class. -/
def Stops (p : Char → Bool) (cs : List Char) : Prop := cs.head?.any p = false

/-- Any run stops at the end of a text. -/
theorem stops_nil (p : Char → Bool) : Stops p [] := rfl

/-- A run stops in front of a character exactly if it is not one of the run. -/
theorem stops_cons {p : Char → Bool} {c : Char} {cs : List Char} :
    Stops p (c :: cs) ↔ p c = false := by
  simp [Stops]

/-- Every text is a run of characters of a class and a text that does not go on with one. -/
theorem exists_run (p : Char → Bool) (cs : List Char) :
    ∃ xs r, cs = xs ++ r ∧ (∀ c ∈ xs, p c = true) ∧ Stops p r := by
  induction cs with
  | nil => exact ⟨[], [], rfl, nofun, stops_nil p⟩
  | cons c cs ih =>
    by_cases hc : p c = true
    · obtain ⟨xs, r, rfl, hxs, hr⟩ := ih
      exact ⟨c :: xs, r, rfl, List.forall_mem_cons.2 ⟨hc, hxs⟩, hr⟩
    · exact ⟨[], c :: cs, rfl, nofun, stops_cons.2 (Bool.eq_false_iff.2 hc)⟩

/-- A reader takes a text before another one exactly where a relation holds of the two. -/
def ReadsBy (read : Cursor → Option Cursor) (P : List Char → List Char → Prop) : Prop :=
  ∀ c c', read c = some c' ↔
    ∃ x, c.rest = x ++ c'.rest ∧ c'.pos = c.pos + byteLength x ∧ P x c'.rest

section ReadsBy

variable {read : Cursor → Option Cursor} {P : List Char → List Char → Prop}

/-- A reader that takes what a relation says, and nothing where the relation says nothing. -/
theorem ReadsBy.of_cases (htakes : ∀ pos x r, P x r → read ⟨pos, x ++ r⟩ = some ⟨pos + byteLength x, r⟩)
    (hcases : ∀ pos cs, (∃ x r, cs = x ++ r ∧ P x r) ∨ read ⟨pos, cs⟩ = none) : ReadsBy read P := by
  rintro ⟨pos, cs⟩ c'
  constructor
  · intro h
    rcases hcases pos cs with ⟨x, r, rfl, hx⟩ | hnone
    · rw [htakes pos x r hx] at h
      cases h
      exact ⟨x, rfl, rfl, hx⟩
    · rw [hnone] at h
      cases h
  · rintro ⟨x, hrest, hpos, hx⟩
    obtain ⟨pos', r⟩ := c'
    change cs = x ++ r at hrest
    change pos' = pos + byteLength x at hpos
    rw [hrest, hpos]
    exact htakes pos x r hx

/-- A reader takes nothing where its relation says nothing. -/
theorem ReadsBy.eq_none_iff (h : ReadsBy read P) {c : Cursor} :
    read c = none ↔ ∀ x r, c.rest = x ++ r → ¬ P x r := by
  constructor
  · intro hnone x r hrest hx
    have hsome := (h c ⟨c.pos + byteLength x, r⟩).2 ⟨x, hrest, rfl, hx⟩
    rw [hnone] at hsome
    cases hsome
  · intro hnot
    cases hread : read c with
    | none => rfl
    | some c' =>
      obtain ⟨x, hrest, -, hx⟩ := (h c c').1 hread
      exact absurd hx (hnot x _ hrest)

end ReadsBy

/-! ## Fixed tokens -/

/-- One of several texts before another text, where every one of them that the two start with is a
beginning of it. -/
def LongestOf (texts : List (List Char)) (x r : List Char) : Prop :=
  x ∈ texts ∧ ∀ y ∈ texts, y <+: x ++ r → y <+: x

/-- A literal reads its own text where a word ends behind it. -/
theorem readLiteral_readsBy (text : List Char) :
    ReadsBy (readLiteral text) fun x r => x = text ∧ atWordEnd text r = true := by
  refine .of_cases ?_ fun pos cs => ?_
  · rintro pos x r ⟨rfl, hend⟩
    simp [readLiteral, dropPrefix?_eq_some_iff.2 rfl, hend]
  · unfold readLiteral
    cases hdrop : dropPrefix? text cs with
    | none => exact .inr rfl
    | some r =>
      by_cases hend : atWordEnd text r = true
      · exact .inl ⟨text, r, dropPrefix?_eq_some_iff.1 hdrop, rfl, hend⟩
      · exact .inr (if_neg hend)

namespace Literals

/-- Longer candidates stand in earlier groups, no candidate is empty and none ends in the middle of a
word. -/
structure Ordered (set : Literals) : Prop where
  decreasing : set.groups.Pairwise fun g h => h.1 < g.1
  sized : ∀ g ∈ set.groups, ∀ x ∈ g.2, byteLength x = g.1
  symbolic : ∀ x ∈ set.toList, x.getLast?.any isIdentChar = false

instance (set : Literals) : Decidable set.Ordered :=
  decidable_of_iff
    ((set.groups.Pairwise fun g h => h.1 < g.1) ∧ (∀ g ∈ set.groups, ∀ x ∈ g.2, byteLength x = g.1) ∧
      ∀ x ∈ set.toList, x.getLast?.any isIdentChar = false)
    ⟨fun h => ⟨h.1, h.2.1, h.2.2⟩, fun h => ⟨h.1, h.2, h.3⟩⟩

variable {set : Literals} {cs x : List Char}

/-- A text opens with every candidate that it starts with. -/
theorem Ordered.opens (h : set.Ordered) (hx : x ∈ set.toList) (hstart : x <+: cs) : Opens x cs := by
  obtain ⟨r, rfl⟩ := hstart
  exact ⟨r, rfl, by simp [atWordEnd, h.symbolic x hx]⟩

/-- Of two beginnings of a text the one that takes more bytes is the longer one. -/
theorem isPrefix_of_byteLength_le {x y : List Char} (hx : x <+: cs) (hy : y <+: cs)
    (h : byteLength y ≤ byteLength x) : y <+: x := by
  rcases List.prefix_or_prefix_of_prefix hy hx with hyx | ⟨z, rfl⟩
  · exact hyx
  · rw [byteLength_append] at h
    have hz : z = [] := eq_nil_of_byteLength_eq_zero (by omega)
    exact ⟨[], by rw [hz, List.append_nil, List.append_nil]⟩

/-- The candidate that is found is a longest one. -/
theorem Ordered.longest?_eq_some_iff (h : set.Ordered) :
    set.longest? cs = some x ↔ ∃ r, cs = x ++ r ∧ LongestOf set.toList x r := by
  rw [(⟨h.decreasing, h.sized⟩ : Grouped set.groups).longest?_eq_some_iff]
  constructor
  · rintro ⟨hx, ⟨r, rfl, -⟩, hlongest⟩
    exact ⟨r, rfl, hx, fun y hy hstart => isPrefix_of_byteLength_le (List.prefix_append x r) hstart
      (hlongest y hy (h.opens hy hstart))⟩
  · rintro ⟨r, rfl, hx, hlongest⟩
    refine ⟨hx, h.opens hx (List.prefix_append x r), fun y hy ⟨after, heq, _⟩ => ?_⟩
    obtain ⟨z, rfl⟩ := hlongest y hy ⟨after, heq.symm⟩
    rw [byteLength_append]
    exact Nat.le_add_right _ _

/-- The longest token of a set is taken. -/
theorem Ordered.readsBy (h : set.Ordered) : ReadsBy (readLiterals set) (LongestOf set.toList) := by
  refine .of_cases (fun pos x r hx => ?_) fun pos cs => ?_
  · simp [readLiterals, h.longest?_eq_some_iff.2 ⟨r, rfl, hx⟩]
  · cases hlongest : set.longest? cs with
    | none => exact .inr (by simp [readLiterals, hlongest])
    | some x =>
      obtain ⟨r, hr, hx⟩ := h.longest?_eq_some_iff.1 hlongest
      exact .inl ⟨x, r, hr, hx⟩

end Literals

/-! ## Patterns -/

/-- A character of one set and then characters of another. -/
def Run (first set : CharSet) (x : List Char) : Prop :=
  ∃ c xs, x = c :: xs ∧ first.contains c = true ∧ ∀ d ∈ xs, set.contains d = true

instance (first set : CharSet) : (x : List Char) → Decidable (Run first set x)
  | [] => .isFalse nofun
  | c :: xs => decidable_of_iff (first.contains c = true ∧ xs.all set.contains = true)
      ⟨fun h => ⟨c, xs, rfl, h.1, List.all_eq_true.1 h.2⟩,
        fun ⟨_, _, heq, h⟩ => by cases heq; exact ⟨h.1, List.all_eq_true.2 h.2⟩⟩

namespace Pattern

variable {first set : CharSet}

/-- Repeating a character of a set takes as many as there are; every shorter way is followed by a
character of the set. -/
theorem ends_star_one (before : Option Char) {xs r : List Char}
    (hxs : ∀ c ∈ xs, set.contains c = true) (hr : Stops set.contains r) :
    ∃ last shorter, (star (one set)).ends ⟨before, xs ++ r⟩ = ⟨last, r⟩ :: shorter ∧
      ∀ m ∈ shorter, ∃ c cs, m.rest = c :: cs ∧ set.contains c = true := by
  induction xs generalizing before with
  | nil =>
    refine ⟨before, [], ?_, nofun⟩
    cases r with
    | nil => rfl
    | cons c r =>
      rw [stops_cons] at hr
      simp [ends, repeatEnds, readOne, hr]
  | cons c xs ih =>
    rw [List.forall_mem_cons] at hxs
    obtain ⟨last, shorter, hends, hshorter⟩ := ih (some c) hxs.2
    have hread : readOne set ⟨before, c :: (xs ++ r)⟩ = [⟨some c, xs ++ r⟩] := by
      simp [readOne, hxs.1]
    refine ⟨last, shorter ++ [⟨before, c :: xs ++ r⟩], ?_, ?_⟩
    · change repeatEnds (readOne set) (xs ++ r) _ = _ at hends
      change (readOne set ⟨before, c :: (xs ++ r)⟩).flatMap _ ++ _ = _
      rw [hread, List.flatMap_singleton]
      change (if (xs ++ r).length < (xs ++ r).length + 1 then _ else _) ++ _ = _
      rw [if_pos (Nat.lt_succ_self _)]
      exact congrArg (· ++ [_]) hends
    · intro m hm
      rcases List.mem_append.1 hm with hm | hm
      · exact hshorter m hm
      · rw [List.mem_singleton.1 hm]
        exact ⟨c, xs ++ r, rfl, hxs.1⟩

/-- The preferred way to match a run. -/
theorem ends_run (before : Option Char) {x r : List Char} (hx : Run first set x)
    (hr : Stops set.contains r) : ∃ last shorter,
      (seq (one first) (star (one set))).ends ⟨before, x ++ r⟩ = ⟨last, r⟩ :: shorter := by
  obtain ⟨c, xs, rfl, hc, hxs⟩ := hx
  obtain ⟨last, shorter, hends, -⟩ := ends_star_one (some c) hxs hr
  refine ⟨last, shorter, ?_⟩
  simp only [ends, readOne, List.cons_append, hc, if_true, List.flatMap_cons, List.flatMap_nil,
    List.append_nil]
  exact hends

/-- There is no way to match a run where the text does not start with one. -/
theorem ends_run_nil (before : Option Char) {cs : List Char} (hcs : Stops first.contains cs) :
    (seq (one first) (star (one set))).ends ⟨before, cs⟩ = [] := by
  cases cs with
  | nil => rfl
  | cons c cs =>
    rw [stops_cons] at hcs
    simp [ends, readOne, hcs]

/-- Every text starts with a run or not at all. -/
theorem run_or_stops (first set : CharSet) (cs : List Char) :
    (∃ x r, cs = x ++ r ∧ Run first set x ∧ Stops set.contains r) ∨ Stops first.contains cs := by
  cases cs with
  | nil => exact .inr (stops_nil _)
  | cons c cs =>
    by_cases hc : first.contains c = true
    · obtain ⟨xs, r, rfl, hxs, hr⟩ := exists_run set.contains cs
      exact .inl ⟨c :: xs, r, rfl, ⟨c, xs, rfl, hc, hxs⟩, hr⟩
    · exact .inr (stops_cons.2 (Bool.eq_false_iff.2 hc))

/-- A token is what the preferred way reads. -/
theorem readAt_of_ends {p : Pattern} {pos : Nat} {x r : List Char} (last : Option Char)
    (shorter : List Place) (hx : x ≠ []) (h : p.ends ⟨none, x ++ r⟩ = ⟨last, r⟩ :: shorter) :
    p.reader.readAt ⟨pos, x ++ r⟩ = some ⟨pos + byteLength x, r⟩ := by
  have htoken : p.reader.token (x ++ r) = x := by simp [reader, token, h]
  refine TokenReader.readAt_eq_some_iff.2 ⟨?_, ?_, ?_⟩ <;> rw [htoken]
  exact hx

/-- No token is read where there is no way to match. -/
theorem readAt_of_ends_nil {p : Pattern} {pos : Nat} {cs : List Char}
    (h : p.ends ⟨none, cs⟩ = []) : p.reader.readAt ⟨pos, cs⟩ = none :=
  TokenReader.readAt_eq_none_iff.2 (by simp [reader, token, h])

/-- A run is taken as a whole. -/
theorem run_readsBy (first set : CharSet) :
    ReadsBy (seq (one first) (star (one set))).reader.readAt
      fun x r => Run first set x ∧ Stops set.contains r := by
  refine .of_cases ?_ fun pos cs => ?_
  · rintro pos x r ⟨hx, hr⟩
    obtain ⟨last, shorter, hends⟩ := ends_run none hx hr
    obtain ⟨c, xs, rfl, -⟩ := hx
    exact readAt_of_ends _ _ (List.cons_ne_nil c xs) hends
  · rcases run_or_stops first set cs with ⟨x, r, hcs, hx⟩ | hcs
    · exact .inl ⟨x, r, hcs, hx⟩
    · exact .inr (readAt_of_ends_nil (ends_run_nil none hcs))

/-- There is one way to match a fixed text, or none. -/
theorem ends_literal (text : List Char) (before : Option Char) (cs : List Char) :
    (literal text).ends ⟨before, cs⟩ =
      ((dropPrefix? text cs).map fun r => ⟨text.getLast?.or before, r⟩).toList := by
  fun_induction literal text generalizing before cs with
  | case1 => simp [ends, dropPrefix?]
  | case2 c =>
    cases cs with
    | nil => rfl
    | cons d cs =>
      by_cases h : c = d
      · simp [ends, readOne, dropPrefix?, CharSet.single, CharSet.contains, h]
      · have hne : ¬ (c ≤ d ∧ d ≤ c) := fun hle => h (Char.le_antisymm hle.1 hle.2)
        simp [ends, readOne, dropPrefix?, CharSet.single, CharSet.contains, hne, h]
  | case3 c text hne ih =>
    cases cs with
    | nil => rfl
    | cons d cs =>
      by_cases h : c = d
      · have hlast : (c :: text).getLast?.or before = text.getLast?.or (some c) := by
          obtain ⟨e, text, rfl⟩ := List.exists_cons_of_ne_nil hne
          rw [List.getLast?_cons_cons, List.getLast?_eq_some_getLast hne]
          rfl
        subst h
        rw [hlast]
        simp [ends, readOne, dropPrefix?, CharSet.single, CharSet.contains, ih]
      · have hne : ¬ (c ≤ d ∧ d ≤ c) := fun hle => h (Char.le_antisymm hle.1 hle.2)
        simp [ends, readOne, dropPrefix?, CharSet.single, CharSet.contains, hne, h]

end Pattern

namespace Syntax

/-- Digits, a point and at least one digit. -/
def Fraction (x : List Char) : Prop :=
  ∃ ds es, x = ds ++ '.' :: es ∧ (∀ c ∈ ds, isDigit c = true) ∧ Run .digit .digit es

open Pattern

/-- A point is no digit. -/
theorem not_isDigit_point : isDigit '.' = false := by decide

/-- All ways to match a fraction start behind all the digits at the beginning. -/
theorem ends_floatPattern (before : Option Char) {ds r : List Char}
    (hds : ∀ c ∈ ds, isDigit c = true) (hr : Stops isDigit r) : ∃ last,
    floatPattern.ends ⟨before, ds ++ r⟩ =
      (seq (one (.single '.')) (plus (one .digit))).ends ⟨last, r⟩ := by
  have hdigits : ∀ c ∈ ds, CharSet.digit.contains c = true := hds
  obtain ⟨last, shorter, hends, hshorter⟩ := ends_star_one before hdigits hr
  have hnone : shorter.flatMap (seq (one (.single '.')) (plus (one .digit))).ends = [] := by
    rw [List.flatMap_eq_nil_iff]
    intro m hm
    obtain ⟨c, cs, hrest, hc⟩ := hshorter m hm
    have hpoint : (CharSet.single '.').contains c = false := by
      refine Bool.eq_false_iff.2 fun h => ?_
      simp only [CharSet.single, CharSet.contains, Bool.and_eq_true, decide_eq_true_eq] at h hc
      rw [Char.le_antisymm h.2 h.1, not_isDigit_point] at hc
      cases hc
    obtain ⟨before, rest⟩ := m
    cases hrest
    simp [ends, readOne, hpoint]
  refine ⟨last, ?_⟩
  change ((star (one .digit)).ends _).flatMap _ = _
  rw [hends, List.flatMap_cons, hnone, List.append_nil]

/-- A fraction is taken with all its digits. -/
theorem float_readsBy :
    ReadsBy floatPattern.reader.readAt fun x r => Fraction x ∧ Stops isDigit r := by
  have hpoint : (CharSet.single '.').contains '.' = true := by decide
  refine .of_cases ?_ fun pos cs => ?_
  · rintro pos _ r ⟨⟨ds, es, rfl, hds, hes⟩, hr⟩
    have hstops : Stops isDigit ('.' :: es ++ r) := stops_cons.2 not_isDigit_point
    obtain ⟨last, hends⟩ := ends_floatPattern none hds hstops
    obtain ⟨last', shorter, hes'⟩ := ends_run (some '.') hes hr
    refine readAt_of_ends last' shorter (by simp) ?_
    rw [List.append_assoc, hends, ← hes']
    simp [ends, readOne, hpoint, plus]
  · obtain ⟨ds, r, rfl, hds, hr⟩ := exists_run isDigit cs
    obtain ⟨last, hends⟩ := ends_floatPattern none hds hr
    have hmissing (h : (seq (one (.single '.')) (plus (one .digit))).ends ⟨last, r⟩ = []) :
        floatPattern.reader.readAt ⟨pos, ds ++ r⟩ = none :=
      readAt_of_ends_nil (hends.trans h)
    cases r with
    | nil => exact .inr (hmissing rfl)
    | cons c r =>
      by_cases hc : c = '.'
      · subst hc
        rcases run_or_stops .digit .digit r with ⟨es, r, rfl, hes, hr'⟩ | hes
        · exact .inl ⟨ds ++ '.' :: es, r, by simp, ⟨ds, es, rfl, hds, hes⟩, hr'⟩
        · refine .inr (hmissing ?_)
          simp only [ends, readOne, hpoint, if_true, List.flatMap_cons, List.flatMap_nil,
            List.append_nil]
          exact ends_run_nil (some '.') hes
      · refine .inr (hmissing ?_)
        have hne : ¬ ('.' ≤ c ∧ c ≤ '.') := fun h => hc (Char.le_antisymm h.2 h.1)
        simp [ends, readOne, CharSet.single, CharSet.contains, hne]

/-- An integer reads a digit and the digits and underscores behind it. -/
theorem int_readsBy : ReadsBy intPattern.reader.readAt fun x r =>
    Run .digit (.union .digit (.single '_')) x ∧
      Stops (CharSet.union .digit (.single '_')).contains r :=
  run_readsBy _ _

/-- A name reads a letter and the word characters behind it. -/
theorem id_readsBy :
    ReadsBy idPattern.reader.readAt fun x r => Run letters .word x ∧ Stops isWordChar r :=
  run_readsBy _ _

/-- The two truth values. -/
def truthValues : List (List Char) := ["true".toList, "false".toList]

/-- The boundary after a text that ends in a word character is where the word ends. -/
theorem ends_boundary {last : Option Char} (hlast : last.any isWordChar = true) (r : List Char) :
    boundary.ends ⟨last, r⟩ = if r.head?.any isWordChar then [] else [⟨last, r⟩] := by
  simp only [ends, atBoundary, hlast]
  cases r.head?.any isWordChar <;> rfl

/-- The ways to match a truth value. -/
theorem ends_boolPattern (cs : List Char) :
    boolPattern.ends ⟨none, cs⟩ = truthValues.flatMap fun text =>
      ((dropPrefix? text cs).toList.flatMap fun r =>
        if r.head?.any isWordChar then [] else [⟨text.getLast?, r⟩]) := by
  have hlast (text : List Char) (htext : text ∈ truthValues) :
      ((literal text).ends ⟨none, cs⟩).flatMap boundary.ends =
        (dropPrefix? text cs).toList.flatMap fun r =>
          if r.head?.any isWordChar then [] else [⟨text.getLast?, r⟩] := by
    have hword : text.getLast?.any isWordChar = true := by
      revert text
      decide
    rw [ends_literal]
    cases dropPrefix? text cs with
    | none => rfl
    | some r => simp [ends_boundary hword]
  simp only [truthValues, List.flatMap_cons, List.flatMap_nil, List.append_nil]
  rw [← hlast _ List.mem_cons_self, ← hlast _ (List.mem_cons_of_mem _ List.mem_cons_self)]
  exact List.flatMap_append

/-- A truth value is taken where the word ends. -/
theorem bool_readsBy :
    ReadsBy boolPattern.reader.readAt fun x r => x ∈ truthValues ∧ Stops isWordChar r := by
  refine .of_cases ?_ fun pos cs => ?_
  · rintro pos x r ⟨hx, hr⟩
    refine readAt_of_ends x.getLast? [] ?_ ?_
    · revert x
      decide
    · have hword : r.head?.any isWordChar = false := hr
      rw [ends_boolPattern]
      simp only [truthValues, List.mem_cons, List.not_mem_nil, or_false] at hx
      rcases hx with rfl | rfl <;> simp [truthValues, dropPrefix?, hword]
  · rw [Classical.or_iff_not_imp_left]
    intro hnot
    apply readAt_of_ends_nil
    rw [ends_boolPattern, List.flatMap_eq_nil_iff]
    intro text htext
    cases hdrop : dropPrefix? text cs with
    | none => rfl
    | some r =>
      have hstop : ¬ Stops isWordChar r := fun hr =>
        hnot ⟨text, r, dropPrefix?_eq_some_iff.1 hdrop, htext, hr⟩
      simpa [Stops] using hstop

end Syntax

end ExpLang
