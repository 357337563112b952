import ExpLang.Text.Source
import Mathlib.Data.List.GetD
import Mathlib.Tactic.ByContra

/-!
# Lines and columns

The line of an offset is the number of newlines before it, and its column is its distance from the byte
behind the last of them, both counted from one. A source looks them up in the offsets at which its lines
start. They increase, so halving finds the last start that is not beyond an offset, in the text or past
its end, and what is subtracted from the offset is never more than the offset.

Only adding one can fail, since both numbers are words of 32 bits. It does for the largest offset, if
all bytes before it are newlines or none is: the line or the column is zero then.
-/

namespace ExpLang.Source

open Text

/-! ## Newlines -/

/-- The byte that ends a line. -/
def newline : UInt8 := 10

/-- The bytes of a text. -/
def bytes (s : Source) : List UInt8 := s.text.toUTF8.data.toList

/-- The bytes of a source are the encodings of its characters, one after the other. -/
theorem bytes_eq (s : Source) : s.bytes = s.chars.flatMap String.utf8EncodeChar := by
  simp [bytes, text, List.utf8Encode]

/-- A source has as many bytes as its size. -/
theorem length_bytes (s : Source) : s.bytes.length = s.size := by
  rw [bytes_eq, size]
  induction s.chars with
  | nil => rfl
  | cons c cs ih => rw [List.flatMap_cons, List.length_append, ih, String.length_utf8EncodeChar, byteLength]

/-- A number encodes as a newline byte exactly if it is 10 modulo 256. -/
theorem newline_eq_ofNat_iff {n : Nat} : newline = UInt8.ofNat n ↔ n % 256 = 10 := by
  rw [newline, ← UInt8.toNat_inj, UInt8.toNat_ofNat']
  exact eq_comm

/-- Only a newline has the byte of a newline in it, since all bytes of longer characters are 128 or more. -/
theorem eq_newline_of_mem {c : Char} (h : newline ∈ String.utf8EncodeChar c) : c = '\n' := by
  have hval : c.val.toNat = 10 := by
    unfold String.utf8EncodeChar at h
    dsimp only at h
    repeat' split at h
    all_goals
      simp only [List.mem_cons, List.not_mem_nil, or_false, newline_eq_ofNat_iff] at h
      omega
  exact Char.ext (UInt32.toNat_inj.1 hval)

/-- The offsets behind the newlines, given the offset of the first byte. -/
def startsAfter (pos : Nat) : List UInt8 → List Nat
  | [] => []
  | b :: rest => if b = newline then (pos + 1) :: startsAfter (pos + 1) rest else startsAfter (pos + 1) rest

/-- No line starts within text without a newline. -/
theorem startsAfter_append {part : List UInt8} (h : newline ∉ part) (pos : Nat) (rest : List UInt8) :
    startsAfter pos (part ++ rest) = startsAfter (pos + part.length) rest := by
  induction part generalizing pos with
  | nil => rfl
  | cons b part ih =>
    rw [List.mem_cons, not_or] at h
    rw [List.cons_append, startsAfter, if_neg (Ne.symm h.1), ih h.2, List.length_cons]
    congr 1
    omega

/-- Lines start behind newlines. -/
theorem lineStartsFrom_eq (pos : Nat) (cs : List Char) :
    lineStartsFrom pos cs = startsAfter pos (cs.flatMap String.utf8EncodeChar) := by
  induction cs generalizing pos with
  | nil => rfl
  | cons c cs ih =>
    rw [lineStartsFrom, List.flatMap_cons]
    split
    · rename_i hc
      rw [hc, ih]
      rfl
    · rename_i hc
      rw [ih, startsAfter_append (fun h => hc (eq_newline_of_mem h)), String.length_utf8EncodeChar]

variable {x pos : Nat} {bs : List UInt8}

/-- A line starts where the byte before is a newline. -/
theorem mem_startsAfter : x ∈ startsAfter pos bs ↔ ∃ k, bs[k]? = some newline ∧ x = pos + k + 1 := by
  induction bs generalizing pos with
  | nil => simp [startsAfter]
  | cons b rest ih =>
    have hsplit : (∃ k, (b :: rest)[k]? = some newline ∧ x = pos + k + 1) ↔
        (b = newline ∧ x = pos + 1) ∨ ∃ k, rest[k]? = some newline ∧ x = pos + 1 + k + 1 := by
      constructor
      · rintro ⟨_ | k, hk, hx⟩
        · exact .inl ⟨Option.some.inj hk, hx⟩
        · exact .inr ⟨k, hk, by omega⟩
      · rintro (⟨hb, hx⟩ | ⟨k, hk, hx⟩)
        · exact ⟨0, congrArg some hb, hx⟩
        · exact ⟨k + 1, hk, by omega⟩
    rw [hsplit, startsAfter]
    split
    · rename_i hb
      rw [List.mem_cons, ih]
      simp only [hb, true_and]
    · rename_i hb
      rw [ih]
      simp only [hb, false_and, false_or]

/-- A line behind a newline starts after the offset of the first byte. -/
theorem lt_of_mem_startsAfter (h : x ∈ startsAfter pos bs) : pos < x := by
  obtain ⟨k, -, rfl⟩ := mem_startsAfter.1 h
  omega

/-- The offsets behind the newlines ascend. -/
theorem pairwise_startsAfter (pos : Nat) (bs : List UInt8) : (startsAfter pos bs).Pairwise (· < ·) := by
  induction bs generalizing pos with
  | nil => exact .nil
  | cons b rest ih =>
    rw [startsAfter]
    split
    · exact List.pairwise_cons.2 ⟨fun x hx => lt_of_mem_startsAfter hx, ih _⟩
    · exact ih _

/-- As many lines start up to an offset as there are newlines before it. -/
theorem countP_startsAfter (pos offset : Nat) (bs : List UInt8) :
    (startsAfter pos bs).countP (· ≤ pos + offset) = (bs.take offset).count newline := by
  induction bs generalizing pos offset with
  | nil => simp [startsAfter]
  | cons b rest ih =>
    cases offset with
    | zero =>
      refine List.countP_eq_zero.2 fun x hx => ?_
      have := lt_of_mem_startsAfter hx
      simpa using this
    | succ offset =>
      have hrest := ih (pos + 1) offset
      rw [Nat.add_right_comm, Nat.add_assoc] at hrest
      rw [startsAfter, List.take_succ_cons, List.count_cons]
      split
      · rename_i hb
        rw [List.countP_cons, hrest]
        simp [hb]
      · rename_i hb
        rw [hrest]
        simp [hb]

/-- The offsets at which lines start. -/
def starts (s : Source) : List Nat := 0 :: startsAfter 0 s.bytes

/-- The offsets at which lines start ascend. -/
theorem pairwise_starts (s : Source) : s.starts.Pairwise (· < ·) :=
  List.pairwise_cons.2 ⟨fun _ hx => lt_of_mem_startsAfter hx, pairwise_startsAfter 0 s.bytes⟩

/-- An earlier line starts before a later one. -/
theorem getD_starts_lt {s : Source} {i j : Nat} (hij : i < j) (hj : j < s.starts.length) :
    s.starts.getD i 0 < s.starts.getD j 0 := by
  rw [List.getD_eq_getElem _ _ hj, List.getD_eq_getElem _ _ (Nat.lt_trans hij hj)]
  exact List.pairwise_iff_getElem.1 s.pairwise_starts i j _ hj hij

/-- A line starts within the source or at its end. -/
theorem getD_starts_le (s : Source) (i : Nat) : s.starts.getD i 0 ≤ s.size := by
  by_cases hi : i < s.starts.length
  · rw [List.getD_eq_getElem _ _ hi]
    rcases List.mem_cons.1 (List.getElem_mem hi) with hzero | hmem
    · exact hzero ▸ Nat.zero_le _
    · obtain ⟨k, hk, hx⟩ := mem_startsAfter.1 hmem
      have hlt : k < s.bytes.length := (List.getElem?_eq_some_iff.1 hk).1
      rw [length_bytes] at hlt
      omega
  · rw [List.getD_eq_default _ _ (Nat.le_of_not_lt hi)]
    exact Nat.zero_le _

/-! ## The search -/

/-- Where a search should end. -/
def Found.Right (starts : Array UInt32) (offset : UInt32) : Found → Prop
  | .hit i => i < starts.size ∧ starts.getD i 0 = offset
  | .miss next => next ≤ starts.size ∧ (∀ i < next, starts.getD i 0 < offset) ∧
      ∀ i, next ≤ i → i < starts.size → offset < starts.getD i 0

/-- The search ends right if what is out of its bounds is already on the right side of the offset. -/
theorem searchBetween_right {starts : Array UInt32} {offset : UInt32} {lo hi : Nat}
    (hasc : ∀ i j, i < j → j < starts.size → starts.getD i 0 < starts.getD j 0)
    (hle : lo ≤ hi) (hhi : hi ≤ starts.size) (hbelow : ∀ i < lo, starts.getD i 0 < offset)
    (habove : ∀ i, hi ≤ i → i < starts.size → offset < starts.getD i 0) :
    (searchBetween starts offset lo hi).Right starts offset := by
  fun_induction searchBetween starts offset lo hi with
  | case1 lo hi hlt mid start heq => exact ⟨by omega, heq⟩
  | case2 lo hi hlt mid start hne hless ih =>
    refine ih (by omega) hhi (fun i hi => ?_) habove
    rcases Nat.lt_or_eq_of_le (Nat.le_of_lt_succ hi) with hi | rfl
    · exact UInt32.lt_trans (hasc i mid hi (by omega)) hless
    · exact hless
  | case3 lo hi hlt mid start hne hless ih =>
    have hmid : offset < start := UInt32.lt_of_le_of_ne (UInt32.not_lt.1 hless) (Ne.symm hne)
    refine ih (by omega) (by omega) hbelow fun i hi hsize => ?_
    rcases Nat.lt_or_eq_of_le hi with hi | rfl
    · exact UInt32.lt_trans hmid (hasc mid i hi hsize)
    · exact hmid
  | case4 lo hi hlt =>
    obtain rfl : lo = hi := by omega
    exact ⟨hhi, hbelow, habove⟩

section Lookup

variable {s : Source} (hsize : s.size < UInt32.size) (offset : UInt32)

/-- The table has one offset for each line. -/
theorem size_lineStarts (s : Source) : s.lineStarts.size = s.starts.length := by
  simp [lineStarts, starts, lineStartsFrom_eq, bytes_eq]

include hsize

/-- In a text of less than 2 ^ 32 bytes no start is cut off. -/
theorem toNat_getD_lineStarts (i : Nat) : (s.lineStarts.getD i 0).toNat = s.starts.getD i 0 := by
  have hle := s.getD_starts_le i
  have hmap : s.lineStarts.getD i 0 = UInt32.ofNat (min (s.starts.getD i 0) Span.maxOffset) := by
    simp only [lineStarts, starts, lineStartsFrom_eq, bytes_eq, Array.getD_eq_getD_getElem?,
      List.getElem?_toArray, List.getElem?_map, List.getD_eq_getElem?_getD]
    cases (0 :: startsAfter 0 (s.chars.flatMap String.utf8EncodeChar))[i]? <;> rfl
  rw [hmap, UInt32.toNat_ofNat']
  simp only [Span.maxOffset, UInt32.size] at hsize ⊢
  omega

/-- The search finds the last start that is not beyond an offset. -/
theorem lineIndex_spec : s.lineIndex offset < s.starts.length ∧
    s.starts.getD (s.lineIndex offset) 0 ≤ offset.toNat ∧
      ∀ j, s.lineIndex offset < j → j < s.starts.length → offset.toNat < s.starts.getD j 0 := by
  have hasc : ∀ i j, i < j → j < s.lineStarts.size →
      s.lineStarts.getD i 0 < s.lineStarts.getD j 0 := by
    intro i j hij hj
    rw [UInt32.lt_iff_toNat_lt, toNat_getD_lineStarts hsize, toNat_getD_lineStarts hsize]
    exact getD_starts_lt hij (size_lineStarts s ▸ hj)
  have hright : (searchBetween s.lineStarts offset 0 s.lineStarts.size).Right s.lineStarts offset :=
    searchBetween_right hasc (Nat.zero_le _) (Nat.le_refl _)
      (fun i hi => absurd hi (Nat.not_lt_zero i)) (fun i hi hlt => absurd hlt (Nat.not_lt_of_le hi))
  unfold lineIndex
  split
  · rename_i line hfound
    rw [hfound] at hright
    obtain ⟨hlt, heq⟩ := hright
    rw [size_lineStarts] at hlt
    rw [← heq, toNat_getD_lineStarts hsize]
    exact ⟨hlt, Nat.le_refl _, fun j => getD_starts_lt⟩
  · rename_i next hfound
    rw [hfound] at hright
    obtain ⟨hle, hbelow, habove⟩ := hright
    simp only [UInt32.lt_iff_toNat_lt, toNat_getD_lineStarts hsize, size_lineStarts] at hle hbelow habove
    -- The first line starts at zero, so an offset that is no start does not belong before it.
    have hnext : 0 < next := Nat.pos_of_ne_zero fun hzero =>
      Nat.not_lt_zero _ (habove 0 (Nat.le_of_eq hzero) (Nat.succ_pos _))
    exact ⟨by omega, Nat.le_of_lt (hbelow _ (by omega)), fun j hj => habove j (by omega)⟩

end Lookup

/-! ## Lines and columns -/

/-- The number of newlines before an offset. -/
def newlinesBefore (s : Source) (offset : Nat) : Nat := (s.bytes.take offset).count newline

/-- The line of an offset starts at another one: at zero or behind a newline, and no newline is between
the two. -/
structure LineStart (s : Source) (start offset : Nat) : Prop where
  le : start ≤ offset
  behind : start = 0 ∨ ∃ k, s.bytes[k]? = some newline ∧ start = k + 1
  last : ∀ k, start ≤ k → k < offset → s.bytes[k]? ≠ some newline

/-- A line and a column are those of an offset, both counted from one. -/
structure Locates (s : Source) (offset : Nat) (p : Nat × Nat) : Prop where
  line : p.1 = s.newlinesBefore offset + 1
  col : ∃ start, s.LineStart start offset ∧ start + p.2 = offset + 1

/-- The line or the column of an offset is 2 ^ 32. -/
def Overflows (s : Source) (offset : Nat) : Prop :=
  offset = Span.maxOffset ∧ (s.newlinesBefore offset = 0 ∨ s.newlinesBefore offset = Span.maxOffset)

section Lookup

variable {s : Source} {a b offset start : Nat}

/-- There are at most as many newlines before an offset as bytes. -/
theorem newlinesBefore_le (s : Source) (offset : Nat) : s.newlinesBefore offset ≤ offset :=
  Nat.le_trans List.count_le_length (List.length_take_le _ _)

/-- Before a larger offset there are at least as many newlines. -/
theorem newlinesBefore_mono (h : a ≤ b) : s.newlinesBefore a ≤ s.newlinesBefore b :=
  (List.take_prefix_take_left h).sublist.count_le _

/-- Lines start at 0 and behind every newline. -/
theorem mem_starts {x : Nat} :
    x ∈ s.starts ↔ x = 0 ∨ ∃ k, s.bytes[k]? = some newline ∧ x = k + 1 := by
  simp only [starts, List.mem_cons, mem_startsAfter, Nat.zero_add]

/-- A line starts at one offset only. -/
theorem LineStart.unique {start' : Nat} (h : s.LineStart start offset)
    (h' : s.LineStart start' offset) : start = start' := by
  have hle {x y : Nat} (hx : s.LineStart x offset) (hy : s.LineStart y offset) : x ≤ y := by
    rcases hx.behind with rfl | ⟨k, hk, rfl⟩
    · exact Nat.zero_le _
    · exact Nat.lt_of_not_le fun hyk => hy.last k hyk hx.le hk
  exact Nat.le_antisymm (hle h h') (hle h' h)

variable (hsize : s.size < UInt32.size) (word : UInt32)

include hsize

/-- The index that the search finds counts newlines. -/
theorem lineIndex_eq : s.lineIndex word = s.newlinesBefore word.toNat := by
  obtain ⟨hlt, hle, hbeyond⟩ := lineIndex_spec hsize word
  have hcount : s.starts.countP (· ≤ word.toNat) = s.newlinesBefore word.toNat + 1 := by
    have hafter := countP_startsAfter 0 word.toNat s.bytes
    rw [Nat.zero_add] at hafter
    rw [starts, List.countP_cons, hafter, newlinesBefore]
    simp
  have hbelow : (s.starts.take (s.lineIndex word + 1)).countP (· ≤ word.toNat) =
      s.lineIndex word + 1 := by
    rw [List.countP_eq_length.2, List.length_take, Nat.min_eq_left hlt]
    intro x hx
    obtain ⟨j, hj, rfl⟩ := List.mem_take_iff_getElem.1 hx
    rw [decide_eq_true_eq, ← List.getD_eq_getElem _ 0]
    rcases Nat.lt_or_eq_of_le (show j ≤ s.lineIndex word by omega) with hj | rfl
    · exact Nat.le_trans (Nat.le_of_lt (getD_starts_lt hj hlt)) hle
    · exact hle
  have habove : (s.starts.drop (s.lineIndex word + 1)).countP (· ≤ word.toNat) = 0 := by
    refine List.countP_eq_zero.2 fun x hx => ?_
    obtain ⟨j, hj, rfl⟩ := List.mem_drop_iff_getElem.1 hx
    rw [decide_eq_true_eq, ← List.getD_eq_getElem _ 0]
    exact Nat.not_le_of_lt (hbeyond _ (by omega) (by omega))
  rw [← List.take_append_drop (s.lineIndex word + 1) s.starts, List.countP_append, hbelow, habove]
    at hcount
  omega

/-- The start at the index that the search finds is where the line of the offset starts. -/
theorem lineStart_getD : s.LineStart (s.starts.getD (s.newlinesBefore word.toNat) 0) word.toNat := by
  obtain ⟨hlt, hle, hbeyond⟩ := lineIndex_spec hsize word
  rw [lineIndex_eq hsize] at hlt hle hbeyond
  refine ⟨hle, mem_starts.1 ?_, fun k hk hoffset hnewline => ?_⟩
  · rw [List.getD_eq_getElem _ _ hlt]
    exact List.getElem_mem hlt
  -- A newline after this start would be followed by a later start that is not beyond the offset.
  · obtain ⟨j, hj, hjk⟩ := List.getElem_of_mem (mem_starts.2 (.inr ⟨k, hnewline, rfl⟩))
    rw [← List.getD_eq_getElem _ 0] at hjk
    have hlater : s.newlinesBefore word.toNat < j := by
      refine Nat.lt_of_not_le fun hle => ?_
      rcases Nat.lt_or_eq_of_le hle with hless | rfl
      · have := getD_starts_lt hless hlt
        omega
      · omega
    have := hbeyond j hlater hj
    omega

/-- What the look-up gives: the line and the column, as far as words go. -/
theorem lineCol_eq : s.lineCol word.toNat = ((s.newlinesBefore word.toNat + 1) % UInt32.size,
    (word.toNat - s.starts.getD (s.newlinesBefore word.toNat) 0 + 1) % UInt32.size) := by
  have hstart := toNat_getD_lineStarts hsize (s.newlinesBefore word.toNat)
  have hle := (lineStart_getD hsize word).le
  rw [← hstart, ← UInt32.le_iff_toNat_le] at hle
  simp only [lineCol, lineColWords, UInt32.ofNat_toNat, lineIndex_eq hsize, UInt32.toNat_add,
    UInt32.toNat_ofNat', UInt32.toNat_sub_of_le _ _ hle, hstart]
  simp

/-- The look-up is right unless the line or the column does not fit a word. -/
theorem locates_lineCol_iff :
    s.Locates word.toNat (s.lineCol word.toNat) ↔ ¬ s.Overflows word.toNat := by
  have hstart := lineStart_getD hsize word
  have hbound : word.toNat < UInt32.size := word.toNat_lt
  have hcount := s.newlinesBefore_le word.toNat
  rw [lineCol_eq hsize, Overflows, Span.maxOffset]
  simp only [UInt32.size] at hbound ⊢
  constructor
  · rintro ⟨hline, start, hother, hcol⟩ ⟨hlast, hnone | hall⟩
    · rw [← hstart.unique hother, hnone, hlast] at hcol
      simp [starts] at hcol
    · rw [hall] at hline
      simp at hline
  · intro hfits
    have hfirst : s.starts.getD (s.newlinesBefore word.toNat) 0 = 0 → s.newlinesBefore word.toNat = 0 := by
      intro hzero
      refine Nat.eq_zero_of_not_pos fun hpos => ?_
      have := getD_starts_lt hpos (lineIndex_eq hsize word ▸ (lineIndex_spec hsize word).1)
      omega
    refine ⟨Nat.mod_eq_of_lt (by omega), _, hstart, ?_⟩
    have hle := hstart.le
    dsimp only
    rw [Nat.mod_eq_of_lt (by omega)]
    omega

/-- A line or a column that does not fit a word is given as zero. -/
theorem lineCol_of_overflows (h : s.Overflows word.toNat) :
    (s.lineCol word.toNat).1 = 0 ∨ (s.lineCol word.toNat).2 = 0 := by
  obtain ⟨hlast, hnone | hall⟩ := h
  · right
    rw [lineCol_eq hsize, hnone, hlast, starts, List.getD_cons_zero]
    rfl
  · left
    rw [lineCol_eq hsize, hall]
    rfl

/-- Later offsets have later positions. -/
theorem lineCol_lt {a b : UInt32} (hab : a < b) (hb : ¬ s.Overflows b.toNat) :
    Prod.Lex (· < ·) (· < ·) (s.lineCol a.toNat) (s.lineCol b.toNat) := by
  rw [UInt32.lt_iff_toNat_lt] at hab
  have hbound : b.toNat < UInt32.size := b.toNat_lt
  have ha : ¬ s.Overflows a.toNat := fun h => by
    have := h.1
    simp only [Span.maxOffset, UInt32.size] at this hbound
    omega
  obtain ⟨hline, start, hstart, hcol⟩ := (locates_lineCol_iff hsize a).2 ha
  obtain ⟨hline', start', hstart', hcol'⟩ := (locates_lineCol_iff hsize b).2 hb
  rw [Prod.lex_def]
  rcases Nat.lt_or_eq_of_le (newlinesBefore_mono (s := s) (Nat.le_of_lt hab)) with hless | heq
  · exact .inl (by omega)
  · -- Without a newline between them both offsets are on the line with the same start.
    have hsame : start = start' := by
      rw [hstart.unique (lineStart_getD hsize a), heq, hstart'.unique (lineStart_getD hsize b)]
    exact .inr ⟨by omega, by omega⟩

/-- Different offsets have different positions. -/
theorem lineCol_injective : Function.Injective fun offset : UInt32 => s.lineCol offset.toNat := by
  have hne {a b : UInt32} (hab : a < b) : s.lineCol a.toNat ≠ s.lineCol b.toNat := by
    intro heq
    by_cases hb : s.Overflows b.toNat
    · have ha : ¬ s.Overflows a.toNat := fun h =>
        Nat.lt_irrefl _ (h.1.symm ▸ hb.1 ▸ UInt32.lt_iff_toNat_lt.1 hab)
      obtain ⟨hline, start, hstart, hcol⟩ := (locates_lineCol_iff hsize a).2 ha
      have hle := hstart.le
      rw [heq] at hline hcol
      rcases lineCol_of_overflows hsize b hb with hzero | hzero
      · omega
      · omega
    · have hlt := lineCol_lt hsize hab hb
      rw [heq, Prod.lex_def] at hlt
      omega
  intro a b heq
  by_contra hab
  rcases UInt32.lt_or_lt_of_ne hab with hlt | hgt
  · exact hne hlt heq
  · exact hne hgt heq.symm

end Lookup

/-- In a text of less than 2 ^ 32 bytes the line and the column of every offset are the right ones, unless
one of them is 2 ^ 32, which is given as zero. No more than the offset is subtracted from it, different
offsets have different positions, and later offsets have later ones. -/
theorem lineCol_exact (s : Source) (hsize : s.size < UInt32.size) :
    (∀ offset : UInt32,
      s.lineStarts.getD (s.lineIndex offset) 0 ≤ offset ∧
        (s.Locates offset.toNat (s.lineCol offset.toNat) ↔ ¬ s.Overflows offset.toNat) ∧
        (s.Overflows offset.toNat →
          (s.lineCol offset.toNat).1 = 0 ∨ (s.lineCol offset.toNat).2 = 0)) ∧
      (Function.Injective fun offset : UInt32 => s.lineCol offset.toNat) ∧
      ∀ a b : UInt32, a < b → ¬ s.Overflows b.toNat →
        Prod.Lex (· < ·) (· < ·) (s.lineCol a.toNat) (s.lineCol b.toNat) := by
  refine ⟨fun offset => ⟨?_, locates_lineCol_iff hsize offset, lineCol_of_overflows hsize offset⟩,
    lineCol_injective hsize, fun a b => lineCol_lt hsize⟩
  rw [UInt32.le_iff_toNat_le, toNat_getD_lineStarts hsize]
  exact (lineIndex_spec hsize offset).2.1

/-- A text with a character of two bytes, an empty line and a newline at its end. -/
def fourLines : Source := ⟨"lines.exp", ['é', '\n', '\n', 'x', '\n']⟩

/-- Positions in a text of four lines, one of them past its end, in the order of their offsets. -/
theorem lineCol_exact_fourLines :
    fourLines.size < UInt32.size ∧ fourLines.Locates 3 (2, 1) ∧ fourLines.Locates 100 (4, 95) ∧
      Prod.Lex (· < ·) (· < ·) (fourLines.lineCol 3) (fourLines.lineCol 100) := by
  have hsize : fourLines.size < UInt32.size := by decide
  have hfits {offset : Nat} (h : offset < 4294967295) : ¬ fourLines.Overflows offset := fun hover =>
    Nat.ne_of_lt h hover.1
  obtain ⟨hexact, -, hlater⟩ := lineCol_exact fourLines hsize
  have hearly := (hexact 3).2.1.2 (hfits (by decide))
  have hlate := (hexact 100).2.1.2 (hfits (by decide))
  have hearlyAt : fourLines.lineCol 3 = (2, 1) := by decide +kernel
  have hlateAt : fourLines.lineCol 100 = (4, 95) := by decide +kernel
  exact ⟨hsize, hearlyAt ▸ hearly, hlateAt ▸ hlate, hlater 3 100 (by decide) (hfits (by decide))⟩

/-- Column 2 ^ 32 of the first line. -/
theorem lineCol_largest_offset : (ofText "input.exp" "").lineCol 4294967295 = (1, 0) ∧
    ¬ (ofText "input.exp" "").Locates 4294967295 (1, 0) := by
  refine ⟨by decide +kernel, ?_⟩
  rintro ⟨-, start, hstart, hcol⟩
  have hle := hstart.le
  omega

end ExpLang.Source
