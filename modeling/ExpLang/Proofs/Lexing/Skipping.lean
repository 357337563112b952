import ExpLang.Proofs.Lexing.Gaps
import ExpLang.Text.Source

/-!
# What a skipper passes over

A skipper passes over pieces: blanks and, if it looks for them, comments. A comment goes from its opening
mark through the next closing mark, or to the end of the text if there is none. `Pieces` are pieces that
stand one after the other in front of a text, and a text is `Significant` if no piece starts there. Skipping
moves over one piece after the other (`skip_piece`) up to a significant text, so that however a text is
cut into pieces and a significant text, skipping ends where the pieces do (`skip_eq_iff`).
-/

namespace ExpLang.Skipper

open Text

/-- The two forms of comments. -/
inductive Comment where
  /-- A comment to the end of its line. -/
  | line
  /-- A comment between two marks. -/
  | block

/-- What a comment starts with. -/
def Comment.opening : Comment → List Char
  | line => ['/', '/']
  | block => ['/', '*']

/-- What a comment goes through. -/
def Comment.closing : Comment → List Char
  | line => ['\n']
  | block => ['*', '/']

/-- A piece in front of a text. A comment that is not closed has nothing behind it. -/
inductive Piece : Skipper → List Char → List Char → Prop
  | blank {sk : Skipper} {c : Char} {after : List Char} :
      sk ≠ none → isBlank c = true → Piece sk [c] after
  | closed {body after : List Char} (k : Comment) : ¬ k.closing <:+: body →
      Piece blanksAndComments (k.opening ++ body ++ k.closing) after
  | unclosed {body : List Char} (k : Comment) : ¬ k.closing <:+: body →
      Piece blanksAndComments (k.opening ++ body) []

/-- One piece after the other in front of a text. -/
inductive Pieces (sk : Skipper) : List Char → List Char → Prop
  | nil {after : List Char} : Pieces sk [] after
  | cons {piece gap after : List Char} :
      Piece sk piece (gap ++ after) → Pieces sk gap after → Pieces sk (piece ++ gap) after

/-- A text that starts with nothing a skipper looks for. -/
structure Significant (sk : Skipper) (cs : List Char) : Prop where
  not_blank : sk ≠ none → ∀ c ∈ cs.head?, isBlank c = false
  not_comment : sk = blanksAndComments → ∀ k : Comment, ¬ k.opening <+: cs

variable {sk : Skipper} {piece gap body cs after : List Char}

/-! ## Passing over a piece -/

/-- Pass over the rest of a comment and the gap after it. -/
def passComment : Comment → Nat → List Char → Cursor
  | .line => passLine
  | .block => passBlock

/-- The opening mark of a comment is passed and then its text. -/
theorem passGap_opening (k : Comment) (pos : Nat) (cs : List Char) :
    passGap pos (k.opening ++ cs) = passComment k (pos + byteLength k.opening) cs := by
  cases k with
  | line => exact passGap.eq_1 pos cs
  | block => exact passGap.eq_2 pos cs

/-- The closing mark of a comment is passed and then the gap goes on. -/
theorem passComment_closing (k : Comment) (pos : Nat) (cs : List Char) :
    passComment k pos (k.closing ++ cs) = passGap (pos + byteLength k.closing) cs := by
  cases k with
  | line => exact passLine.eq_1 pos cs
  | block => exact passBlock.eq_1 pos cs

/-- A comment that is not closed reaches to the end of the text. -/
theorem passComment_nil (k : Comment) (pos : Nat) : passComment k pos [] = ⟨pos, []⟩ := by
  cases k <;> rfl

/-- A comment goes on through a character where no closing mark starts. -/
theorem passComment_cons {k : Comment} {c : Char} (h : ¬ k.closing <+: c :: cs) (pos : Nat) :
    passComment k pos (c :: cs) = passComment k (pos + c.utf8Size) cs := by
  cases k with
  | line =>
    refine passLine.eq_2 pos c cs fun hc => h ?_
    simp [Comment.closing, hc]
  | block =>
    refine passBlock.eq_2 pos c cs fun rest hc hcs => h ?_
    simp [Comment.closing, hc, hcs]

/-- No closing mark starts inside of a text without one, also if the next one stands right behind it. -/
theorem not_closing_of_body {k : Comment} {c : Char} (hbody : ¬ k.closing <:+: c :: body)
    (hcs : cs = [] ∨ k.closing <+: cs) : ¬ k.closing <+: c :: (body ++ cs) := by
  intro h
  cases k with
  | line =>
    obtain ⟨rfl, -⟩ := List.cons_prefix_cons.1 h
    exact hbody (List.prefix_append ['\n'] body).isInfix
  | block =>
    obtain ⟨rfl, hsecond⟩ := List.cons_prefix_cons.1 h
    cases body with
    | nil =>
      -- The next mark starts with its first character, and this one would go on with its second.
      rcases hcs with rfl | ⟨after, rfl⟩
      · cases List.prefix_nil.1 hsecond
      · cases (List.cons_prefix_cons.1 hsecond).1
    | cons d body =>
      obtain ⟨rfl, -⟩ := List.cons_prefix_cons.1 hsecond
      exact hbody (List.prefix_append ['*', '/'] body).isInfix

/-- A comment goes on up to its first closing mark, or to the end of the text. -/
theorem passComment_append {k : Comment} (hbody : ¬ k.closing <:+: body)
    (hcs : cs = [] ∨ k.closing <+: cs) (pos : Nat) :
    passComment k pos (body ++ cs) = passComment k (pos + byteLength body) cs := by
  induction body generalizing pos with
  | nil => rfl
  | cons c body ih =>
    have hrest : ¬ k.closing <:+: body := fun h => hbody (List.infix_cons h)
    rw [List.cons_append, passComment_cons (not_closing_of_body hbody hcs), ih hrest, byteLength,
      Nat.add_assoc]

/-- Skipping passes over a piece. -/
theorem skip_piece (h : Piece sk piece after) (pos : Nat) :
    sk.skip ⟨pos, piece ++ after⟩ = sk.skip ⟨pos + byteLength piece, after⟩ := by
  cases h with
  | blank hsk hblank =>
    cases sk with
    | none => exact absurd rfl hsk
    | blanks => exact if_pos hblank
    | blanksAndComments => exact passGap_blank hblank pos after
  | closed k hbody =>
    rw [skip, skip, List.append_assoc, List.append_assoc, passGap_opening,
      passComment_append hbody (.inr (List.prefix_append _ _)), passComment_closing,
      byteLength_append, byteLength_append, Nat.add_assoc, Nat.add_assoc, Nat.add_assoc]
  | unclosed k hbody =>
    rw [skip, skip, List.append_assoc, passGap_opening, passComment_append hbody (.inl rfl),
      passComment_nil, byteLength_append, Nat.add_assoc, passGap]

/-- Skipping passes over pieces. -/
theorem skip_pieces (h : Pieces sk gap after) (pos : Nat) :
    sk.skip ⟨pos, gap ++ after⟩ = sk.skip ⟨pos + byteLength gap, after⟩ := by
  induction h generalizing pos with
  | nil => rfl
  | cons hpiece _ ih =>
    rw [List.append_assoc, skip_piece hpiece, ih, byteLength_append, Nat.add_assoc]

/-- Skipping ends in front of a significant text. -/
theorem skip_significant (h : sk.Significant cs) (pos : Nat) : sk.skip ⟨pos, cs⟩ = ⟨pos, cs⟩ := by
  cases cs with
  | nil => cases sk <;> rfl
  | cons c cs =>
    cases sk with
    | none => rfl
    | blanks => exact if_neg (by simp [h.not_blank nofun c rfl])
    | blanksAndComments =>
      refine solid_cons (h.not_blank nofun c rfl) ?_ pos
      rintro rfl
      refine ⟨fun hhead => h.not_comment rfl .line ?_, fun hhead => h.not_comment rfl .block ?_⟩ <;>
      · obtain ⟨rest, rfl⟩ := List.head?_eq_some_iff.1 hhead
        exact List.prefix_append _ rest

/-! ## Cutting a text into pieces -/

/-- A text without a mark, or what stands in front of its first mark. -/
theorem exists_before_mark {mark : List Char} (hmark : mark ≠ []) (cs : List Char) :
    ¬ mark <:+: cs ∨ ∃ body after, cs = body ++ mark ++ after ∧ ¬ mark <:+: body := by
  induction cs with
  | nil => exact .inl fun h => hmark (List.infix_nil.1 h)
  | cons c cs ih =>
    by_cases hprefix : mark <+: c :: cs
    · obtain ⟨after, hafter⟩ := hprefix
      exact .inr ⟨[], after, hafter.symm, fun h => hmark (List.infix_nil.1 h)⟩
    · rcases ih with hnot | ⟨body, after, rfl, hbody⟩
      · exact .inl fun h => (List.infix_cons_iff.1 h).elim hprefix hnot
      · refine .inr ⟨c :: body, after, rfl, fun h => ?_⟩
        rcases List.infix_cons_iff.1 h with h | h
        · exact hprefix (h.trans ⟨mark ++ after, by simp⟩)
        · exact hbody h

/-- A comment starts where its opening mark stands. -/
theorem exists_comment (k : Comment) (rest : List Char) :
    ∃ piece after, k.opening ++ rest = piece ++ after ∧ piece ≠ [] ∧
      Piece blanksAndComments piece after := by
  have hopening (cs : List Char) : k.opening ++ cs ≠ [] := by cases k <;> exact List.cons_ne_nil _ _
  have hclosing : k.closing ≠ [] := by cases k <;> exact List.cons_ne_nil _ _
  rcases exists_before_mark hclosing rest with hrest | ⟨body, after, rfl, hbody⟩
  · exact ⟨k.opening ++ rest, [], (List.append_nil _).symm, hopening rest, .unclosed k hrest⟩
  · refine ⟨k.opening ++ body ++ k.closing, after, by simp, ?_, .closed k hbody⟩
    rw [List.append_assoc]
    exact hopening _

/-- A text is significant, or a piece stands at its beginning. -/
theorem significant_or_piece (sk : Skipper) (cs : List Char) : sk.Significant cs ∨
    ∃ piece after, cs = piece ++ after ∧ piece ≠ [] ∧ Piece sk piece after := by
  by_cases hblank : sk ≠ none ∧ ∃ c ∈ cs.head?, isBlank c = true
  · obtain ⟨hsk, c, hc, hblank⟩ := hblank
    obtain ⟨rest, rfl⟩ := List.head?_eq_some_iff.1 hc
    exact .inr ⟨[c], rest, rfl, List.cons_ne_nil _ _, .blank hsk hblank⟩
  by_cases hcomment : sk = blanksAndComments ∧ ∃ k : Comment, k.opening <+: cs
  · obtain ⟨rfl, k, rest, rfl⟩ := hcomment
    exact .inr (exists_comment k rest)
  exact .inl ⟨fun hsk c hc => Bool.eq_false_iff.2 fun h => hblank ⟨hsk, c, hc, h⟩,
    fun hsk k h => hcomment ⟨hsk, k, h⟩⟩

/-- Every text is a gap of pieces and a significant text. -/
theorem exists_pieces (sk : Skipper) (cs : List Char) :
    ∃ gap after, cs = gap ++ after ∧ Pieces sk gap after ∧ sk.Significant after := by
  rcases significant_or_piece sk cs with h | ⟨piece, after, rfl, hne, hpiece⟩
  · exact ⟨[], cs, rfl, .nil, h⟩
  · have hlt : after.length < (piece ++ after).length := by
      simpa using List.length_pos_iff.2 hne
    obtain ⟨gap, rest, rfl, hgap, hrest⟩ := exists_pieces sk after
    exact ⟨piece ++ gap, rest, (List.append_assoc ..).symm, .cons hpiece hgap, hrest⟩
termination_by cs.length

/-- Skipping passes over pieces up to a significant text, and there is only one way to do so. -/
theorem skip_eq_iff {c c' : Cursor} : sk.skip c = c' ↔ ∃ gap, c.rest = gap ++ c'.rest ∧
    c'.pos = c.pos + byteLength gap ∧ Pieces sk gap c'.rest ∧ sk.Significant c'.rest := by
  obtain ⟨pos, rest⟩ := c
  constructor
  · rintro rfl
    obtain ⟨gap, after, rfl, hpieces, hafter⟩ := exists_pieces sk rest
    rw [skip_pieces hpieces, skip_significant hafter]
    exact ⟨gap, rfl, rfl, hpieces, hafter⟩
  · rintro ⟨gap, hrest, hpos, hpieces, hafter⟩
    obtain ⟨stop, after⟩ := c'
    dsimp only at hrest hpos hpieces hafter
    rw [hrest, hpos, skip_pieces hpieces, skip_significant hafter]

/-! ## Offsets of a source -/

variable {s : Source} {pos : Nat}

/-- A skipper that starts between two characters stops between two characters, and the text between the
two offsets is made of pieces. -/
theorem skipFrom_of_boundary (sk : Skipper) {rest : List Char} (h : dropBytes? s.chars pos = some rest) :
    ∃ gap after, s.slice? ⟨pos, sk.skipFrom s pos⟩ = some gap ∧
      dropBytes? s.chars (sk.skipFrom s pos) = some after ∧ Pieces sk gap after ∧
      sk.Significant after := by
  obtain ⟨before, hchars, rfl⟩ := dropBytes?_eq_some_iff.1 h
  obtain ⟨stop, hend⟩ : ∃ stop, sk.skip ⟨byteLength before, rest⟩ = stop := ⟨_, rfl⟩
  obtain ⟨gap, hrest, hstop, hpieces, hafter⟩ := skip_eq_iff.1 hend
  have hfrom : sk.skipFrom s (byteLength before) = byteLength before + byteLength gap := by
    rw [skipFrom, Source.cursorAt, Cursor.ofOffset, h, Option.getD_some, hend, hstop]
  have hsplit : s.chars = before ++ gap ++ stop.rest := by
    rw [hchars, List.append_assoc]
    exact congrArg (before ++ ·) hrest
  refine ⟨gap, stop.rest, Source.slice?_eq_some_iff.2 ⟨before, stop.rest, hsplit, rfl, hfrom.symm⟩,
    dropBytes?_eq_some_iff.2 ⟨before ++ gap, hsplit, ?_⟩, hpieces, hafter⟩
  rw [hfrom, byteLength_append]

/-- There is nothing to pass over inside of a character and past the end of the text. -/
theorem skipFrom_of_no_boundary (h : dropBytes? s.chars pos = .none) : sk.skipFrom s pos = pos := by
  have hnil : sk.Significant [] := ⟨fun _ _ hc => (by cases hc), fun _ k hk => by
    cases k <;> cases List.prefix_nil.1 hk⟩
  rw [skipFrom, Source.cursorAt, Cursor.ofOffset, h, Option.getD_none, skip_significant hnil]

/-- A skipper stops again where it stopped. -/
theorem skipFrom_skipFrom (sk : Skipper) (s : Source) (pos : Nat) :
    sk.skipFrom s (sk.skipFrom s pos) = sk.skipFrom s pos := by
  cases h : dropBytes? s.chars pos with
  | none => rw [skipFrom_of_no_boundary h, skipFrom_of_no_boundary h]
  | some rest =>
    obtain ⟨-, after, -, hdrop, -, hafter⟩ := skipFrom_of_boundary sk h
    rw [skipFrom, Source.cursorAt, Cursor.ofOffset, hdrop, Option.getD_some, skip_significant hafter]

end ExpLang.Skipper
