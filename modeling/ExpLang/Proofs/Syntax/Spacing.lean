import ExpLang.Proofs.Syntax.Cutting

/-!
# A space behind a token

A source is read in lockstep with the one that has a space put in behind one of its tokens. Behind the
space the texts are the same, one byte apart. Before it the offsets are the same, and a place is at a
boundary between tokens of the source, or inside of one where a shorter token was tried. At a boundary
everything that is tried takes the same from both texts, because the tokens stand apart from the text
behind them with and without the space. Inside of a token nothing that is tried can be read.

So the source with the space parses too, and its tree is a twin of the first one, with spans that are
shifted as the text is. The budget has to last for both.
-/

namespace ExpLang

open Text

/-- A span after a byte was put in at an offset. -/
def Span.spread (offset : Nat) (s : Span) : Span :=
  ⟨if offset ≤ s.start then s.start + 1 else s.start, if offset < s.stop then s.stop + 1 else s.stop⟩

/-- Spreading respects the order of offsets. -/
theorem Span.spread_merge (offset : Nat) (s t : Span) :
    (s.merge t).spread offset = (s.spread offset).merge (t.spread offset) := by
  have hstart : Monotone fun n => if offset ≤ n then n + 1 else n := by
    intro m n h
    dsimp only
    split_ifs <;> omega
  have hstop : Monotone fun n => if offset < n then n + 1 else n := by
    intro m n h
    dsimp only
    split_ifs <;> omega
  exact congrArg₂ Span.mk hstart.map_min hstop.map_max

/-- A source with a space put in at a byte offset. -/
def Source.withSpace (source : Source) (offset : Nat) : Source :=
  ⟨source.name, (takeBytes? source.chars offset).getD source.chars ++
    ' ' :: (dropBytes? source.chars offset).getD []⟩

/-- The source with a space has the characters before it, the space and the characters behind it. -/
theorem Source.withSpace_chars {source : Source} {a b : List Char} (h : source.chars = a ++ b) :
    (source.withSpace (byteLength a)).chars = a ++ ' ' :: b := by
  rw [withSpace, h, takeBytes?_append, dropBytes?_append, Option.getD_some, Option.getD_some]

end ExpLang

namespace ExpLang.Syntax

open Text

/-- Spans are spread, and the texts of tokens stay. -/
def Comparison.spaced (source source' : Source) (offset : Nat) : Comparison where
  Same a a' := a' = a.spread offset ∧ source'.slice? a' = source.slice? a
  Shifted a a' := a' = a.spread offset
  shifted_of_same h := h.1
  merge h h' := by rw [h, h', Span.spread_merge]

section Places

variable {mode : Mode} {offset : Nat} {b : List Char} {c c' : Cursor}

/-- Two places in a text without and with a space, where `b` is the text behind the space. -/
inductive Aside (mode : Mode) (offset : Nat) (b : List Char) : Cursor → Cursor → Prop
  /-- Behind the space. -/
  | behind {pos rest} : offset ≤ pos → Aside mode offset b ⟨pos, rest⟩ ⟨pos + 1, rest⟩
  /-- Between tokens before the space. -/
  | before {pos s} : pos + byteLength s = offset → Marked b s →
      Aside mode offset b ⟨pos, s ++ b⟩ ⟨pos, s ++ ' ' :: b⟩
  /-- Inside of a token. -/
  | inside {pos d s} : pos + byteLength (d :: s) = offset → mode.inside d = true →
      Aside mode offset b ⟨pos, d :: (s ++ b)⟩ ⟨pos, d :: (s ++ ' ' :: b)⟩

/-- Two places where a token would start, in a text without and with a space. -/
inductive AsideStart (mode : Mode) (offset : Nat) (b : List Char) : Cursor → Cursor → Prop
  /-- Behind the space. -/
  | behind {pos rest} : offset ≤ pos → AsideStart mode offset b ⟨pos, rest⟩ ⟨pos + 1, rest⟩
  /-- At a token before the space. -/
  | token {pos w s k} : pos + byteLength w + byteLength s = offset → Apart k w (s ++ b) →
      Marked b s → AsideStart mode offset b ⟨pos, w ++ (s ++ b)⟩ ⟨pos, w ++ (s ++ ' ' :: b)⟩
  /-- Inside of a token. -/
  | inside {pos d s} : pos + byteLength (d :: s) = offset → mode.inside d = true →
      AsideStart mode offset b ⟨pos, d :: (s ++ b)⟩ ⟨pos, d :: (s ++ ' ' :: b)⟩

/-- A gap ends before the same token with and without the space. -/
theorem Aside.skip (h : Aside mode offset b c c') :
    AsideStart mode offset b (Skipper.blanksAndComments.skip c)
      (Skipper.blanksAndComments.skip c') := by
  cases h with
  | @behind pos rest hpos =>
    obtain ⟨gap, rest, rfl, hgap⟩ := Skipper.exists_gap rest
    simp only [Skipper.skip, hgap.pass_eq]
    rw [Nat.add_right_comm]
    exact .behind (Nat.le_add_right_of_le hpos)
  | @before pos s hpos hmarked =>
    cases hmarked with
    | here =>
      obtain ⟨gap, rest, rfl, hgap⟩ := Skipper.exists_gap b
      have hspace : isBlank ' ' = true := by decide
      simp only [Skipper.skip, List.nil_append, Skipper.passGap_blank hspace, hgap.pass_eq]
      have hsize : (' ').utf8Size = 1 := by decide
      rw [hsize, Nat.add_right_comm]
      exact .behind (by rw [← hpos, byteLength]; exact Nat.le_add_right _ _)
    | @token gap w s k hgap hapart hmarked =>
      obtain ⟨d, ds, rfl, -⟩ := hapart.head
      have hsolid : Skipper.Solid (d :: ds ++ (s ++ ' ' :: b)) := by
        refine Skipper.Solid.replace hgap.solid ?_
        cases ds with
        | cons e ds => exact .inl rfl
        | nil =>
          cases s with
          | cons e s => exact .inl rfl
          | nil => exact .inr rfl
      simp only [Skipper.skip, List.append_assoc, hgap.pass_eq]
      rw [hgap.replace (List.cons_ne_nil _ _) hsolid]
      refine .token ?_ hapart hmarked
      rw [← hpos, byteLength_append, byteLength_append]
      omega
  | @inside pos d s hpos hinside =>
    have hsolid (cs : List Char) : Skipper.Solid (d :: cs) := Mode.solid_of_inside hinside cs
    rw [Skipper.skip, Skipper.skip, hsolid, hsolid]
    exact .inside hpos hinside

/-- A token takes the same text at two places. -/
structure ReadAside (t : Token) (offset : Nat) (b : List Char) (c c' : Cursor) (x : List Char)
    (stop stop' : Cursor) : Prop where
  read : t.read c = some stop
  read' : t.read c' = some stop'
  rest : c.rest = x ++ stop.rest
  rest' : c'.rest = x ++ stop'.rest
  pos : stop.pos = c.pos + byteLength x
  pos' : stop'.pos = c'.pos + byteLength x
  lt : 0 < byteLength x
  spread : (⟨c'.pos, stop'.pos⟩ : Span) = Span.spread offset ⟨c.pos, stop.pos⟩
  aside : Aside t.after offset b stop stop'

variable {t : Token} {s : Site}

/-- What a token takes at a token before the space it takes with the space. -/
theorem readAside_token {w u x r : List Char} {k : Shape} {pos : Nat} (ht : t.Known)
    (hpos : pos + byteLength w + byteLength u = offset) (hapart : Apart k w (u ++ b))
    (hmarked : Marked b u) (hfloat : t = .int → Token.float.Refuses (w ++ (u ++ b)))
    (hpost : t = .op .binaryOp → (Token.op .postfixOp).Refuses (w ++ (u ++ b)))
    (hx : t.Takes x r) (hrest : w ++ (u ++ b) = x ++ r) :
    ∃ stop stop', ReadAside t offset b ⟨pos, w ++ (u ++ b)⟩ ⟨pos, w ++ (u ++ ' ' :: b)⟩ x stop stop' := by
  obtain ⟨d, ds, hcons, -⟩ := hx.head ht
  have hlt : 0 < byteLength x := by
    rw [hcons]
    exact Nat.add_pos_left d.utf8Size_pos _
  obtain ⟨y, rfl, hx', hinside⟩ := hapart.takes ht hapart.space hfloat hpost hx hrest
  obtain rfl : y ++ (u ++ b) = r := by
    rw [List.append_assoc] at hrest
    exact List.append_cancel_left hrest
  rw [byteLength_append] at hpos
  refine ⟨⟨pos + byteLength x, y ++ (u ++ b)⟩, ⟨pos + byteLength x, y ++ (u ++ ' ' :: b)⟩, {
    read := (Token.readsBy ht _ _).2 ⟨x, by simp, rfl, hx⟩
    read' := (Token.readsBy ht _ _).2 ⟨x, by simp, rfl, hx'⟩
    rest := by simp
    rest' := by simp
    pos := rfl
    pos' := rfl
    lt := hlt
    spread := ?_
    aside := ?_ }⟩
  · simp only [Span.spread]
    rw [if_neg (by omega), if_neg (by omega)]
  · cases y with
    | nil => exact .before (by simpa [byteLength] using hpos) hmarked
    | cons d y =>
      have hend : pos + byteLength x + byteLength (d :: (y ++ u)) = offset := by
        rw [← hpos, ← List.cons_append, byteLength_append]
        omega
      simpa using Aside.inside hend (hinside d rfl)

/-- A token is refused at both of two places, or takes the same at both. -/
theorem AsideStart.read (h : AsideStart s.mode offset b c c') (ht : t.Known)
    (hallowed : s.allows t = true) (hholds : s.Holds c.rest) (hholds' : s.Holds c'.rest) :
    (t.Refuses c.rest ∧ t.Refuses c'.rest) ∨ ∃ x stop stop', ReadAside t offset b c c' x stop stop' := by
  obtain ⟨hfloat, hpost⟩ := hholds.of_allows hallowed
  obtain ⟨hfloat', hpost'⟩ := hholds'.of_allows hallowed
  cases h with
  | @behind pos rest hpos =>
    rcases t.read_cases ht ⟨pos, rest⟩ with ⟨-, hrefuses⟩ | ⟨x, a, rfl, htakes, hread, hlt⟩
    · exact .inl ⟨hrefuses, hrefuses⟩
    · refine .inr ⟨x, _, ⟨pos + byteLength x + 1, a⟩, {
        read := hread
        read' := (Token.readsBy ht _ _).2 ⟨x, rfl, Nat.add_right_comm _ _ _, htakes⟩
        rest := rfl
        rest' := rfl
        pos := rfl
        pos' := Nat.add_right_comm _ _ _
        lt := hlt
        spread := ?_
        aside := .behind (Nat.le_add_right_of_le hpos) }⟩
      simp only [Span.spread]
      rw [if_pos hpos, if_pos (by omega)]
  | @token pos w u k hpos hapart hmarked =>
    rcases t.read_cases ht ⟨pos, w ++ (u ++ b)⟩ with ⟨-, hrefuses⟩ | ⟨x, r, hrest, htakes, -⟩
    · refine .inl ⟨hrefuses, fun x r hrest htakes => ?_⟩
      obtain ⟨y, rfl, hx, -⟩ := hapart.space.takes ht hapart hfloat' hpost' htakes hrest
      exact hrefuses x _ (List.append_assoc _ _ _) hx
    · obtain ⟨stop, stop', hread⟩ :=
        readAside_token ht hpos hapart hmarked hfloat hpost htakes hrest
      exact .inr ⟨x, stop, stop', hread⟩
  | inside _ hinside =>
    have hmode := Site.isAllowed_of_allows hallowed
    exact .inl ⟨Token.refuses_of_inside ht hmode hinside, Token.refuses_of_inside ht hmode hinside⟩

/-- Nothing is left at a token start if nothing is left without the space. -/
theorem AsideStart.rest_eq_nil (h : AsideStart mode offset b c c') (hrest : c.rest = []) :
    c'.rest = [] := by
  cases h with
  | behind => exact hrest
  | token _ hapart =>
    obtain ⟨d, ds, rfl, -⟩ := hapart.head
    cases hrest
  | inside => cases hrest

end Places

/-! ## Reading both texts -/

/-- Places of a source and of the source with a space. -/
structure SpacedPlace (source source' : Source) (offset : Nat) (b : List Char) (s : Site)
    (x : List Span) (c c' : Cursor) : Prop where
  reached : source.start.Advances c
  reached' : source'.start.Advances c'
  aside : Aside s.mode offset b c c'
  holds : s.Holds (Skipper.blanksAndComments.skip c).rest
  holds' : s.Holds (Skipper.blanksAndComments.skip c').rest

/-- A source is read in lockstep with the source with a space. -/
theorem passage_spacedPlace (source source' : Source) (offset : Nat) (b : List Char) :
    Passage (.spaced source source' offset) (SpacedPlace source source' offset b) where
  mono hle h := ⟨h.reached, h.reached', hle.1 ▸ h.aside, h.holds.mono hle, h.holds'.mono hle⟩
  read {t s x c c'} ht hallowed h := by
    have hskip := Skipper.blanksAndComments.skip_advances c
    have hskip' := Skipper.blanksAndComments.skip_advances c'
    have hle {c : Cursor} : c.pos ≤ (Skipper.blanksAndComments.skip c).pos := by
      obtain ⟨gap, -, hpos⟩ := Skipper.blanksAndComments.skip_advances c
      omega
    rcases h.aside.skip.read ht hallowed h.holds h.holds' with
      ⟨hrefuses, hrefuses'⟩ | ⟨w, stop, stop', hread⟩
    · exact .inl ⟨(Token.readsBy ht).eq_none_iff.2 hrefuses,
        (Token.readsBy ht).eq_none_iff.2 hrefuses', h.reached, h.reached', h.aside,
        h.holds.refusing hrefuses, h.holds'.refusing hrefuses'⟩
    · have hlt := hread.lt
      have hpos := hread.pos
      have hpos' := hread.pos'
      have hstop := Source.slice?_of_rest (h.reached.trans hskip) ⟨w, hread.rest, hpos⟩ hread.rest
      have hstop' :=
        Source.slice?_of_rest (h.reached'.trans hskip') ⟨w, hread.rest', hpos'⟩ hread.rest'
      refine .inr ⟨stop, stop', hread.read, hread.read', hle, by omega, hle, by omega,
        ⟨hread.spread, hstop'.trans hstop.symm⟩, ?_⟩
      exact ⟨(h.reached.trans hskip).trans ⟨w, hread.rest, hpos⟩,
        (h.reached'.trans hskip').trans ⟨w, hread.rest', hpos'⟩, hread.aside, .fresh _ _, .fresh _ _⟩

/-- Where a source parses, so it does with a space behind one of its tokens, if the budget lasts, and
the trees are twins. -/
theorem parse_withSpace {source : Source} {budget : Nat} {parsed : Parsed Kind}
    {tree : ParseTree Kind} {t : Span}
    (h : language.parse .stms source (parseConfig budget) = .ok parsed)
    (htree : parsed.tree.nodes.treeAt? parsed.root = some tree) (ht : t ∈ tree.tokens)
    (hbudget : ∀ spent pos, language.parse .stms (source.withSpace t.stop) (parseConfig budget) ≠
      .error (.budgetExhausted spent pos)) :
    ∃ parsed' tree',
      language.parse .stms (source.withSpace t.stop) (parseConfig budget) = .ok parsed' ∧
      parsed'.tree.source = source.withSpace t.stop ∧
      parsed'.tree.nodes.treeAt? parsed'.root = some tree' ∧
      Twin (.spaced source (source.withSpace t.stop) t.stop) tree tree' ∧
      tree.span.start < tree.span.stop := by
  have hcut := isCut_of_parse h htree
  obtain ⟨_, htiles⟩ := Grammar.tiles_of_parse language_isSkipFree h htree
  obtain ⟨a, b, hchars, hstop, hmarked⟩ := marked_of_tiles htiles hcut ht
  rw [source.cursorAt_zero] at hchars
  rw [Nat.zero_add] at hstop
  have hchars' : (source.withSpace t.stop).chars = a ++ ' ' :: b := by
    rw [hstop]
    exact Source.withSpace_chars hchars
  have hI := passage_spacedPlace source (source.withSpace t.stop) t.stop b
  obtain ⟨-, u, stop, hu, hwhole, hflow, hrest⟩ :=
    Grammar.outcome_of_parse (closed_flowRel hI) h
  obtain rfl : u = tree := Option.some.inj (hu.symm.trans htree)
  have hstart : SpacedPlace source (source.withSpace t.stop) t.stop b ⟨.any, false, false⟩ []
      source.start (source.withSpace t.stop).start := by
    refine ⟨.refl _, .refl _, ?_, .fresh _ _, .fresh _ _⟩
    rw [Source.start, Source.start, hchars', show source.chars = a ++ b from hchars]
    exact .before (by rw [hstop, Nat.zero_add]) hmarked
  obtain ⟨o', href, halike⟩ := hflow rfl ⟨.any, false, false⟩ _ [] _ rfl hstart
  obtain ⟨tree', stop', rfl, hmatched⟩ := halike.of_whole hwhole
  obtain ⟨parsed', hparse', hsource', htree'⟩ := Grammar.parse_of_reference href hmatched.whole'
    (hmatched.after.aside.skip.rest_eq_nil hrest) hbudget
  refine ⟨parsed', tree', hparse', hsource', htree', hmatched.twin, ?_⟩
  cases hmatched.extent with
  | solid hcovers => exact hcovers.lt
  | hollow _ _ _ _ htokens =>
    rw [htokens] at ht
    cases ht

end ExpLang.Syntax
