import ExpLang.Proofs.Matching.Acceptance
import ExpLang.Proofs.Syntax.Lockstep

/-!
# The tokens of a source stand apart

Every token in the tree of a parsed source stands apart from the text behind it: nothing that can be
tried at its beginning takes more than it. What was read last need not, because the text may go on in
a way that no token can be read from. But then the matcher that read it is given up in the end. So a
token stands apart from the moment on at which the next one is read after it, or the end of the source
is reached.

This is an instance of reading in lockstep, with one text in the place of both.
-/

namespace ExpLang.Syntax

open Text

/-! ## What was refused at a place -/

/-- What a site says about the text at a token start holds. -/
structure Site.Holds (s : Site) (cs : List Char) : Prop where
  float : s.noFloat = true → Token.float.Refuses cs
  postOp : s.noPostfix = true → (Token.op .postfixOp).Refuses cs

namespace Site.Holds

variable {s s' : Site} {t : Token} {cs : List Char}

/-- What holds at a site holds at one that is known no better. -/
theorem mono (h : s.Holds cs) (hle : s.Le s') : s'.Holds cs :=
  ⟨fun hfloat => h.float (hle.2.1 hfloat), fun hop => h.postOp (hle.2.2 hop)⟩

/-- Nothing is known to be refused where a token has just been read. -/
theorem fresh (mode : Mode) (cs : List Char) : Site.Holds ⟨mode, false, false⟩ cs := ⟨nofun, nofun⟩

/-- A token that is refused is known to be. -/
theorem refusing (h : s.Holds cs) (ht : t.Refuses cs) : (s.refusing t).Holds cs := by
  refine ⟨fun hfloat => ?_, fun hop => ?_⟩
  · rcases Bool.or_eq_true_iff.1 hfloat with hfloat | hfloat
    · exact h.float hfloat
    · rw [← beq_iff_eq.1 hfloat]
      exact ht
  · rcases Bool.or_eq_true_iff.1 hop with hop | hop
    · exact h.postOp hop
    · rw [← beq_iff_eq.1 hop]
      exact ht

/-- Where an integer is allowed a fraction was refused, and where an operator between operands is
allowed a postfix operator was. -/
theorem of_allows (h : s.Holds cs) (hallowed : s.allows t = true) :
    (t = .int → Token.float.Refuses cs) ∧
      (t = .op .binaryOp → (Token.op .postfixOp).Refuses cs) := by
  simp only [Site.allows, Bool.and_eq_true, Bool.or_eq_true, bne_iff_ne] at hallowed
  exact ⟨fun hint => h.float (hallowed.1.2.resolve_left (not_not.2 hint)),
    fun hop => h.postOp (hallowed.2.resolve_left (not_not.2 hop))⟩

end Site.Holds

/-- A token that a site allows is allowed in the mode of the site. -/
theorem Site.isAllowed_of_allows {s : Site} {t : Token} (h : s.allows t = true) :
    t.isAllowed s.mode = true := by
  simp only [Site.allows, Bool.and_eq_true] at h
  exact h.1.1

/-- A token is refused, or it takes a beginning of the text. -/
theorem Token.read_cases {t : Token} (ht : t.Known) (c : Cursor) :
    (t.read c = none ∧ t.Refuses c.rest) ∨ ∃ w a, c.rest = w ++ a ∧ t.Takes w a ∧
      t.read c = some ⟨c.pos + byteLength w, a⟩ ∧ 0 < byteLength w := by
  cases hread : t.read c with
  | none => exact .inl ⟨rfl, (readsBy ht).eq_none_iff.1 hread⟩
  | some c' =>
    obtain ⟨w, hrest, hpos, htakes⟩ := (readsBy ht c c').1 hread
    obtain ⟨d, ds, rfl, -⟩ := htakes.head ht
    refine .inr ⟨_, _, hrest, htakes, ?_, ?_⟩
    · rw [← hpos]
    · exact Nat.add_pos_left d.utf8Size_pos _

/-! ## Reading one text -/

/-- A span of a source is a token that stands apart from the text behind it. -/
def IsCut (source : Source) (span : Span) : Prop :=
  ∃ k w a, Apart k w a ∧ (source.cursorAt span.start).rest = w ++ a ∧
    (source.cursorAt span.stop).rest = a

/-- Nothing is asked of spans. -/
def Comparison.free : Comparison where
  Same _ _ := True
  Shifted _ _ := True
  shifted_of_same _ := trivial
  merge _ _ := trivial

/-- A place of a source. The tokens that were read before it stand apart if the text goes on as it
has to. -/
structure CutPlace (source : Source) (s : Site) (x : List Span) (c c' : Cursor) : Prop where
  eq : c = c'
  cursor : source.HasCursor c
  cuts : s.mode.Follows c.rest → ∀ span ∈ x, IsCut source span
  holds : s.Holds (Skipper.blanksAndComments.skip c).rest

/-- The text goes on as it has to where a token is read next. -/
theorem follows_of_takes {s : Site} {t : Token} {c : Cursor} {w a : List Char} (ht : t.Known)
    (hallowed : s.allows t = true) (hw : t.Takes w a)
    (hrest : (Skipper.blanksAndComments.skip c).rest = w ++ a) : s.mode.Follows c.rest := by
  obtain ⟨gap, rest, hc, hgap, hskip⟩ := Skipper.exists_skip c
  rw [hskip] at hrest
  rw [hc, show rest = w ++ a from hrest]
  exact s.mode.follows_of_gap (hrest ▸ hgap) fun _ => hw.follows ht (Site.isAllowed_of_allows hallowed)

/-- A text is read in lockstep with itself, and its tokens stand apart. -/
theorem passage_cutPlace (source : Source) : Passage .free (CutPlace source) where
  mono hle h := ⟨h.eq, h.cursor, fun hfollows => h.cuts (hle.1 ▸ hfollows), h.holds.mono hle⟩
  read {t s x c c'} ht hallowed h := by
    obtain ⟨rfl, hcursor, hcuts, hholds⟩ := h
    have hstart := hcursor.advance (Skipper.blanksAndComments.skip_advances c)
    have hle : c.pos ≤ (Skipper.blanksAndComments.skip c).pos := by
      obtain ⟨gap, -, hpos⟩ := Skipper.blanksAndComments.skip_advances c
      omega
    rcases t.read_cases ht (Skipper.blanksAndComments.skip c) with
      ⟨hnone, hrefuses⟩ | ⟨w, a, hrest, htakes, hread, hpos⟩
    · exact .inl ⟨hnone, hnone, rfl, hcursor, hcuts, hholds.refusing hrefuses⟩
    · have hstop : source.HasCursor ⟨(Skipper.blanksAndComments.skip c).pos + byteLength w, a⟩ :=
        hstart.advance ⟨w, hrest, rfl⟩
      refine .inr ⟨_, _, hread, hread, hle, Nat.lt_add_of_pos_right hpos, hle,
        Nat.lt_add_of_pos_right hpos, trivial, rfl, hstop, fun hfollows => ?_, .fresh _ _⟩
      intro span hspan
      rcases List.mem_append.1 hspan with hspan | hspan
      · exact hcuts (follows_of_takes ht hallowed htakes hrest) span hspan
      · rw [List.mem_singleton.1 hspan]
        obtain ⟨hfloat, hpost⟩ := hholds.of_allows hallowed
        refine ⟨_, w, a, htakes.apart ht (hrest ▸ hfloat) (hrest ▸ hpost) hfollows, ?_, ?_⟩
        · rw [← hstart, hrest]
        · rw [← hstop]

/-- The rules of the language keep to one skipper. -/
theorem language_isSkipFree : language.isSkipFree = true := by decide +kernel

/-- Every token of a parsed source stands apart from the text behind it. -/
theorem isCut_of_parse {source : Source} {budget : Nat} {parsed : Parsed Kind}
    {tree : ParseTree Kind} (h : language.parse .stms source (parseConfig budget) = .ok parsed)
    (htree : parsed.tree.nodes.treeAt? parsed.root = some tree) :
    ∀ span ∈ tree.tokens, IsCut source span := by
  have hI := passage_cutPlace source
  obtain ⟨-, t, stop, ht, hwhole, hflow, hrest⟩ :=
    Grammar.outcome_of_parse (closed_flowRel hI) h
  obtain rfl : t = tree := Option.some.inj (ht.symm.trans htree)
  have hstart : CutPlace source ⟨.any, false, false⟩ [] source.start source.start :=
    ⟨rfl, source.hasCursor_start, fun _ => nofun, .fresh _ _⟩
  obtain ⟨o', -, halike⟩ := hflow rfl ⟨.any, false, false⟩ _ [] source.start rfl hstart
  obtain ⟨t', stop', -, hmatched⟩ := halike.of_whole hwhole
  -- Only a gap is left, so the text goes on as it has to.
  obtain ⟨gap, rest, hstop, hgap, hskip⟩ := Skipper.exists_skip stop
  have hnil : rest = [] := by
    rw [← hrest]
    exact (congrArg Cursor.rest hskip).symm
  subst hnil
  refine hmatched.after.cuts ?_
  rw [hstop]
  exact Mode.follows_of_gap _ hgap fun _ _ => nofun

/-! ## A text up to one of its tokens -/

/-- A text that ends with a token, before the text behind that token. Its tokens stand apart from what
is behind them. -/
inductive Marked (b : List Char) : List Char → Prop
  /-- Nothing is left up to the end of the token. -/
  | here : Marked b []
  /-- A gap and a token stand before the rest. -/
  | token {gap w s k} : Skipper.Passes Skipper.passGap gap (w ++ (s ++ b)) → Apart k w (s ++ b) →
      Marked b s → Marked b (gap ++ (w ++ s))

/-- Spans that follow each other and stand apart mark the text up to each of their ends. -/
theorem marked_of_tiles {source : Source} {pos stop : Nat} {spans : List Span}
    (h : Skipper.blanksAndComments.Tiles source pos spans stop)
    (hcut : ∀ span ∈ spans, IsCut source span) {t : Span} (ht : t ∈ spans) :
    ∃ s b, (source.cursorAt pos).rest = s ++ b ∧ t.stop = pos + byteLength s ∧ Marked b s := by
  induction spans generalizing pos with
  | nil => cases ht
  | cons span rest ih =>
    obtain ⟨hstart, hadvances, htiles⟩ := h
    obtain ⟨k, w, a, hapart, hw, ha⟩ := hcut span List.mem_cons_self
    obtain ⟨gap, after, hgap, hpasses, hskip⟩ := Skipper.exists_skip (source.cursorAt pos)
    have hspan : span.start = pos + byteLength gap :=
      hstart.trans (congrArg Cursor.pos hskip)
    have hafter : after = w ++ a := by
      have hcursor := (source.hasCursor_cursorAt pos).advance
        (Skipper.blanksAndComments.skip_advances (source.cursorAt pos))
      rw [hskip] at hcursor
      rw [← hw, hspan]
      exact congrArg Cursor.rest hcursor
    have hstop : span.stop = span.start + byteLength w := by
      obtain ⟨text, htext, hpos⟩ := hadvances
      rw [hw, ha, List.append_left_inj] at htext
      rw [htext]
      exact hpos
    subst hafter
    rcases List.mem_cons.1 ht with rfl | ht
    · refine ⟨gap ++ (w ++ []), a, by simp [hgap], ?_, .token hpasses hapart .here⟩
      rw [hstop, hspan, List.append_nil, byteLength_append, Nat.add_assoc]
    · obtain ⟨s, b, hs, hpos, hmarked⟩ :=
        ih htiles (fun span hspan => hcut span (List.mem_cons_of_mem _ hspan)) ht
      rw [ha] at hs
      subst hs
      refine ⟨gap ++ (w ++ s), b, by simp [hgap], ?_, .token hpasses hapart hmarked⟩
      rw [hpos, hstop, hspan, byteLength_append, byteLength_append, Nat.add_assoc, Nat.add_assoc]

end ExpLang.Syntax
