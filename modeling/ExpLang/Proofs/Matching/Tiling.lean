import ExpLang.Grammar.Parse
import ExpLang.Proofs.Matching.Reading
import ExpLang.Proofs.Matching.Run

/-!
# Tokens tile the text that a match reads

Under one skipper the tokens of a match follow each other: the first one stands after the gap at the
cursor, each further one after the gap behind the token before it, and the cursor ends behind the
last one. A hole stands after the gap behind the cursor. This is a closed relation on outcomes, so it
holds of every run, also of one that spends its budget, and it says of a parse that the tokens of the
tree and the gaps between them are the whole source.
-/

namespace ExpLang

open Text

variable {κ : Type}

namespace Matcher

mutual

/-- Whether a matcher is free of overrides of the skipper. -/
def isSkipFree : Matcher κ → Bool
  | seq items => areSkipFree items
  | any alternatives => areSkipFree alternatives
  | list element separator _ => element.isSkipFree && isSkipFreeOption separator
  | optional body => body.isSkipFree
  | skip _ _ => false
  | _ => true

/-- Whether the matchers of a list are free of overrides of the skipper. -/
def areSkipFree : List (Matcher κ) → Bool
  | [] => true
  | m :: rest => m.isSkipFree && areSkipFree rest

/-- Whether a matcher that may be missing is free of overrides of the skipper. -/
def isSkipFreeOption : Option (Matcher κ) → Bool
  | none => true
  | some m => m.isSkipFree

end

/-- Items change nothing about what is skipped if none of them does. -/
theorem areSkipFree_iff {items : List (Matcher κ)} :
    areSkipFree items = true ↔ ∀ m ∈ items, m.isSkipFree = true := by
  induction items with
  | nil => simp [areSkipFree]
  | cons m rest ih => simp [areSkipFree, ih]

end Matcher

/-- Whether the rules and the placeholders of a grammar are free of overrides of the skipper. -/
def Grammar.isSkipFree (g : Grammar κ) : Bool :=
  g.rules.all (·.2.body.isSkipFree) && g.refs.all (·.isSkipFree)

namespace ParseTree

mutual

/-- The spans of the tokens in a tree from left to right. -/
def tokens : ParseTree κ → List Span
  | ⟨.token, span, _, _, _⟩ => [span]
  | ⟨_, _, children, _, _⟩ => tokensAll children

/-- The spans of the tokens in the trees of a list. -/
def tokensAll : List (ParseTree κ) → List Span
  | [] => []
  | t :: rest => t.tokens ++ tokensAll rest

end

/-- One tree has its own tokens. -/
theorem tokensAll_singleton (t : ParseTree κ) : tokensAll [t] = t.tokens := by
  rw [tokensAll, tokensAll, List.append_nil]

end ParseTree

namespace Skipper

variable {sk : Skipper} {source : Source}

/-- Spans follow each other from one offset to another: each is a run of the text that starts after
the gap behind the one before it. -/
def Tiles (sk : Skipper) (source : Source) : Nat → List Span → Nat → Prop
  | pos, [], stop => stop = pos
  | pos, span :: rest, stop =>
    span.start = sk.skipFrom source pos ∧
      (source.cursorAt span.start).Advances (source.cursorAt span.stop) ∧
      sk.Tiles source span.stop rest stop

/-- The gaps before, between and after spans that follow each other, and the spans themselves. -/
def pieces (sk : Skipper) (source : Source) : Nat → List Span → List Span
  | pos, [] => [⟨pos, sk.skipFrom source pos⟩]
  | pos, span :: rest => ⟨pos, span.start⟩ :: span :: sk.pieces source span.stop rest

/-- Tiles of one stretch and of the next are tiles of both. -/
theorem Tiles.append {pos mid stop : Nat} {first second : List Span}
    (hfirst : sk.Tiles source pos first mid) (hsecond : sk.Tiles source mid second stop) :
    sk.Tiles source pos (first ++ second) stop := by
  induction first generalizing pos with
  | nil =>
    cases hfirst
    exact hsecond
  | cons span rest ih =>
    obtain ⟨hstart, hadvances, hrest⟩ := hfirst
    exact ⟨hstart, hadvances, ih hrest⟩

/-- The gap after an offset of a source ends at an offset of the source. -/
theorem advances_skipFrom (sk : Skipper) (source : Source) (pos : Nat) :
    (source.cursorAt pos).Advances (source.cursorAt (sk.skipFrom source pos)) := by
  have hskip := sk.skip_advances (source.cursorAt pos)
  have hcursor := (source.hasCursor_cursorAt pos).advance hskip
  rw [skipFrom, ← hcursor]
  exact hskip

/-- The first of some spans starts behind the offset they follow each other from. -/
theorem Tiles.advances {pos stop : Nat} {spans : List Span} (h : sk.Tiles source pos spans stop) :
    (source.cursorAt pos).Advances (source.cursorAt stop) := by
  induction spans generalizing pos with
  | nil =>
    cases h
    exact .refl _
  | cons span rest ih =>
    obtain ⟨hstart, hadvances, hrest⟩ := h
    have hgap := sk.advances_skipFrom source pos
    rw [← hstart] at hgap
    exact (hgap.trans hadvances).trans (ih hrest)

/-- The texts of spans that follow each other, with the gaps around them, are the text from the
offset they start at up to the end of the last gap. -/
theorem Tiles.slices {pos stop : Nat} {spans : List Span} (h : sk.Tiles source pos spans stop)
    (hpos : source.start.Advances (source.cursorAt pos)) :
    ∃ texts, (sk.pieces source pos spans).mapM source.slice? = some texts ∧
      (source.cursorAt pos).rest =
        texts.flatten ++ (source.cursorAt (sk.skipFrom source stop)).rest := by
  induction spans generalizing pos with
  | nil =>
    cases h
    obtain ⟨gap, hgap, hrest⟩ := Source.slice?_of_advances hpos (sk.advances_skipFrom source stop)
    change source.slice? ⟨stop, sk.skipFrom source stop⟩ = some gap at hgap
    refine ⟨[gap], ?_, ?_⟩
    · simp [pieces, hgap]
    · rw [hrest]
      simp
  | cons span rest ih =>
    obtain ⟨hstart, hadvances, htiles⟩ := h
    have hskip := sk.advances_skipFrom source pos
    rw [← hstart] at hskip
    obtain ⟨gap, hgap, hgaprest⟩ := Source.slice?_of_advances hpos hskip
    obtain ⟨text, htext, htextrest⟩ := Source.slice?_of_advances (hpos.trans hskip) hadvances
    obtain ⟨texts, htexts, hrest⟩ := ih htiles ((hpos.trans hskip).trans hadvances)
    change source.slice? ⟨pos, span.start⟩ = some gap at hgap
    change source.slice? span = some text at htext
    refine ⟨gap :: text :: texts, ?_, ?_⟩
    · simp [pieces, hgap, htext, htexts]
    · rw [hgaprest, htextrest, hrest]
      simp

/-- Spans that follow each other from the start of a source and have only a gap behind them make up
the source, with the gaps around them. -/
theorem Tiles.covers {stop : Nat} {spans : List Span} (h : sk.Tiles source 0 spans stop)
    (hend : (source.cursorAt (sk.skipFrom source stop)).rest = []) :
    sk.skipFrom source stop = source.size ∧
      ∃ texts, (sk.pieces source 0 spans).mapM source.slice? = some texts ∧
        texts.flatten = source.chars := by
  have hadvances := h.advances.trans (sk.advances_skipFrom source stop)
  rw [source.cursorAt_zero] at hadvances
  have hsize := Source.pos_eq_size_of_advances hadvances hend
  obtain ⟨texts, htexts, hchars⟩ := h.slices (by rw [source.cursorAt_zero]; exact .refl _)
  rw [hend, List.append_nil, source.cursorAt_zero] at hchars
  exact ⟨hsize, texts, htexts, hchars.symm⟩

end Skipper

/-- Trees that stand between two cursors of a source: their tokens follow each other, and a hole
stands where the next token would start. -/
structure Tiled (source : Source) (sk : Skipper) (c : Cursor) (trees : List (ParseTree κ))
    (hole : Option Hole) (stop : Cursor) : Prop where
  cursor : source.HasCursor stop
  tiles : sk.Tiles source c.pos (ParseTree.tokensAll trees) stop.pos
  hole_pos : ∀ h, hole = some h → h.pos = sk.skipFrom source stop.pos

namespace Tiled

variable {source : Source} {sk : Skipper} {c mid stop : Cursor} {t : ParseTree κ}
  {trees : List (ParseTree κ)} {hole : Option Hole}

/-- No trees between a cursor and itself. -/
theorem nil (hc : source.HasCursor c) : Tiled source sk c ([] : List (ParseTree κ)) none c :=
  ⟨hc, rfl, fun _ h => by cases h⟩

/-- A hole right at a cursor. -/
theorem stuck (hc : source.HasCursor c) (what : String) :
    Tiled source sk c ([] : List (ParseTree κ)) (some ⟨what, (sk.skip c).pos⟩) c := by
  refine ⟨hc, rfl, fun h hh => ?_⟩
  cases hh
  rw [Skipper.skipFrom, ← hc]

/-- A tree in front of others. -/
theorem cons {before : Option Hole} (ht : Tiled source sk c [t] before mid)
    (hrest : Tiled source sk mid trees hole stop) : Tiled source sk c (t :: trees) hole stop := by
  have htokens := ht.tiles
  rw [ParseTree.tokensAll_singleton] at htokens
  exact ⟨hrest.cursor, htokens.append hrest.tiles, hrest.hole_pos⟩

/-- The tree of a group of trees. -/
theorem node (h : Tiled source sk c trees hole stop) (kind : NodeKind κ) (hkind : kind ≠ .token)
    (span : Span) (captures : List (TreeCapture (ParseTree κ))) :
    Tiled source sk c [⟨kind, span, trees, captures, hole⟩] hole stop := by
  refine ⟨h.cursor, ?_, h.hole_pos⟩
  rw [ParseTree.tokensAll_singleton, ParseTree.tokens]
  · exact h.tiles
  · exact fun h => hkind h

/-- A missing part reads nothing. -/
theorem missing (hc : source.HasCursor c) :
    Tiled source sk c [(.missing c.pos : ParseTree κ)] none c :=
  (nil hc).node .empty nofun (.point c.pos) []

/-- A token after the gap. -/
theorem token (hc : source.HasCursor c) (h : (sk.skip c).Advances stop) :
    Tiled source sk c [(.token ⟨(sk.skip c).pos, stop.pos⟩ : ParseTree κ)] none stop := by
  have hstart := hc.advance (sk.skip_advances c)
  have hstop := hstart.advance h
  refine ⟨hstop, ?_, fun _ h => by cases h⟩
  change _ ∧ (source.cursorAt (sk.skip c).pos).Advances (source.cursorAt stop.pos) ∧ _
  rw [← hstart, ← hstop, Skipper.skipFrom, ← hc]
  exact ⟨rfl, h, rfl⟩

end Tiled

/-- What a matcher without overrides finds at a cursor of a source stands between that cursor and
the one after it. -/
def TilingRel (source : Source) (sk : Skipper) : MatchRel κ := fun m c o =>
  m.isSkipFree = true → source.HasCursor c → ∀ t, o.found = some t →
    Tiled source sk c [t] t.hole o.stop

section Constructs

variable {source : Source} {sk : Skipper} {c : Cursor}

/-- The parts of a sequence. -/
theorem tiled_items {describe : Matcher κ → String} {committed : Bool} {items : List (Matcher κ)}
    {r : SeqOutcome κ} (h : ItemsRel describe sk (TilingRel source sk) committed items c r)
    (hfree : Matcher.areSkipFree items = true) (hc : source.HasCursor c) :
    ∀ parts hole stop, r = .ended parts hole stop →
      Tiled source sk c (parts.map (·.1)) hole stop := by
  induction h with
  | done =>
    intro parts hole stop h
    cases h
    exact .nil hc
  | cut _ _ ih =>
    rw [Matcher.areSkipFree, Bool.and_eq_true] at hfree
    exact ih hfree.2 hc
  | refused =>
    intro parts hole stop h
    cases h
  | stuck =>
    intro parts hole stop h
    cases h
    exact .stuck hc _
  | inside _ hitem hhole =>
    intro parts hole stop h
    cases h
    rw [Matcher.areSkipFree, Bool.and_eq_true] at hfree
    have hpart := hitem hfree.1 hc _ rfl
    rw [hhole] at hpart
    exact hpart
  | @next committed item items c t stop r _ hitem _ _ ih =>
    rw [Matcher.areSkipFree, Bool.and_eq_true] at hfree
    have hpart := hitem hfree.1 hc t rfl
    intro parts hole stop' hr
    cases r with
    | refused => cases hr
    | ended rest hole' stop'' =>
      cases hr
      exact hpart.cons (ih hfree.2 hpart.cursor _ _ _ rfl)

/-- The chosen alternative. -/
theorem tiled_choice {alternatives : List (Matcher κ)} {o : Outcome κ}
    (h : ChoiceRel (TilingRel source sk) c alternatives o)
    (hfree : Matcher.areSkipFree alternatives = true) (hc : source.HasCursor c) :
    ∀ t, o.found = some t → Tiled source sk c [t] t.hole o.stop := by
  rcases h.chosen with rfl | ⟨m, hmem, hm⟩
  · intro t ht
    cases ht
  · exact hm (Matcher.areSkipFree_iff.1 hfree m hmem) hc

/-- The separator before an element, if there is one, and what stands after it. -/
theorem SeparatorRel.tiled {separator : Option (Matcher κ)} {first : Bool} {here : Cursor}
    {before : Option (ParseTree κ)}
    (h : SeparatorRel (TilingRel source sk) separator first c before here)
    (hfree : Matcher.isSkipFreeOption separator = true) (hc : source.HasCursor c) :
    source.HasCursor here ∧ ∀ (r : ListOutcome κ), Tiled source sk here r.parts r.hole r.stop →
      let r' := ListOutcome.separator before r
      Tiled source sk c r'.parts r'.hole r'.stop := by
  cases h with
  | absent => exact ⟨hc, fun r hr => hr⟩
  | present hm _ =>
    have hsep := hm hfree hc _ rfl
    exact ⟨hsep.cursor, fun r hr => hsep.cons hr⟩

/-- The parts of a list. -/
theorem tiled_elements {element : Matcher κ} {separator : Option (Matcher κ)} {first : Bool}
    {r : ListOutcome κ} (h : ElementsRel (TilingRel source sk) element separator first c r)
    (helement : element.isSkipFree = true)
    (hseparator : Matcher.isSkipFreeOption separator = true) (hc : source.HasCursor c) :
    Tiled source sk c r.parts r.hole r.stop := by
  induction h with
  | unseparated | ended => exact .nil hc
  | stuck hsep hm hhole =>
    rw [hsep] at hseparator
    have hpart := hm hseparator hc _ rfl
    rw [hhole] at hpart
    exact hpart
  | last hsep hm _ =>
    obtain ⟨hhere, hseparated⟩ := hsep.tiled hseparator hc
    exact hseparated _ (hm helement hhere _ rfl)
  | more hsep hm _ _ ih =>
    obtain ⟨hhere, hseparated⟩ := hsep.tiled hseparator hc
    have hpart := hm helement hhere _ rfl
    exact hseparated _ (hpart.cons (ih hpart.cursor))

/-- What stands between two cursors is a token, if reading one moves over text. -/
theorem tiled_token {read : Cursor → Option Cursor}
    (hread : ∀ {c c'}, read c = some c' → c.Advances c') (hc : source.HasCursor c) :
    ∀ t, (Outcome.token sk read c : Outcome κ).found = some t →
      Tiled source sk c [t] t.hole (Outcome.token sk read c : Outcome κ).stop := by
  unfold Outcome.token
  split
  · intro t h
    cases h
  · rename_i stop hstop
    intro t h
    cases h
    exact .token hc (hread hstop)

/-- The tree of a sequence. -/
theorem Tiled.outcome (kind : NodeKind κ) (hkind : kind ≠ .token) {r : SeqOutcome κ}
    (h : ∀ parts hole stop, r = .ended parts hole stop →
      Tiled source sk c (parts.map (·.1)) hole stop) :
    ∀ t, (r.outcome kind c).found = some t →
      Tiled source sk c [t] t.hole (r.outcome kind c).stop := by
  cases r with
  | refused =>
    intro t h
    cases h
  | ended parts hole stop =>
    intro t h
    cases h
    exact (h parts hole stop rfl).node kind hkind _ _

end Constructs

namespace Grammar

variable {g : Grammar κ}

/-- The rules of a grammar without overrides have none. -/
theorem rule?_isSkipFree [DecidableEq κ] (hg : g.isSkipFree = true) {name : κ} {rule : Rule κ}
    (h : g.rule? name = some rule) : rule.body.isSkipFree = true := by
  rw [isSkipFree, Bool.and_eq_true, List.all_eq_true] at hg
  obtain ⟨hrules, -⟩ := hg
  unfold rule? at h
  generalize g.rules = rules at hrules h
  induction rules with
  | nil => cases h
  | cons head rest ih =>
    obtain ⟨key, first⟩ := head
    rw [findRule?] at h
    split at h
    · cases h
      exact hrules _ List.mem_cons_self
    · exact ih (fun x hx => hrules x (List.mem_cons_of_mem _ hx)) h

/-- The placeholders of a grammar without overrides have none. -/
theorem refs_isSkipFree (hg : g.isSkipFree = true) {index : Nat} {target : Matcher κ}
    (h : g.refs[index]? = some target) : target.isSkipFree = true := by
  rw [isSkipFree, Bool.and_eq_true, List.all_eq_true, List.all_eq_true] at hg
  exact hg.2 target (List.mem_of_getElem? h)

variable [DecidableEq κ] [RuleName κ]

/-- Where a grammar has no overrides, what its matchers find is tiled by its tokens. -/
theorem closed_tilingRel (hg : g.isSkipFree = true) (source : Source) :
    g.Closed (TilingRel source) := by
  intro sk m c o h hfree hc
  cases h with
  | literal => exact tiled_token readLiteral_advances hc
  | literals => exact tiled_token readLiterals_advances hc
  | pattern => exact tiled_token TokenReader.readAt_advances hc
  | seq hitems => exact .outcome .group nofun (tiled_items hitems hfree hc)
  | any hchoice => exact tiled_choice hchoice hfree hc
  | @list element separator least c r helements =>
    rw [Matcher.isSkipFree, Bool.and_eq_true] at hfree
    have hparts := tiled_elements helements hfree.1 hfree.2 hc
    unfold ListOutcome.outcome
    split
    · intro t h
      cases h
    · intro t h
      cases h
      exact hparts.node .list nofun _ _
  | @optional body c o hbody =>
    intro t ht
    unfold Outcome.orMissing at ht ⊢
    cases hfound : o.found with
    | none =>
      rw [hfound] at ht
      cases ht
      exact .missing hc
    | some u =>
      rw [hfound] at ht
      exact hbody hfree hc t ht
  | undefined | unset =>
    intro t h
    cases h
  | ruleSeq hrule hbody hitems =>
    have hrulefree := rule?_isSkipFree hg hrule
    rw [hbody] at hrulefree
    exact .outcome (.rule _) nofun (tiled_items hitems hrulefree hc)
  | rule hrule _ hrel =>
    intro t ht
    obtain ⟨u, hu, rfl⟩ := Option.map_eq_some_iff.1 ht
    exact (hrel (rule?_isSkipFree hg hrule) hc u hu).node (.rule _) nofun _ _
  | ref href htarget => exact htarget (refs_isSkipFree hg href) hc
  | sure =>
    intro t h
    cases h
    exact .missing hc
  | skip => cases hfree

end Grammar

end ExpLang
